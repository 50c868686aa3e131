import Czrpc.ThreadPool

/-! Who is woken: a task in the queue of a running pool always has somebody awake to take
it, but `stop` can miss a worker that has tested its predicate and not yet blocked. -/
namespace Czrpc.ThreadPool
open Execution

variable {n : ℕ}

def WorkerPc.holds : WorkerPc → Bool
  | .holding | .parking | .passed => true
  | _ => false

def Tested (s : State n) : WorkerPc → Prop
  | .parking => s.queue = []
  | .passed => predicate s = true
  | _ => True

theorem tested_of_not_holds (s : State n) {pc : WorkerPc} (h : pc.holds = false) : Tested s pc := by
  cases pc <;> trivial

/-- The mutex is where the workers say it is, and what its owner has tested stays true. -/
structure LockInv (s : State n) : Prop where
  owner : ∀ w, (s.workers w).holds = true ↔ s.mutex = some w
  tested : ∀ w, Tested s (s.workers w)

theorem initial_lock : LockInv (initial : State n) where
  owner w := by simp [initial, WorkerPc.holds]
  tested w := trivial

theorem LockInv.not_holds {s : State n} (h : LockInv s) (hm : s.mutex = none) (w : Fin n) :
    (s.workers w).holds = false := by
  have ho := (h.owner w).not
  rw [hm] at ho
  simpa using ho.mpr (by simp)

theorem LockInv.not_holds_of_ne {s : State n} (h : LockInv s) {v w : Fin n}
    (hw : (s.workers w).holds = true) (hv : v ≠ w) : (s.workers v).holds = false := by
  have ho := (h.owner v).not
  rw [(h.owner w).mp hw] at ho
  simpa using ho.mpr (by simpa using Ne.symm hv)

theorem LockInv.move {s t : State n} (h : LockInv s) {w : Fin n} {pc : WorkerPc}
    (ht : t.workers = (setWorker s w pc).workers) (hm : t.mutex = s.mutex)
    (hkeep : pc.holds = (s.workers w).holds) (hpc : Tested t pc)
    (hframe : ∀ pc, Tested s pc → Tested t pc) : LockInv t where
  owner v := by
    rw [ht, hm]
    by_cases hv : v = w
    · subst v
      rw [setWorker_self, hkeep]
      exact h.owner w
    · rw [setWorker_of_ne s hv]
      exact h.owner v
  tested v := by
    rw [ht]
    by_cases hv : v = w
    · subst v
      rwa [setWorker_self]
    · rw [setWorker_of_ne s hv]
      exact hframe _ (h.tested v)

theorem LockInv.release {s t : State n} (h : LockInv s) {w : Fin n} {pc : WorkerPc}
    (ht : t.workers = (setWorker s w pc).workers) (hm : t.mutex = none)
    (hw : (s.workers w).holds = true) (hpc : pc.holds = false) : LockInv t := by
  have hfree : ∀ v, (t.workers v).holds = false := by
    intro v
    rw [ht]
    by_cases hv : v = w
    · subst v
      rwa [setWorker_self]
    · rw [setWorker_of_ne s hv]
      exact h.not_holds_of_ne hw hv
  refine ⟨?_, fun v => tested_of_not_holds t (hfree v)⟩
  intro v
  simp [hfree v, hm]

theorem step_lock {s t : State n} {a : Action n} (hs : LockInv s) (h : step s a = some t) :
    LockInv t := by
  cases step_effect h with
  | call | refuse | accept | notifyNone | join => exact ⟨hs.owner, hs.tested⟩
  | enqueue hk hm => exact ⟨hs.owner, fun w => tested_of_not_holds _ (hs.not_holds hm w)⟩
  | notifyOne hk hw => exact hs.move rfl rfl (by rw [hw]; rfl) trivial (fun _ h => h)
  | @acquire w hw hm =>
    refine ⟨?_, ?_⟩
    · intro v
      by_cases hv : v = w
      · subst v
        simp [WorkerPc.holds]
      · simp [setWorker_of_ne s hv, hs.not_holds hm v, Ne.symm hv]
    · intro v
      by_cases hv : v = w
      · subst v
        simp [Tested]
      · simp only [setWorker_of_ne s hv]
        exact tested_of_not_holds _ (hs.not_holds hm v)
  | pass hw hp => exact hs.move rfl rfl (by rw [hw]; rfl) hp (fun _ h => h)
  | park hw hp =>
    obtain ⟨-, hq⟩ : s.isStop = false ∧ s.queue = [] := by simpa [predicate] using hp
    exact hs.move rfl rfl (by rw [hw]; rfl) hq (fun _ h => h)
  | block hw => exact hs.release rfl rfl (by rw [hw]; rfl) rfl
  | leave hw hstop hq => exact hs.release rfl rfl (by rw [hw]; rfl) rfl
  | take hw hq => exact hs.release rfl rfl (by rw [hw]; rfl) rfl
  | finish hw => exact hs.move rfl rfl (by rw [hw]; rfl) trivial (fun _ h => h)
  | wake hw => exact hs.move rfl rfl (by rw [hw]; rfl) trivial (fun _ h => h)
  | setStop hst =>
    refine ⟨hs.owner, ?_⟩
    intro w
    have hw := hs.tested w
    simp only
    cases hpc : s.workers w <;> simp_all [Tested, predicate]
  | notifyAll hst =>
    have hwake : ∀ w, (s.workers w).wake.holds = (s.workers w).holds := by
      intro w
      cases s.workers w <;> rfl
    refine ⟨?_, ?_⟩
    · intro w
      simp only [hwake]
      exact hs.owner w
    · intro w
      have hw := hs.tested w
      simp only
      cases hpc : s.workers w <;> simp_all [Tested, WorkerPc.wake, predicate]

/-- A worker that has passed its wait never finds the queue empty in a running pool, so it
never takes the front of an empty queue. -/
theorem take_enabled {as : List (Action n)} {s : State n} (hr : run step initial as = some s)
    {w : Fin n} (hw : s.workers w = .passed) : (step s (.take w)).isSome = true := by
  have hlock : LockInv s := run_invariant (fun _ _ _ => step_lock) initial_lock hr
  have hp : predicate s = true := by
    have h := hlock.tested w
    rwa [hw] at h
  simp only [step, hw, if_true, takeTask]
  split_ifs with hc
  · rfl
  · cases hq : s.queue with
    | nil =>
      rw [predicate, hq] at hp
      simp_all
    | cons task rest => rfl

/-- Somebody is awake, or about to wake somebody. -/
def Attended (s : State n) : Prop :=
  (∃ w, s.workers w ≠ .blocked) ∨ ∃ k : ℕ, s.adders[k]? = some .enqueued

theorem attended_setAdder {s : State n} {k : ℕ} {pc : AddPc} (h : Attended s)
    (hk : s.adders[k]? ≠ some .enqueued) : Attended (setAdder s k pc) := by
  rcases h with hw | ⟨j, hj⟩
  · exact Or.inl hw
  · have hjk : k ≠ j := by
      rintro rfl
      exact hk hj
    exact Or.inr ⟨j, by rw [setAdder, List.getElem?_set_ne hjk, hj]⟩

theorem attended_of_worker {s : State n} {w : Fin n} {pc : WorkerPc} (h : s.workers w = pc)
    (hpc : pc ≠ .blocked) : Attended s := Or.inl ⟨w, h ▸ hpc⟩

theorem step_attended {s t : State n} {a : Action n} (hn : 0 < n) (hl : LockInv s)
    (hs : s.queue ≠ [] → Attended s) (h : step s a = some t) : t.queue ≠ [] → Attended t := by
  intro hq
  cases step_effect h with
  | call =>
    rcases hs hq with hw | ⟨k, hk⟩
    · exact Or.inl hw
    · exact Or.inr ⟨k, by rw [List.getElem?_append_left (List.getElem?_eq_some_iff.mp hk).1, hk]⟩
  | refuse hk => exact attended_setAdder (hs hq) (by simp [hk])
  | accept hk => exact attended_setAdder (hs hq) (by simp [hk])
  | @enqueue k hk hm =>
    have hlt : k < s.adders.length := (List.getElem?_eq_some_iff.mp hk).1
    exact Or.inr ⟨k, by simp [setAdder, hlt]⟩
  | notifyOne hk hw => exact attended_of_worker (setWorker_self _ _ _) (by simp)
  | notifyNone hk hw => exact Or.inl ⟨⟨0, hn⟩, hw _⟩
  | acquire hw hm => exact attended_of_worker (setWorker_self _ _ _) (by simp)
  | pass hw hp => exact attended_of_worker (setWorker_self _ _ _) (by simp)
  | park hw hp => exact attended_of_worker (setWorker_self _ _ _) (by simp)
  | @block w hw =>
    have hempty := hl.tested w
    rw [hw] at hempty
    exact absurd hempty hq
  | leave hw hst hqe => exact absurd hqe hq
  | take hw hqe => exact attended_of_worker (setWorker_self _ _ _) (by simp)
  | finish hw => exact attended_of_worker (setWorker_self _ _ _) (by simp)
  | wake hw => exact attended_of_worker (setWorker_self _ _ _) (by simp)
  | setStop hst => exact hs hq
  | notifyAll hst =>
    refine Or.inl ⟨⟨0, hn⟩, ?_⟩
    simp only
    cases s.workers ⟨0, hn⟩ <;> simp [WorkerPc.wake]
  | join hst hw => exact hs hq

/-- Whatever the callers, the workers and `stop` do, there is no state with a task in the
queue in which every worker is blocked and no call of `add_task` has yet to notify. -/
theorem no_task_stranded (hn : 0 < n) {as : List (Action n)} {s : State n}
    (hr : run step initial as = some s) :
    ¬ (s.queue ≠ [] ∧ (∀ w, s.workers w = .blocked) ∧ ∀ k : ℕ, s.adders[k]? ≠ some .enqueued) := by
  have hinv : LockInv s ∧ (s.queue ≠ [] → Attended s) :=
    run_invariant (I := fun s : State n => LockInv s ∧ (s.queue ≠ [] → Attended s))
      (fun _ _ _ hs h => ⟨step_lock hs.1 h, step_attended hn hs.1 hs.2 h⟩)
      ⟨initial_lock, fun h => absurd rfl h⟩ hr
  rintro ⟨hq, hblocked, hnone⟩
  rcases hinv.2 hq with ⟨w, hw⟩ | ⟨k, hk⟩
  · exact hw (hblocked w)
  · exact hnone k hk

theorem no_task_stranded_notified :
    ∃ s : State 1, run step initial [.acquire 0, .test 0, .block 0, .call, .testStop 0, .enqueue 0,
        .notifyOne 0 (some 0)] = some s ∧ s.queue = [0] ∧
      ¬ (s.queue ≠ [] ∧ (∀ w, s.workers w = .blocked) ∧ ∀ k : ℕ, s.adders[k]? ≠ some .enqueued) := by
  have hrun : (run step (initial : State 1) [.acquire 0, .test 0, .block 0, .call, .testStop 0,
      .enqueue 0, .notifyOne 0 (some 0)]).map (fun s => s.queue) = some [0] := by decide
  obtain ⟨s, hs, hq⟩ := Option.map_eq_some_iff.mp hrun
  exact ⟨s, hs, hq, no_task_stranded Nat.one_pos hs⟩

def Stranded (s : State n) : Prop :=
  s.isStop = true ∧ s.stopper = .notified ∧ s.queue = [] ∧
    (∀ pc ∈ s.adders, pc = .returned ∨ pc = .threw) ∧ ∃ w, s.workers w = .blocked

/-- When `stop` notifies, no worker stands between its test and its block. -/
def NoneParking (s : State n) : Action n → Prop
  | .notifyAll => ∀ w, s.workers w ≠ .parking
  | _ => True

/-- The flag is set by `stop`, and once `stop` has notified no worker blocks. -/
structure StopInv (s : State n) : Prop where
  flag : s.stopper = .idle ∨ s.isStop = true
  awake : s.stopper = .notified → ∀ w, s.workers w ≠ .blocked ∧ s.workers w ≠ .parking

theorem StopInv.move {s t : State n} (h : StopInv s) {w : Fin n} {pc : WorkerPc}
    (ht : t.workers = (setWorker s w pc).workers) (hflag : t.isStop = s.isStop)
    (hst : t.stopper = s.stopper)
    (hpc : s.stopper = .notified → pc ≠ .blocked ∧ pc ≠ .parking) : StopInv t where
  flag := by
    rw [hst, hflag]
    exact h.flag
  awake hn v := by
    rw [hst] at hn
    rw [ht]
    by_cases hv : v = w
    · subst v
      rw [setWorker_self]
      exact hpc hn
    · rw [setWorker_of_ne s hv]
      exact h.awake hn v

theorem step_stop {s t : State n} {a : Action n} (hs : StopInv s) (hok : NoneParking s a)
    (h : step s a = some t) : StopInv t := by
  cases step_effect h with
  | call | refuse | accept | enqueue | notifyNone => exact ⟨hs.flag, hs.awake⟩
  | notifyOne hk hw => exact hs.move rfl rfl rfl (by simp)
  | acquire hw hm => exact hs.move rfl rfl rfl (by simp)
  | pass hw hp => exact hs.move rfl rfl rfl (by simp)
  | park hw hp =>
    refine hs.move rfl rfl rfl ?_
    intro hst
    rcases hs.flag with hidle | hflag
    · rw [hst] at hidle
      cases hidle
    · simp [predicate, hflag] at hp
  | block hw => exact hs.move rfl rfl rfl (fun hst => absurd hw (hs.awake hst _).2)
  | leave hw hst hq => exact hs.move rfl rfl rfl (by simp)
  | take hw hq => exact hs.move rfl rfl rfl (by simp)
  | finish hw => exact hs.move rfl rfl rfl (by simp)
  | wake hw => exact hs.move rfl rfl rfl (by simp)
  | setStop hst => exact ⟨Or.inr rfl, fun hn => by cases hn⟩
  | notifyAll hst =>
    refine ⟨hs.flag.imp_left fun hidle => ?_, ?_⟩
    · rw [hst] at hidle
      cases hidle
    · intro _ w
      have hw := hok w
      simp only
      cases hpc : s.workers w <;> simp_all [WorkerPc.wake]
  | join hst hw => exact ⟨Or.inr (hs.flag.resolve_left (by simp [hst])), fun hn => by cases hn⟩

/-- In every run in which `stop` notifies while no worker stands between its test and its
block, no worker is left that nobody will wake. -/
theorem no_worker_stranded {as : List (Action n)} {s : State n}
    (hc : Conforms step NoneParking initial as) (hr : run step initial as = some s) :
    ¬ Stranded s := by
  have hinv : StopInv s := conforming_invariant (fun _ _ _ => step_stop)
    ⟨Or.inl rfl, fun h => by cases h⟩ hc hr
  rintro ⟨-, hst, -, -, w, hw⟩
  exact (hinv.awake hst w).1 hw

instance (s : State n) : (a : Action n) → Decidable (NoneParking s a)
  | .notifyAll => inferInstanceAs (Decidable (∀ w, s.workers w ≠ .parking))
  | .call | .testStop _ | .enqueue _ | .notifyOne _ _ | .acquire _ | .test _ | .block _ | .take _
  | .finish _ | .wake _ | .setStop | .join => .isTrue trivial

theorem no_worker_stranded_blocked :
    ∃ s : State 1, run step initial [.acquire 0, .test 0, .block 0, .setStop, .notifyAll] = some s ∧
      ¬ Stranded s := by
  have hsome : (run step (initial : State 1)
      [.acquire 0, .test 0, .block 0, .setStop, .notifyAll]).isSome = true := by decide
  obtain ⟨s, hs⟩ := Option.isSome_iff_exists.mp hsome
  exact ⟨s, hs, no_worker_stranded (by decide) hs⟩

/-- The worker blocks after `stop` has notified. -/
theorem worker_stranded : ¬ ∀ (n : ℕ) (as : List (Action n)) (s : State n),
    run step initial as = some s → ¬ Stranded s := by
  intro h
  have hrun : (run step (initial : State 1)
      [.acquire 0, .test 0, .setStop, .notifyAll, .block 0]).map (fun s =>
        (s.isStop, s.stopper, s.queue, s.adders, s.workers 0)) =
      some (true, .notified, [], [], .blocked) := by decide
  obtain ⟨s, hs, he⟩ := Option.map_eq_some_iff.mp hrun
  simp only [Prod.mk.injEq] at he
  obtain ⟨hflag, hst, hq, hadd, hw⟩ := he
  exact h 1 _ s hs ⟨hflag, hst, hq, by simp [hadd], 0, hw⟩

end Czrpc.ThreadPool
