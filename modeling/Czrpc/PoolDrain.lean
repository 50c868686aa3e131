import Czrpc.ThreadPool

/-! What becomes of an accepted task. Each is in the queue, with a worker or done, once in
all; but `add_task` tests the stop flag before it takes the mutex, so it can enqueue a task
when no worker is left. -/
namespace Czrpc.ThreadPool
open Execution

variable {n : ℕ}

def AddPc.accepted : AddPc → Bool
  | .enqueued | .returned => true
  | _ => false

def accepted (s : State n) (k : ℕ) : Bool := s.adders[k]?.any AddPc.accepted

/-- How often a task is queued, with a worker or in the log of the tasks that have been run. -/
def places (x : WorkPool.Pool n ℕ × List ℕ) (k : ℕ) : ℕ := WorkPool.load x.1 k + x.2.count k

theorem PoolStep.places_eq {a : Action n} {x y : WorkPool.Pool n ℕ × List ℕ} (h : PoolStep a x y)
    (k : ℕ) : places y k = places x k + if a = .enqueue k then 1 else 0 := by
  cases h with
  | @enqueue p log j =>
    simp only [places, WorkPool.load_addTask, List.count_singleton, beq_iff_eq, Action.enqueue.injEq]
    omega
  | take h => simp [places, WorkPool.load_take h]
  | finish h =>
    simp only [places, WorkPool.load_finish h k, List.count_append, reduceCtorEq, if_false]
    omega
  | skip h => simp [h k]

theorem accepted_setAdder_of_ne (s : State n) {j k : ℕ} (pc : AddPc) (h : k ≠ j) :
    accepted (setAdder s k pc) j = accepted s j := by
  simp only [accepted, setAdder, List.getElem?_set_ne h]

theorem accepted_setAdder_self {s : State n} {k : ℕ} {before : AddPc}
    (h : s.adders[k]? = some before) (pc : AddPc) :
    accepted (setAdder s k pc) k = pc.accepted := by
  have hlt : k < s.adders.length := (List.getElem?_eq_some_iff.mp h).1
  simp [accepted, setAdder, hlt]

theorem accepted_setAdder {s : State n} {k : ℕ} {before : AddPc} (pc : AddPc)
    (h : s.adders[k]? = some before) (hkeep : pc.accepted = before.accepted) (j : ℕ) :
    accepted (setAdder s k pc) j = accepted s j := by
  by_cases hk : k = j
  · subst j
    rw [accepted_setAdder_self h, hkeep, accepted, h, Option.any_some]
  · exact accepted_setAdder_of_ne s pc hk

theorem accepted_call (s : State n) (j : ℕ) :
    accepted { s with adders := s.adders ++ [.called] } j = accepted s j := by
  rcases lt_trichotomy j s.adders.length with hj | rfl | hj
  · simp only [accepted, List.getElem?_append_left hj]
  · simp [accepted, AddPc.accepted]
  · have hnew : (s.adders ++ [AddPc.called]).length ≤ j := by
      rw [List.length_append, List.length_singleton]
      exact hj
    simp only [accepted, List.getElem?_eq_none hnew, List.getElem?_eq_none hj.le]

theorem step_accepted {s t : State n} {a : Action n} (h : step s a = some t) (j : ℕ) :
    (accepted t j).toNat = (accepted s j).toNat + if a = .enqueue j then 1 else 0 := by
  have hkeep : ∀ {u : State n}, accepted u j = accepted s j → (∀ k, a ≠ .enqueue k) →
      (accepted u j).toNat = (accepted s j).toNat + if a = .enqueue j then 1 else 0 := by
    intro u hu ha
    rw [hu, if_neg (ha j), Nat.add_zero]
  cases step_effect h with
  | call => exact hkeep (accepted_call s j) (by simp)
  | refuse hk => exact hkeep (accepted_setAdder .threw hk rfl j) (by simp)
  | accept hk => exact hkeep (accepted_setAdder .tested hk rfl j) (by simp)
  | @enqueue k hk hm =>
    by_cases hkj : k = j
    · subst j
      have hbefore : accepted s k = false := by simp [accepted, hk, AddPc.accepted]
      have hafter : accepted { setAdder s k .enqueued with queue := s.queue ++ [k] } k = true :=
        accepted_setAdder_self hk .enqueued
      simp [hafter, hbefore]
    · have hafter : accepted { setAdder s k .enqueued with queue := s.queue ++ [k] } j =
          accepted s j := accepted_setAdder_of_ne s .enqueued hkj
      simp [hafter, hkj]
  | notifyOne hk hw => exact hkeep (accepted_setAdder .returned hk rfl j) (by simp)
  | notifyNone hk hw => exact hkeep (accepted_setAdder .returned hk rfl j) (by simp)
  | acquire | pass | park | block | leave | take | finish | wake | setStop | notifyAll | join =>
    exact hkeep rfl (by simp)

/-- An accepted task is in one place, and nothing is queued once all the workers have left. -/
structure DrainInv (s : State n) : Prop where
  once : ∀ k, places (abstract s, s.executed) k = (accepted s k).toNat
  drained : (∀ w, s.workers w = .exited) → s.queue = []

theorem initial_drain (hn : 0 < n) : DrainInv (initial : State n) where
  once k := by simp [places, abstract, initial, WorkPool.load, accepted, WorkerPc.task]
  drained h := by
    have h0 := h ⟨0, hn⟩
    cases h0

/-- A task is enqueued while some worker has not left. -/
def WorkerLeft (s : State n) : Action n → Prop
  | .enqueue _ => ∃ w, s.workers w ≠ .exited
  | _ => True

theorem step_drained {s t : State n} {a : Action n}
    (hs : (∀ w, s.workers w = .exited) → s.queue = []) (hok : WorkerLeft s a)
    (h : step s a = some t) (ht : ∀ w, t.workers w = .exited) : t.queue = [] := by
  have hmoved : ∀ {w : Fin n} {pc : WorkerPc}, (setWorker s w pc).workers w = .exited →
      pc = .exited := by
    intro w pc hw
    rwa [setWorker_self] at hw
  cases step_effect h with
  | call | refuse | accept | notifyNone | setStop | join => exact hs ht
  | enqueue hk hm =>
    obtain ⟨w, hw⟩ := hok
    exact absurd (ht w) hw
  | notifyOne hk hw => cases hmoved (ht _)
  | acquire hw hm => cases hmoved (ht _)
  | pass hw hp => cases hmoved (ht _)
  | park hw hp => cases hmoved (ht _)
  | block hw => cases hmoved (ht _)
  | leave hw hst hq => exact hq
  | take hw hq => cases hmoved (ht _)
  | finish hw => cases hmoved (ht _)
  | wake hw => cases hmoved (ht _)
  | notifyAll hst =>
    refine hs ?_
    intro w
    have hw := ht w
    simp only at hw
    cases hpc : s.workers w <;> simp_all [WorkerPc.wake]

theorem step_drain {s t : State n} {a : Action n} (hs : DrainInv s) (hok : WorkerLeft s a)
    (h : step s a = some t) : DrainInv t where
  once k := by
    rw [(step_refines h).places_eq k, hs.once k]
    exact (step_accepted h k).symm
  drained := step_drained hs.drained hok h

theorem executed_of_exited {s t : State n} {as : List (Action n)} (hs : ∀ w, s.workers w = .exited)
    (hr : run step s as = some t) : t.executed = s.executed := by
  have hinv : (∀ w, t.workers w = .exited) ∧ t.executed = s.executed := by
    refine run_invariant (I := fun u : State n => (∀ w, u.workers w = .exited) ∧
      u.executed = s.executed) ?_ ⟨hs, rfl⟩ hr
    rintro u a v ⟨hw, he⟩ h
    cases step_effect h with
    | call | refuse | accept | enqueue | notifyNone | setStop | join => exact ⟨hw, he⟩
    | notifyOne _ hv => simp [hw] at hv
    | acquire hv => simp [hw] at hv
    | pass hv => simp [hw] at hv
    | park hv => simp [hw] at hv
    | block hv => simp [hw] at hv
    | leave hv => simp [hw] at hv
    | take hv => simp [hw] at hv
    | finish hv => simp [hw] at hv
    | wake hv => simp [hw] at hv
    | notifyAll =>
      refine ⟨?_, he⟩
      intro w
      simp only [hw w]
      rfl
  exact hinv.2

def Drained (s : State n) : Prop :=
  ∀ k, accepted s k = true →
    s.executed.count k ≤ 1 ∧ ((∀ w, s.workers w = .exited) → s.executed.count k = 1)

/-- In every run in which each task is enqueued while some worker has not left, no accepted
task is run twice and each has been run when the last worker leaves. -/
theorem tasks_drained (hn : 0 < n) {as : List (Action n)} {s : State n}
    (hc : Conforms step WorkerLeft initial as) (hr : run step initial as = some s) : Drained s := by
  have hinv : DrainInv s := conforming_invariant (fun _ _ _ => step_drain) (initial_drain hn) hc hr
  intro k hk
  have honce : WorkPool.load (abstract s) k + s.executed.count k = 1 := by
    have h := hinv.once k
    rwa [hk] at h
  refine ⟨by omega, ?_⟩
  intro hw
  have hload : WorkPool.load (abstract s) k = 0 :=
    WorkPool.load_eq_zero (hinv.drained hw) (by simp [abstract, hw, WorkerPc.task]) k
  omega

instance (s : State n) : (a : Action n) → Decidable (WorkerLeft s a)
  | .enqueue _ => inferInstanceAs (Decidable (∃ w, s.workers w ≠ .exited))
  | .call | .testStop _ | .notifyOne _ _ | .acquire _ | .test _ | .block _ | .take _ | .finish _
  | .wake _ | .setStop | .notifyAll | .join => .isTrue trivial

theorem tasks_drained_stopping :
    ∃ s : State 1, run step initial [.call, .testStop 0, .setStop, .enqueue 0, .notifyOne 0 none,
        .notifyAll, .acquire 0, .test 0, .take 0, .finish 0, .acquire 0, .test 0, .take 0, .join] =
      some s ∧ (∀ w, s.workers w = .exited) ∧ accepted s 0 = true ∧ Drained s := by
  have hrun : (run step (initial : State 1) [.call, .testStop 0, .setStop, .enqueue 0,
      .notifyOne 0 none, .notifyAll, .acquire 0, .test 0, .take 0, .finish 0, .acquire 0, .test 0,
      .take 0, .join]).map (fun s => (s.workers 0, accepted s 0)) = some (.exited, true) := by decide
  obtain ⟨s, hs, he⟩ := Option.map_eq_some_iff.mp hrun
  simp only [Prod.mk.injEq] at he
  refine ⟨s, hs, ?_, he.2, tasks_drained Nat.one_pos (by decide) hs⟩
  intro w
  rw [Subsingleton.elim w 0]
  exact he.1

/-- The caller of `add_task` has tested the flag when `stop` sets it, and enqueues when the
worker has left. -/
theorem task_dropped : ¬ ∀ (n : ℕ), 0 < n → ∀ (as : List (Action n)) (s : State n),
    run step initial as = some s → Drained s := by
  intro h
  have hrun : (run step (initial : State 1) [.call, .testStop 0, .setStop, .notifyAll, .acquire 0,
      .test 0, .take 0, .enqueue 0, .notifyOne 0 none, .join]).map
        (fun s => (s.workers 0, accepted s 0, s.executed)) = some (.exited, true, []) := by decide
  obtain ⟨s, hs, he⟩ := Option.map_eq_some_iff.mp hrun
  simp only [Prod.mk.injEq] at he
  obtain ⟨hw, hacc, hexec⟩ := he
  have hcount := (h 1 Nat.one_pos _ s hs 0 hacc).2 (by
    intro w
    rw [Subsingleton.elim w 0]
    exact hw)
  rw [hexec] at hcount
  cases hcount

end Czrpc.ThreadPool
