import Czrpc.PoolDrain
import Czrpc.WorkOrder

/-! In which order `thread_pool` runs its tasks. Callers enqueue at the back and workers take from
the front, both under the mutex, but a task is run outside of it. -/
namespace Czrpc.ThreadPool
open Execution

variable {n : ℕ}

def enqueued : Action n → Option ℕ
  | .enqueue k => some k
  | _ => none

def enqueueOrder (as : List (Action n)) : List ℕ := as.filterMap enqueued

theorem enqueued_eq_some {a : Action n} {k : ℕ} : enqueued a = some k ↔ a = .enqueue k := by
  cases a <;> simp [enqueued]

theorem enqueued_eq_none {a : Action n} (h : ∀ k, a ≠ .enqueue k) : enqueued a = none := by
  cases hk : enqueued a with
  | none => rfl
  | some k => exact absurd (enqueued_eq_some.mp hk) (h k)

theorem PoolStep.ordered {a : Action n} {x y : WorkPool.Pool n ℕ × List ℕ} (h : PoolStep a x y)
    {queued : List ℕ} (hx : WorkPool.Ordered queued x.1 x.2)
    (hnew : ∀ k, a = .enqueue k → k ∉ queued) :
    WorkPool.Ordered (queued ++ (enqueued a).toList) y.1 y.2 := by
  cases h with
  | enqueue k => exact hx.addTask (hnew k rfl)
  | take ht =>
    rw [enqueued_eq_none (by simp), Option.toList_none, List.append_nil]
    exact hx.take ht
  | finish hf =>
    rw [enqueued_eq_none (by simp), Option.toList_none, List.append_nil]
    exact hx.finish hf
  | skip ha =>
    rw [enqueued_eq_none ha, Option.toList_none, List.append_nil]
    exact hx

/-- The tasks in `queued` are those of the accepted calls of `add_task`, in order. -/
structure OrderInv (queued : List ℕ) (s : State n) : Prop where
  ordered : WorkPool.Ordered queued (abstract s) s.executed
  accepted : ∀ k, k ∈ queued ↔ accepted s k = true

theorem initial_order : OrderInv [] (initial : State n) where
  ordered := WorkPool.ordered_empty
  accepted k := by simp [accepted, initial]

theorem step_order {queued : List ℕ} {s t : State n} {a : Action n} (hs : OrderInv queued s)
    (h : step s a = some t) : OrderInv (queued ++ (enqueued a).toList) t := by
  have haccepted := step_accepted h
  constructor
  · refine (step_refines h).ordered hs.ordered ?_
    rintro k rfl hk
    have hafter := haccepted k
    rw [(hs.accepted k).mp hk, if_pos rfl] at hafter
    have hle := Bool.toNat_le (ThreadPool.accepted t k)
    simp only [Bool.toNat_true] at hafter
    omega
  · intro k
    have hle := Bool.toNat_le (ThreadPool.accepted t k)
    rw [List.mem_append, hs.accepted, Option.mem_toList, enqueued_eq_some, ← Bool.toNat_eq_one,
      ← Bool.toNat_eq_one]
    rw [haccepted k] at hle ⊢
    by_cases ha : a = .enqueue k
    · rw [if_pos ha] at hle ⊢
      simp only [ha, or_true, true_iff]
      omega
    · simp [ha]

theorem run_order {queued : List ℕ} {s t : State n} {as : List (Action n)} (hs : OrderInv queued s)
    (hr : run step s as = some t) : OrderInv (queued ++ enqueueOrder as) t := by
  induction as generalizing queued s with
  | nil =>
    obtain rfl := Option.some.inj hr
    rw [enqueueOrder, List.filterMap_nil, List.append_nil]
    exact hs
  | cons a as ih =>
    obtain ⟨u, hu, hr⟩ := run_cons_eq_some.mp hr
    have hrest := ih (step_order hs hu) hr
    rw [List.append_assoc] at hrest
    cases ha : enqueued a with
    | none => simpa [enqueueOrder, ha] using hrest
    | some k => simpa [enqueueOrder, ha] using hrest

/-- In every run of a pool of `n` workers, however the callers, the workers and `stop` interleave,
each task that has been run was enqueued once, and fewer than `n` of the tasks enqueued before it
have not been run: with one worker the tasks run in the order of their enqueues. -/
theorem bounded_overtaking {as : List (Action n)} {s : State n}
    (hr : run step initial as = some s) :
    (enqueueOrder as).Nodup ∧ ∀ k ∈ s.executed, k ∈ enqueueOrder as ∧
      (WorkPool.overtaken (enqueueOrder as) s.executed k).length < n := by
  have hinv : OrderInv (enqueueOrder as) s := run_order initial_order hr
  refine ⟨hinv.ordered.nodup, ?_⟩
  intro k hk
  exact ⟨hinv.ordered.mem_of_done hk, hinv.ordered.bounded k hk⟩

/-- Of two workers the one that took the second task ends first. -/
def overtaking : List (Action 2) :=
  let v : Fin 2 := ⟨0, Nat.two_pos⟩
  let w : Fin 2 := ⟨1, Nat.one_lt_two⟩
  [.call, .testStop 0, .enqueue 0, .notifyOne 0 none, .call, .testStop 1, .enqueue 1,
    .notifyOne 1 none, .acquire v, .test v, .take v, .acquire w, .test w, .take w, .finish w]

theorem bounded_overtaking_two : ∃ s : State 2, run step initial overtaking = some s ∧
    s.executed = [1] ∧ (WorkPool.overtaken (enqueueOrder overtaking) s.executed 1).length < 2 := by
  have hrun : (run step initial overtaking).map State.executed = some [1] := by decide +kernel
  obtain ⟨s, hs, hexecuted⟩ := Option.map_eq_some_iff.mp hrun
  exact ⟨s, hs, hexecuted, ((bounded_overtaking hs).2 1 (by rw [hexecuted]; decide)).2⟩

end Czrpc.ThreadPool
