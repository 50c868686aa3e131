import Mathlib.Algebra.BigOperators.Fin
import Mathlib.Data.List.Basic
import Mathlib.Logic.Function.Basic
import Mathlib.Tactic.Common

/-! A queue of tasks served by `n` workers. A worker takes the front of the queue
under the lock and runs the task outside of it, so tasks start in the order of the
queue and end in any order. -/
namespace Czrpc.WorkPool
variable {τ : Type*} {n : ℕ}

structure Pool (n : ℕ) (τ : Type*) where
  queue : List τ
  running : Fin n → Option τ

def empty : Pool n τ := ⟨[], fun _ => none⟩

def addTask (p : Pool n τ) (task : τ) : Pool n τ := { p with queue := p.queue ++ [task] }

def take (p : Pool n τ) (w : Fin n) : Option (Pool n τ) :=
  match p.running w, p.queue with
  | none, task :: rest => some ⟨rest, Function.update p.running w (some task)⟩
  | _, _ => none

def finish (p : Pool n τ) (w : Fin n) : Option (τ × Pool n τ) :=
  match p.running w with
  | some task => some (task, { p with running := Function.update p.running w none })
  | none => none

/-- The task is queued or running. -/
def Unfinished (p : Pool n τ) (task : τ) : Prop :=
  task ∈ p.queue ∨ ∃ w, p.running w = some task

theorem unfinished_addTask (p : Pool n τ) (task x : τ) :
    Unfinished (addTask p task) x ↔ Unfinished p x ∨ x = task := by
  simp only [Unfinished, addTask, List.mem_append, List.mem_singleton]
  tauto

theorem foldl_addTask (p : Pool n τ) (tasks : List τ) :
    tasks.foldl addTask p = ⟨p.queue ++ tasks, p.running⟩ := by
  induction tasks generalizing p with
  | nil => rw [List.foldl_nil, List.append_nil]
  | cons task tasks ih =>
    rw [List.foldl_cons, ih, addTask, List.append_assoc, List.singleton_append]

theorem take_eq_some {p q : Pool n τ} {w : Fin n} (h : take p w = some q) :
    ∃ task rest, p.running w = none ∧ p.queue = task :: rest ∧
      q = ⟨rest, Function.update p.running w (some task)⟩ := by
  unfold take at h
  split at h
  · rename_i task rest hw hq
    exact ⟨task, rest, hw, hq, (Option.some.inj h).symm⟩
  · cases h

theorem finish_eq_some {p q : Pool n τ} {w : Fin n} {task : τ} (h : finish p w = some (task, q)) :
    p.running w = some task ∧ q = { p with running := Function.update p.running w none } := by
  unfold finish at h
  split at h
  · rename_i hw
    obtain ⟨rfl, rfl⟩ := Prod.mk.inj (Option.some.inj h)
    exact ⟨hw, rfl⟩
  · cases h

theorem exists_running_update {running : Fin n → Option τ} {w : Fin n} {next : Option τ} {x : τ} :
    (∃ v, Function.update running w next v = some x) ↔
      next = some x ∨ ∃ v, v ≠ w ∧ running v = some x := by
  constructor
  · rintro ⟨v, hv⟩
    by_cases hvw : v = w
    · subst v
      rw [Function.update_self] at hv
      exact Or.inl hv
    · rw [Function.update_of_ne hvw] at hv
      exact Or.inr ⟨v, hvw, hv⟩
  · rintro (h | ⟨v, hvw, hv⟩)
    · exact ⟨w, by rw [Function.update_self, h]⟩
    · exact ⟨v, by rw [Function.update_of_ne hvw, hv]⟩

theorem unfinished_take {p q : Pool n τ} {w : Fin n} (h : take p w = some q) (x : τ) :
    Unfinished q x ↔ Unfinished p x := by
  obtain ⟨task, rest, hw, hq, rfl⟩ := take_eq_some h
  have hrun : (∃ v, p.running v = some x) ↔ ∃ v, v ≠ w ∧ p.running v = some x := by
    constructor
    · rintro ⟨v, hv⟩
      refine ⟨v, ?_, hv⟩
      rintro rfl
      rw [hw] at hv
      cases hv
    · rintro ⟨v, -, hv⟩
      exact ⟨v, hv⟩
  simp only [Unfinished, hq, List.mem_cons, exists_running_update, hrun, Option.some.injEq]
  rw [eq_comm (a := task)]
  tauto

theorem unfinished_finish {p q : Pool n τ} {w : Fin n} {task : τ}
    (h : finish p w = some (task, q)) (x : τ) : Unfinished p x ↔ Unfinished q x ∨ x = task := by
  obtain ⟨hw, rfl⟩ := finish_eq_some h
  simp only [Unfinished, exists_running_update, reduceCtorEq, false_or]
  constructor
  · rintro (hq | ⟨v, hv⟩)
    · exact Or.inl (Or.inl hq)
    · by_cases hvw : v = w
      · subst v
        rw [hw] at hv
        exact Or.inr (Option.some.inj hv).symm
      · exact Or.inl (Or.inr ⟨v, hvw, hv⟩)
  · rintro ((hq | ⟨v, -, hv⟩) | rfl)
    · exact Or.inl hq
    · exact Or.inr ⟨v, hv⟩
    · exact Or.inr ⟨w, hw⟩

section Load
variable [DecidableEq τ]

/-- How many times a task is queued or running. -/
def load (p : Pool n τ) (x : τ) : ℕ := p.queue.count x + ∑ w, (p.running w).toList.count x

theorem sum_running_update (running : Fin n → Option τ) (w : Fin n) (next : Option τ) (x : τ) :
    ∑ v, (Function.update running w next v).toList.count x + (running w).toList.count x =
      ∑ v, (running v).toList.count x + next.toList.count x := by
  have hrest : ∑ v ∈ Finset.univ.erase w, (Function.update running w next v).toList.count x =
      ∑ v ∈ Finset.univ.erase w, (running v).toList.count x := by
    refine Finset.sum_congr rfl ?_
    intro v hv
    rw [Function.update_of_ne (Finset.ne_of_mem_erase hv)]
  rw [← Finset.add_sum_erase _ _ (Finset.mem_univ w), hrest, Function.update_self,
    ← Finset.add_sum_erase _ (fun v => (running v).toList.count x) (Finset.mem_univ w)]
  omega

theorem load_addTask (p : Pool n τ) (task x : τ) :
    load (addTask p task) x = load p x + [task].count x := by
  simp only [load, addTask, List.count_append]
  omega

theorem load_take {p q : Pool n τ} {w : Fin n} (h : take p w = some q) (x : τ) :
    load q x = load p x := by
  obtain ⟨task, rest, hw, hq, rfl⟩ := take_eq_some h
  have hsum := sum_running_update p.running w (some task) x
  simp only [hw, Option.toList_none, Option.toList_some, List.count_nil] at hsum
  have hfront : (task :: rest).count x = [task].count x + rest.count x := by
    rw [← List.count_append, List.singleton_append]
  simp only [load, hq, hfront]
  omega

theorem load_finish {p q : Pool n τ} {w : Fin n} {task : τ} (h : finish p w = some (task, q))
    (x : τ) : load p x = load q x + [task].count x := by
  obtain ⟨hw, rfl⟩ := finish_eq_some h
  have hsum := sum_running_update p.running w none x
  simp only [hw, Option.toList_none, Option.toList_some, List.count_nil] at hsum
  simp only [load]
  omega

theorem load_eq_zero {p : Pool n τ} (hq : p.queue = []) (hw : ∀ w, p.running w = none) (x : τ) :
    load p x = 0 := by
  simp [load, hq, hw]

end Load

/-- What a single worker has yet to finish, in the order in which it will. -/
def backlog (p : Pool 1 τ) : List τ := (p.running 0).toList ++ p.queue

abbrev soleWorker : Fin 1 := 0

theorem backlog_addTask (p : Pool 1 τ) (task : τ) : backlog (addTask p task) = backlog p ++ [task] := by
  simp [backlog, addTask]

theorem backlog_foldl_addTask (p : Pool 1 τ) (tasks : List τ) :
    backlog (tasks.foldl addTask p) = backlog p ++ tasks := by
  rw [foldl_addTask, backlog, backlog, List.append_assoc]

theorem backlog_take {p q : Pool 1 τ} {w : Fin 1} (h : take p w = some q) : backlog q = backlog p := by
  obtain ⟨task, rest, hw, hq, rfl⟩ := take_eq_some h
  obtain rfl : w = 0 := Subsingleton.elim _ _
  simp [backlog, hw, hq]

theorem backlog_finish {p q : Pool 1 τ} {w : Fin 1} {task : τ} (h : finish p w = some (task, q)) :
    backlog p = task :: backlog q := by
  obtain ⟨hw, rfl⟩ := finish_eq_some h
  obtain rfl : w = 0 := Subsingleton.elim _ _
  simp [backlog, hw]

end Czrpc.WorkPool
