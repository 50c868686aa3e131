import Czrpc.Execution
import Mathlib.Data.Fintype.Basic
import Mathlib.Logic.Function.Basic

/-! `io_service_pool::get_io_service`. The accept handlers of the endpoints call it on their
io threads without a lock, so that its accesses to `next_io_service_` may be interleaved. -/
namespace Czrpc.IoServicePool
open Execution

inductive Pc
  | idle
  | indexed
  | incremented
  | resetting
  deriving DecidableEq, Repr

/-- The thread has incremented the counter and is not done with the test for its end. -/
def Pc.wraps : Pc → Bool
  | .incremented | .resetting => true
  | .idle | .indexed => false

/-- `used` are the indices at which `ios_vec_` has been read. -/
structure State (T : Type*) where
  nextIoService : ℕ
  threads : T → Pc
  used : List ℕ

variable {T : Type*}

def initial : State T := ⟨0, fun _ => .idle, []⟩

inductive Action (T : Type*)
  | index (t : T)
  | increment (t : T)
  | compare (t : T)
  | reset (t : T)
  deriving DecidableEq, Repr

def Action.thread : Action T → T
  | .index t | .increment t | .compare t | .reset t => t

variable [DecidableEq T]

def setThread (s : State T) (t : T) (pc : Pc) : State T :=
  { s with threads := Function.update s.threads t pc }

theorem setThread_self (s : State T) (t : T) (pc : Pc) : (setThread s t pc).threads t = pc :=
  Function.update_self _ _ _

def step (size : ℕ) (s : State T) : Action T → Option (State T)
  | .index t =>
    match s.threads t with
    | .idle => some { setThread s t .indexed with used := s.used ++ [s.nextIoService] }
    | _ => none
  | .increment t =>
    match s.threads t with
    | .indexed => some { setThread s t .incremented with nextIoService := s.nextIoService + 1 }
    | _ => none
  | .compare t =>
    match s.threads t with
    | .incremented => some (setThread s t (if s.nextIoService = size then .resetting else .idle))
    | _ => none
  | .reset t =>
    match s.threads t with
    | .resetting => some { setThread s t .idle with nextIoService := 0 }
    | _ => none

inductive Effect (size : ℕ) (s : State T) : Action T → State T → Prop
  | index {t : T} (ht : s.threads t = .idle) :
      Effect size s (.index t) { setThread s t .indexed with used := s.used ++ [s.nextIoService] }
  | increment {t : T} (ht : s.threads t = .indexed) :
      Effect size s (.increment t)
        { setThread s t .incremented with nextIoService := s.nextIoService + 1 }
  | atEnd {t : T} (ht : s.threads t = .incremented) (hn : s.nextIoService = size) :
      Effect size s (.compare t) (setThread s t .resetting)
  | inside {t : T} (ht : s.threads t = .incremented) (hn : s.nextIoService ≠ size) :
      Effect size s (.compare t) (setThread s t .idle)
  | reset {t : T} (ht : s.threads t = .resetting) :
      Effect size s (.reset t) { setThread s t .idle with nextIoService := 0 }

theorem step_effect {size : ℕ} {s s' : State T} {a : Action T} (h : step size s a = some s') :
    Effect size s a s' := by
  cases a with
  | index t =>
    simp only [step] at h
    split at h
    · obtain rfl := Option.some.inj h
      exact .index ‹_›
    · cases h
  | increment t =>
    simp only [step] at h
    split at h
    · obtain rfl := Option.some.inj h
      exact .increment ‹_›
    · cases h
  | compare t =>
    simp only [step] at h
    split at h
    · obtain rfl := Option.some.inj h
      split_ifs with hn
      · exact .atEnd ‹_› hn
      · exact .inside ‹_› hn
    · cases h
  | reset t =>
    simp only [step] at h
    split at h
    · obtain rfl := Option.some.inj h
      exact .reset ‹_›
    · cases h

/-- No other thread stands between its increment and the end of its test. -/
def Alone (s : State T) (a : Action T) : Prop := ∀ u, u ≠ a.thread → (s.threads u).wraps = false

instance [Fintype T] (s : State T) (a : Action T) : Decidable (Alone s a) :=
  inferInstanceAs (Decidable (∀ u, u ≠ a.thread → (s.threads u).wraps = false))

/-- The counter is at the end of the vector only while a thread is about to reset it. -/
structure InRange (size : ℕ) (s : State T) : Prop where
  le : s.nextIoService ≤ size
  lt : (∀ t, (s.threads t).wraps = false) → s.nextIoService < size
  used : ∀ i ∈ s.used, i < size

omit [DecidableEq T] in
theorem initial_inRange {size : ℕ} (hsize : 0 < size) : InRange size (initial : State T) where
  le := Nat.zero_le _
  lt _ := hsize
  used := by simp [initial]

theorem InRange.lt_of_alone {size : ℕ} {s : State T} (hs : InRange size s) {a : Action T}
    (hok : Alone s a) (ha : (s.threads a.thread).wraps = false) : s.nextIoService < size := by
  refine hs.lt fun t => ?_
  by_cases ht : t = a.thread
  · rw [ht, ha]
  · exact hok t ht

theorem step_inRange {size : ℕ} (hsize : 0 < size) {s s' : State T} {a : Action T}
    (hs : InRange size s) (hok : Alone s a) (h : step size s a = some s') : InRange size s' := by
  cases step_effect h with
  | @index t ht =>
    have hlt : s.nextIoService < size := hs.lt_of_alone hok (by simp [Action.thread, ht, Pc.wraps])
    refine ⟨hs.le, fun _ => hlt, ?_⟩
    intro i hi
    rcases List.mem_append.mp hi with hi | hi
    · exact hs.used i hi
    · rwa [List.mem_singleton.mp hi]
  | @increment t ht =>
    have hlt : s.nextIoService < size := hs.lt_of_alone hok (by simp [Action.thread, ht, Pc.wraps])
    refine ⟨hlt, ?_, hs.used⟩
    intro hnone
    have hself : ((setThread s t .incremented).threads t).wraps = false := hnone t
    rw [setThread_self] at hself
    cases hself
  | @atEnd t ht hn =>
    refine ⟨hs.le, ?_, hs.used⟩
    intro hnone
    have hself : ((setThread s t .resetting).threads t).wraps = false := hnone t
    rw [setThread_self] at hself
    cases hself
  | inside ht hn => exact ⟨hs.le, fun _ => Nat.lt_of_le_of_ne hs.le hn, hs.used⟩
  | reset ht => exact ⟨Nat.zero_le _, fun _ => hsize, hs.used⟩

/-- In every run in which no thread takes a step while another one stands between its
increment and the end of its test, every index used is inside the vector. -/
theorem indices_in_range {size : ℕ} (hsize : 0 < size) {as : List (Action T)} {s : State T}
    (hc : Conforms (step size) Alone initial as) (hr : run (step size) initial as = some s) :
    ∀ i ∈ s.used, i < size := by
  have hs : InRange size s :=
    conforming_invariant (fun _ _ _ => step_inRange hsize) (initial_inRange hsize) hc hr
  exact hs.used

def getIoService (t : T) : List (Action T) := [.index t, .increment t, .compare t]

theorem indices_in_range_two_endpoints :
    ∃ s, run (step 2) (initial : State Bool) [.index true, .index false, .increment true,
        .compare true, .increment false, .compare false, .reset false, .index true] = some s ∧
      s.used = [0, 0, 0] ∧ ∀ i ∈ s.used, i < 2 := by
  have hrun : (run (step 2) (initial : State Bool) [.index true, .index false, .increment true,
      .compare true, .increment false, .compare false, .reset false, .index true]).map State.used =
      some [0, 0, 0] := by decide
  obtain ⟨s, hs, hused⟩ := Option.map_eq_some_iff.mp hrun
  exact ⟨s, hs, hused, indices_in_range (by decide) (by decide) hs⟩

/-- Of a vector of four, both threads read the last index and both increment the counter before
either tests it: it has passed the end, and the next index is outside. -/
theorem index_out_of_range : ¬ ∀ (size : ℕ), 0 < size → ∀ (as : List (Action Bool)) (s : State Bool),
    run (step size) initial as = some s → ∀ i ∈ s.used, i < size := by
  intro h
  have hrun : (run (step 4) (initial : State Bool) (getIoService true ++ getIoService true ++
      getIoService true ++ [.index true, .index false, .increment true, .increment false,
        .compare true, .compare false, .index true])).map State.used =
      some [0, 1, 2, 3, 3, 5] := by decide
  obtain ⟨s, hs, hused⟩ := Option.map_eq_some_iff.mp hrun
  have hlt := h 4 (by decide) _ _ hs 5 (by rw [hused]; decide)
  exact absurd hlt (by decide)

end Czrpc.IoServicePool
