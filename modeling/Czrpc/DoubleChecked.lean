import Mathlib.Logic.Function.Basic
import Czrpc.Execution

/-! Double-checked creation of a shared resource. A participant that finds the flag down takes
the lock, tests the flag again, and if it is still down makes the resource and puts the flag up;
making it can fail. Anyone may take the flag down at any time, without the lock. -/
namespace Czrpc.DoubleChecked
open Execution

/-- Where a participant stands: it does not hold the lock, holds it and has yet to test the flag,
has found it down, or has made the resource and has yet to put the flag up. -/
inductive Phase
  | outside
  | testing
  | making
  | made
  deriving DecidableEq, Repr

/-- `count` is how often the resource was made and `cleared` how often the flag came down. -/
structure State (ι : Type*) where
  phase : ι → Phase
  lock : Option ι
  flag : Bool
  count : ℕ
  cleared : ℕ

inductive Action (ι : Type*)
  | enter (i : ι)
  | test (i : ι)
  | make (i : ι)
  | abandon (i : ι)
  | publish (i : ι)
  | clear

variable {ι : Type*}

def initial : State ι := ⟨fun _ => .outside, none, false, 0, 0⟩

def State.move [DecidableEq ι] (s : State ι) (i : ι) (phase : Phase) : State ι :=
  { s with phase := Function.update s.phase i phase }

def State.leave [DecidableEq ι] (s : State ι) (i : ι) : State ι :=
  { s.move i .outside with lock := none }

def step [DecidableEq ι] (s : State ι) : Action ι → Option (State ι)
  | .enter i =>
    if s.phase i = .outside ∧ s.lock = none then some { s.move i .testing with lock := some i }
    else none
  | .test i =>
    if s.phase i = .testing then some (if s.flag then s.leave i else s.move i .making) else none
  | .make i =>
    if s.phase i = .making then some { s.move i .made with count := s.count + 1 } else none
  | .abandon i => if s.phase i = .making then some (s.leave i) else none
  | .publish i => if s.phase i = .made then some { s.leave i with flag := true } else none
  | .clear => some { s with flag := false, cleared := s.cleared + s.flag.toNat }

/-- Who is inside holds the lock, the flag stays down while the resource is being made, and the
resource was made once for each time the flag came down, and once more if it is there now. -/
structure Inv (s : State ι) : Prop where
  owner : ∀ i, s.phase i ≠ .outside → s.lock = some i
  unset : ∀ i, s.phase i = .making ∨ s.phase i = .made → s.flag = false
  made : ∀ i, s.phase i = .made → s.count = s.cleared + 1
  unmade : (∀ i, s.phase i ≠ .made) → s.count = s.cleared + s.flag.toNat

theorem initial_inv : Inv (initial : State ι) := by
  constructor <;> simp [initial]

theorem Inv.unique {s : State ι} (hs : Inv s) {i j : ι} (hi : s.phase i ≠ .outside)
    (hj : s.phase j ≠ .outside) : i = j := by
  have hlock := hs.owner i hi
  rw [hs.owner j hj] at hlock
  exact (Option.some.inj hlock).symm

theorem Inv.of_free {s : State ι} (hout : ∀ i, s.phase i = .outside)
    (hcount : s.count = s.cleared + s.flag.toNat) : Inv s := by
  constructor
  · intro i hi
    exact absurd (hout i) hi
  · intro i hi
    simp [hout i] at hi
  · intro i hi
    simp [hout i] at hi
  · intro _
    exact hcount

theorem Inv.of_unmade {s : State ι} {i : ι} (hlock : s.lock = some i) (hi : s.phase i ≠ .made)
    (hflag : s.phase i = .making → s.flag = false) (hout : ∀ j, j ≠ i → s.phase j = .outside)
    (hcount : s.count = s.cleared + s.flag.toNat) : Inv s := by
  have hself : ∀ j, s.phase j ≠ .outside → j = i := fun j hj => by
    by_contra hne
    exact hj (hout j hne)
  constructor
  · intro j hj
    rw [hself j hj]
    exact hlock
  · intro j hj
    obtain rfl := hself j (by rcases hj with hj | hj <;> simp [hj])
    exact hflag (hj.resolve_right hi)
  · intro j hj
    obtain rfl := hself j (by simp [hj])
    exact absurd hj hi
  · intro _
    exact hcount

theorem Inv.of_made {s : State ι} {i : ι} (hlock : s.lock = some i) (hi : s.phase i = .made)
    (hflag : s.flag = false) (hout : ∀ j, j ≠ i → s.phase j = .outside)
    (hcount : s.count = s.cleared + 1) : Inv s := by
  constructor
  · intro j hj
    obtain rfl : j = i := by
      by_contra hne
      exact hj (hout j hne)
    exact hlock
  · intro _ _
    exact hflag
  · intro _ _
    exact hcount
  · intro hnone
    exact absurd hi (hnone i)

theorem Inv.others {s : State ι} (hs : Inv s) {i : ι} (hi : s.phase i ≠ .outside) :
    ∀ j, j ≠ i → s.phase j = .outside := by
  intro j hj
  by_contra hne
  exact hj (hs.unique hne hi)

theorem Inv.not_made {s : State ι} (hs : Inv s) {i : ι} (hi : s.phase i ≠ .outside)
    (hm : s.phase i ≠ .made) : ∀ j, s.phase j ≠ .made := by
  intro j hj
  obtain rfl : j = i := hs.unique (by simp [hj]) hi
  exact hm hj

variable [DecidableEq ι]

theorem move_others {s : State ι} {i : ι} (hout : ∀ j, j ≠ i → s.phase j = .outside)
    (phase : Phase) : ∀ j, j ≠ i → (s.move i phase).phase j = .outside := by
  intro j hj
  exact (Function.update_of_ne hj _ _).trans (hout j hj)

theorem leave_outside {s : State ι} {i : ι} (hout : ∀ j, j ≠ i → s.phase j = .outside) (j : ι) :
    (s.leave i).phase j = .outside := by
  by_cases hj : j = i
  · subst hj
    exact Function.update_self _ _ _
  · exact move_others hout .outside j hj

theorem step_inv {s t : State ι} {a : Action ι} (hs : Inv s) (h : step s a = some t) : Inv t := by
  cases a with
  | enter i =>
    obtain ⟨⟨-, hfree⟩, h⟩ := Option.ite_none_right_eq_some.mp h
    obtain rfl := Option.some.inj h
    have hout : ∀ j, s.phase j = .outside := by
      intro j
      by_contra hne
      have hlock := hs.owner j hne
      rw [hfree] at hlock
      cases hlock
    refine .of_unmade rfl ?_ ?_ (move_others (fun j _ => hout j) .testing) ?_
    · simp [State.move]
    · simp [State.move]
    · exact hs.unmade fun j => by simp [hout j]
  | test i =>
    obtain ⟨hi, h⟩ := Option.ite_none_right_eq_some.mp h
    obtain rfl := Option.some.inj h
    have hin : s.phase i ≠ .outside := by simp [hi]
    have hcount := hs.unmade (hs.not_made hin (by simp [hi]))
    split_ifs with hflag
    · exact .of_free (leave_outside (hs.others hin)) hcount
    · refine .of_unmade (hs.owner i hin) ?_ ?_ (move_others (hs.others hin) .making) hcount
      · simp [State.move]
      · simpa [State.move] using hflag
  | make i =>
    obtain ⟨hi, h⟩ := Option.ite_none_right_eq_some.mp h
    obtain rfl := Option.some.inj h
    have hin : s.phase i ≠ .outside := by simp [hi]
    have hcount := hs.unmade (hs.not_made hin (by simp [hi]))
    have hflag := hs.unset i (Or.inl hi)
    refine .of_made (hs.owner i hin) (Function.update_self _ _ _) hflag
      (move_others (hs.others hin) .made) ?_
    rw [hflag] at hcount
    exact congrArg (· + 1) hcount
  | abandon i =>
    obtain ⟨hi, h⟩ := Option.ite_none_right_eq_some.mp h
    obtain rfl := Option.some.inj h
    have hin : s.phase i ≠ .outside := by simp [hi]
    exact .of_free (leave_outside (hs.others hin)) (hs.unmade (hs.not_made hin (by simp [hi])))
  | publish i =>
    obtain ⟨hi, h⟩ := Option.ite_none_right_eq_some.mp h
    obtain rfl := Option.some.inj h
    have hin : s.phase i ≠ .outside := by simp [hi]
    exact .of_free (leave_outside (hs.others hin)) (hs.made i hi)
  | clear =>
    obtain rfl := Option.some.inj h
    refine ⟨hs.owner, fun _ _ => rfl, ?_, ?_⟩
    · intro i hi
      have hflag := hs.unset i (Or.inr hi)
      have hcount := hs.made i hi
      simpa [hflag] using hcount
    · exact hs.unmade

/-- In every run at most one participant is inside, and the resource was made once for each time
the flag came down, and once more while the flag is up or about to be. -/
theorem run_inv {as : List (Action ι)} {s : State ι} (hr : run step initial as = some s) : Inv s :=
  run_invariant (fun _ _ _ => step_inv) initial_inv hr

end Czrpc.DoubleChecked
