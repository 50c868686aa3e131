import Czrpc.Execution
import Czrpc.TopicManager
import Mathlib.Logic.Function.Basic

/-! The loop of `server::publish_impl` over the weak pointers that `get_connection_by_topic`
has returned, step by step, while other threads copy and drop references to the connections.
It tests a pointer with `expired()` before it locks it, and locks it again without a test
where `async_write` has thrown. -/
namespace Czrpc.PublishImpl
open Execution

variable {C : Type*}

/-- Where the loop stands, with the connections it has yet to come to. A null pointer that is
dereferenced ends it. -/
inductive Pc (C : Type*)
  | next (rest : List C)
  | tested (conn : C) (rest : List C)
  | writing (conn : C) (rest : List C)
  | caught (conn : C) (rest : List C)
  | disconnecting (conn : C) (rest : List C)
  | crashed
  deriving DecidableEq, Repr

/-- `refs` counts the strong references that others have to a connection, and `held` is the
connection that the result of `lock()` owns. `derefs` are the results of `lock()` that have
been dereferenced. -/
structure State (C : Type*) where
  refs : C → ℕ
  held : Option C
  pc : Pc C
  derefs : List (Option C)

def start (refs : C → ℕ) (conns : List C) : State C := ⟨refs, none, .next conns, []⟩

inductive Action (C : Type*)
  | acquire (conn : C)
  | release (conn : C)
  | test
  | lock
  | written
  | threw
  | lockAgain
  | disconnected
  deriving DecidableEq, Repr

variable [DecidableEq C]

def alive (s : State C) (conn : C) : Bool := 0 < s.refs conn ∨ s.held = some conn

def deref (s : State C) (conn : C) (pc : Pc C) : State C :=
  match TopicManager.lock (alive s) conn with
  | some c => { s with held := some c, pc := pc, derefs := s.derefs ++ [some c] }
  | none => { s with pc := .crashed, derefs := s.derefs ++ [none] }

/-- A connection can be copied as long as somebody owns it. The result of `lock()` lives until
the end of its statement, or until the exception leaves it. -/
def step (s : State C) : Action C → Option (State C)
  | .acquire conn =>
    if alive s conn then some { s with refs := Function.update s.refs conn (s.refs conn + 1) } else none
  | .release conn =>
    if 0 < s.refs conn then some { s with refs := Function.update s.refs conn (s.refs conn - 1) }
    else none
  | .test =>
    match s.pc with
    | .next (conn :: rest) =>
      some { s with pc := if alive s conn then .tested conn rest else .next rest }
    | _ => none
  | .lock =>
    match s.pc with
    | .tested conn rest => some (deref s conn (.writing conn rest))
    | _ => none
  | .written =>
    match s.pc with
    | .writing _ rest => some { s with held := none, pc := .next rest }
    | _ => none
  -- the result of `lock()` is gone when the catch block is entered
  | .threw =>
    match s.pc with
    | .writing conn rest => some { s with held := none, pc := .caught conn rest }
    | _ => none
  | .lockAgain =>
    match s.pc with
    | .caught conn rest => some (deref s conn (.disconnecting conn rest))
    | _ => none
  | .disconnected =>
    match s.pc with
    | .disconnecting _ rest => some { s with held := none, pc := .next rest }
    | _ => none

inductive Effect (s : State C) : Action C → State C → Prop
  | acquire {conn : C} (ha : alive s conn = true) :
      Effect s (.acquire conn) { s with refs := Function.update s.refs conn (s.refs conn + 1) }
  | release {conn : C} (hr : 0 < s.refs conn) :
      Effect s (.release conn) { s with refs := Function.update s.refs conn (s.refs conn - 1) }
  | tested {conn : C} {rest : List C} (hp : s.pc = .next (conn :: rest)) (ha : alive s conn = true) :
      Effect s .test { s with pc := .tested conn rest }
  | expired {conn : C} {rest : List C} (hp : s.pc = .next (conn :: rest)) :
      Effect s .test { s with pc := .next rest }
  | lock {conn : C} {rest : List C} (hp : s.pc = .tested conn rest) :
      Effect s .lock (deref s conn (.writing conn rest))
  | written {conn : C} {rest : List C} (hp : s.pc = .writing conn rest) :
      Effect s .written { s with held := none, pc := .next rest }
  | threw {conn : C} {rest : List C} (hp : s.pc = .writing conn rest) :
      Effect s .threw { s with held := none, pc := .caught conn rest }
  | lockAgain {conn : C} {rest : List C} (hp : s.pc = .caught conn rest) :
      Effect s .lockAgain (deref s conn (.disconnecting conn rest))
  | disconnected {conn : C} {rest : List C} (hp : s.pc = .disconnecting conn rest) :
      Effect s .disconnected { s with held := none, pc := .next rest }

theorem step_effect {s t : State C} {a : Action C} (h : step s a = some t) : Effect s a t := by
  cases a with
  | acquire conn =>
    simp only [step] at h
    split_ifs at h with ha
    obtain rfl := Option.some.inj h
    exact .acquire ha
  | release conn =>
    simp only [step] at h
    split_ifs at h with hr
    obtain rfl := Option.some.inj h
    exact .release hr
  | test =>
    simp only [step] at h
    split at h
    · obtain rfl := Option.some.inj h
      split_ifs with ha
      · exact .tested ‹_› ha
      · exact .expired ‹_›
    · cases h
  | lock =>
    simp only [step] at h
    split at h
    · obtain rfl := Option.some.inj h
      exact .lock ‹_›
    · cases h
  | written =>
    simp only [step] at h
    split at h
    · obtain rfl := Option.some.inj h
      exact .written ‹_›
    · cases h
  | threw =>
    simp only [step] at h
    split at h
    · obtain rfl := Option.some.inj h
      exact .threw ‹_›
    · cases h
  | lockAgain =>
    simp only [step] at h
    split at h
    · obtain rfl := Option.some.inj h
      exact .lockAgain ‹_›
    · cases h
  | disconnected =>
    simp only [step] at h
    split at h
    · obtain rfl := Option.some.inj h
      exact .disconnected ‹_›
    · cases h

def Pc.locksNext : Pc C → Option C
  | .tested conn _ | .caught conn _ => some conn
  | .next _ | .writing _ _ | .disconnecting _ _ | .crashed => none

def Pc.writesTo : Pc C → Option C
  | .writing conn _ => some conn
  | .next _ | .tested _ _ | .caught _ _ | .disconnecting _ _ | .crashed => none

/-- Nobody drops the last reference to the connection that the loop locks next, and a write
that throws is to a connection that somebody else has a reference to. -/
def Kept (s : State C) : Action C → Prop
  | .release conn => s.pc.locksNext = some conn → 1 < s.refs conn
  | .threw => ∀ conn ∈ s.pc.writesTo, 0 < s.refs conn
  | _ => True

instance (s : State C) : (a : Action C) → Decidable (Kept s a)
  | .release conn => inferInstanceAs (Decidable (s.pc.locksNext = some conn → 1 < s.refs conn))
  | .threw => inferInstanceAs (Decidable (∀ conn ∈ s.pc.writesTo, 0 < s.refs conn))
  | .acquire _ | .test | .lock | .written | .lockAgain | .disconnected => .isTrue trivial

/-- What the loop locks next is owned by others, nothing is held between statements, and no
null pointer has been dereferenced. -/
structure Inv (s : State C) : Prop where
  owned : ∀ conn ∈ s.pc.locksNext, 0 < s.refs conn
  free : ∀ rest, s.pc = .next rest → s.held = none
  nonnull : ∀ r ∈ s.derefs, r.isSome = true

omit [DecidableEq C] in
theorem start_inv (refs : C → ℕ) (conns : List C) : Inv (start refs conns) where
  owned := by simp [start, Pc.locksNext]
  free _ _ := rfl
  nonnull := by simp [start]

theorem alive_of_refs {s : State C} {conn : C} (h : 0 < s.refs conn) : alive s conn = true := by
  simp [alive, h]

theorem deref_inv {s : State C} (hs : Inv s) {conn : C} (h : 0 < s.refs conn) {pc : Pc C}
    (hnext : pc.locksNext = none) (hpc : ∀ rest, pc ≠ .next rest) : Inv (deref s conn pc) := by
  have hlock : TopicManager.lock (alive s) conn = some conn := if_pos (alive_of_refs h)
  unfold deref
  rw [hlock]
  refine ⟨?_, fun rest hp => absurd hp (hpc rest), ?_⟩
  · rw [hnext]
    simp
  · intro r hr
    rcases List.mem_append.mp hr with hr | hr
    · exact hs.nonnull r hr
    · rw [List.mem_singleton.mp hr]
      rfl

theorem step_inv {s t : State C} {a : Action C} (hs : Inv s) (hok : Kept s a)
    (h : step s a = some t) : Inv t := by
  cases step_effect h with
  | @acquire conn ha =>
    refine ⟨?_, hs.free, hs.nonnull⟩
    intro c hc
    have hpos := hs.owned c hc
    change 0 < Function.update s.refs conn (s.refs conn + 1) c
    rw [Function.update_apply]
    split_ifs with he
    · exact Nat.succ_pos _
    · exact hpos
  | @release conn hr =>
    refine ⟨?_, hs.free, hs.nonnull⟩
    intro c hc
    have hpos := hs.owned c hc
    change 0 < Function.update s.refs conn (s.refs conn - 1) c
    rw [Function.update_apply]
    split_ifs with he
    · subst he
      have hlast : 1 < s.refs c := hok hc
      omega
    · exact hpos
  | @tested conn rest hp ha =>
    refine ⟨?_, by simp, hs.nonnull⟩
    intro c hc
    obtain rfl := Option.some.inj hc
    simpa [alive, hs.free _ hp] using ha
  | expired hp => exact ⟨by simp [Pc.locksNext], fun _ _ => hs.free _ hp, hs.nonnull⟩
  | @lock conn rest hp =>
    have howned : 0 < s.refs conn := hs.owned conn (by rw [hp]; rfl)
    exact deref_inv hs howned rfl fun _ => by simp
  | written hp => exact ⟨by simp [Pc.locksNext], fun _ _ => rfl, hs.nonnull⟩
  | @threw conn rest hp =>
    refine ⟨?_, by simp, hs.nonnull⟩
    intro c hc
    obtain rfl := Option.some.inj hc
    exact hok conn (by rw [hp]; rfl)
  | @lockAgain conn rest hp =>
    have howned : 0 < s.refs conn := hs.owned conn (by rw [hp]; rfl)
    exact deref_inv hs howned rfl fun _ => by simp
  | disconnected hp => exact ⟨by simp [Pc.locksNext], fun _ _ => rfl, hs.nonnull⟩

/-- In every run in which nobody drops the last reference to a connection that the loop has
tested, or failed to write to, and not yet locked, and in which a write that throws is to a
connection with another owner, no null pointer is dereferenced. -/
theorem derefs_nonnull (refs : C → ℕ) (conns : List C) {as : List (Action C)} {s : State C}
    (hc : Conforms step Kept (start refs conns) as) (hr : run step (start refs conns) as = some s) :
    ∀ r ∈ s.derefs, r.isSome = true := by
  have hs : Inv s := conforming_invariant (fun _ _ _ => step_inv) (start_inv refs conns) hc hr
  exact hs.nonnull

def threeSubscribers : List (Action ℕ) :=
  [.test, .lock, .release 0, .written, .test, .test, .lock, .threw, .lockAgain, .disconnected]

theorem derefs_nonnull_three_subscribers :
    ∃ s, run step (start (fun c => if c = 1 then 0 else 1) [0, 1, 2]) threeSubscribers = some s ∧
      s.derefs = [some 0, some 2, some 2] ∧ ∀ r ∈ s.derefs, r.isSome = true := by
  have hrun : (run step (start (fun c => if c = 1 then 0 else 1) [0, 1, 2]) threeSubscribers).map
      State.derefs = some [some 0, some 2, some 2] := by decide
  obtain ⟨s, hs, hd⟩ := Option.map_eq_some_iff.mp hrun
  exact ⟨s, hs, hd, derefs_nonnull _ _ (by decide) hs⟩

/-- The last owner goes between `expired()` and `lock()`. -/
theorem null_dereferenced : ¬ ∀ (refs : ℕ → ℕ) (conns : List ℕ) (as : List (Action ℕ)) (s : State ℕ),
    run step (start refs conns) as = some s → ∀ r ∈ s.derefs, r.isSome = true := by
  intro h
  have hrun : (run step (start (fun _ => 1) [0]) [.test, .release 0, .lock]).map State.derefs =
      some [none] := by decide
  obtain ⟨s, hs, hd⟩ := Option.map_eq_some_iff.mp hrun
  have hnull := h _ _ _ _ hs none (by rw [hd]; exact List.mem_singleton_self _)
  cases hnull

end Czrpc.PublishImpl
