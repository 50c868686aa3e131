import Czrpc.Execution
import Czrpc.Linearizability
import Mathlib.Logic.Function.Basic

/-! Objects whose methods hold one mutex from their first access to the last. Many threads call
the methods, each at its own pace, and a method takes as many steps as it has accesses. If a
method that runs alone does what one operation of a specification does, then all the calls
together look like operations of the specification done one after another, and every call can
return. -/
namespace Czrpc.Monitor
open Execution Linearizability

variable {σ ι ρ π ε : Type*} {N : ℕ}

/-- What the methods do with the object, access by access. An access may depend on the
surroundings; it leads to the next place in the method or to its result. -/
structure Methods (σ ι ρ π ε : Type*) where
  enter : ι → π
  body : ε → π → σ → σ × (π ⊕ ρ)

/-- Where a thread stands in its call, which is the operation number `k`. -/
inductive Pc (ι ρ π : Type*)
  | idle
  | calling (k : ℕ) (x : ι)
  | inside (k : ℕ) (x : ι) (p : π)
  | leaving (k : ℕ) (y : ρ)
  | returning (k : ℕ) (y : ρ)

/-- The operations are recorded as they are called and return; `clock` counts the steps. -/
structure State (N : ℕ) (σ ι ρ π : Type*) where
  object : σ
  mutex : Option (Fin N)
  threads : Fin N → Pc ι ρ π
  ops : List (Operation ι ρ)
  clock : ℕ

def initial (object : σ) : State N σ ι ρ π := ⟨object, none, fun _ => .idle, [], 0⟩

inductive Action (N : ℕ) (ι ε : Type*)
  | call (i : Fin N) (x : ι)
  | lock (i : Fin N)
  | access (i : Fin N) (e : ε)
  | unlock (i : Fin N)
  | ret (i : Fin N)

def setThread (s : State N σ ι ρ π) (i : Fin N) (pc : Pc ι ρ π) : State N σ ι ρ π :=
  { s with threads := Function.update s.threads i pc, clock := s.clock + 1 }

def Pc.after (k : ℕ) (x : ι) : π ⊕ ρ → Pc ι ρ π
  | .inl p => .inside k x p
  | .inr y => .leaving k y

def step (M : Methods σ ι ρ π ε) (s : State N σ ι ρ π) : Action N ι ε → Option (State N σ ι ρ π)
  | .call i x =>
    match s.threads i with
    | .idle =>
      some { setThread s i (.calling s.ops.length x) with ops := s.ops ++ [⟨x, s.clock, none⟩] }
    | _ => none
  | .lock i =>
    match s.threads i, s.mutex with
    | .calling k x, none => some { setThread s i (.inside k x (M.enter x)) with mutex := some i }
    | _, _ => none
  | .access i e =>
    match s.threads i with
    | .inside k x p =>
      some { setThread s i (.after k x (M.body e p s.object).2) with
        object := (M.body e p s.object).1 }
    | _ => none
  | .unlock i =>
    match s.threads i with
    | .leaving k y => some { setThread s i (.returning k y) with mutex := none }
    | _ => none
  | .ret i =>
    match s.threads i with
    | .returning k y =>
      some { setThread s i .idle with ops := s.ops.modify k (·.finish y s.clock) }
    | _ => none

inductive Effect (M : Methods σ ι ρ π ε) (s : State N σ ι ρ π) :
    Action N ι ε → State N σ ι ρ π → Prop
  | call {i : Fin N} {x : ι} (hi : s.threads i = .idle) : Effect M s (.call i x)
      { setThread s i (.calling s.ops.length x) with ops := s.ops ++ [⟨x, s.clock, none⟩] }
  | lock {i : Fin N} {k : ℕ} {x : ι} (hi : s.threads i = .calling k x) (hm : s.mutex = none) :
      Effect M s (.lock i) { setThread s i (.inside k x (M.enter x)) with mutex := some i }
  | next {i : Fin N} {e : ε} {k : ℕ} {x : ι} {p p' : π} {object : σ}
      (hi : s.threads i = .inside k x p) (hb : M.body e p s.object = (object, .inl p')) :
      Effect M s (.access i e) { setThread s i (.inside k x p') with object := object }
  | last {i : Fin N} {e : ε} {k : ℕ} {x : ι} {p : π} {y : ρ} {object : σ}
      (hi : s.threads i = .inside k x p) (hb : M.body e p s.object = (object, .inr y)) :
      Effect M s (.access i e) { setThread s i (.leaving k y) with object := object }
  | unlock {i : Fin N} {k : ℕ} {y : ρ} (hi : s.threads i = .leaving k y) :
      Effect M s (.unlock i) { setThread s i (.returning k y) with mutex := none }
  | ret {i : Fin N} {k : ℕ} {y : ρ} (hi : s.threads i = .returning k y) :
      Effect M s (.ret i) { setThread s i .idle with ops := s.ops.modify k (·.finish y s.clock) }

theorem step_effect {M : Methods σ ι ρ π ε} {s t : State N σ ι ρ π} {a : Action N ι ε}
    (h : step M s a = some t) : Effect M s a t := by
  cases a with
  | call i x =>
    simp only [step] at h
    split at h
    · obtain rfl := Option.some.inj h
      exact .call ‹_›
    · cases h
  | lock i =>
    simp only [step] at h
    split at h
    · obtain rfl := Option.some.inj h
      exact .lock ‹_› ‹_›
    · cases h
  | access i e =>
    simp only [step] at h
    split at h
    · rename_i k x p hi
      obtain rfl := Option.some.inj h
      cases hb : M.body e p s.object with
      | mk object r =>
        cases r with
        | inl p' => exact .next hi hb
        | inr y => exact .last hi hb
    · cases h
  | unlock i =>
    simp only [step] at h
    split at h
    · obtain rfl := Option.some.inj h
      exact .unlock ‹_›
    · cases h
  | ret i =>
    simp only [step] at h
    split at h
    · obtain rfl := Option.some.inj h
      exact .ret ‹_›
    · cases h

/-- What a method does when no other one is inside. `During x s p u` says that `x` found the object
as `s`, and stands at `p` with the object as `u`; its result is then that of the specification,
and it has at most `rank p u` accesses before the last. The surroundings are `allowed` for `x`. -/
structure Correct (M : Methods σ ι ρ π ε) (spec : σ → ι → σ × ρ) (allowed : ι → ε → Prop)
    (During : ι → σ → π → σ → Prop) (rank : π → σ → ℕ) : Prop where
  enter : ∀ x s, During x s (M.enter x) s
  next : ∀ {x s p u e u' p'}, During x s p u → allowed x e → M.body e p u = (u', .inl p') →
    During x s p' u' ∧ rank p' u' < rank p u
  last : ∀ {x s p u e u' y}, During x s p u → allowed x e → M.body e p u = (u', .inr y) →
    spec s x = (u', y)

def Allowed (allowed : ι → ε → Prop) (s : State N σ ι ρ π) : Action N ι ε → Prop
  | .access i e => ∀ k x p, s.threads i = .inside k x p → allowed x e
  | _ => True

instance {allowed : ι → ε → Prop} [∀ x e, Decidable (allowed x e)] (s : State N σ ι ρ π) :
    (a : Action N ι ε) → Decidable (Allowed allowed s a)
  | .access i e =>
    match h : s.threads i with
    | .inside k x p => decidable_of_iff (allowed x e) (by simp [Allowed, h])
    | .idle | .calling _ _ | .leaving _ _ | .returning _ _ => .isTrue (by simp [Allowed, h])
  | .call _ _ | .lock _ | .unlock _ | .ret _ => .isTrue trivial

def Pending (ops : List (Operation ι ρ)) (points : List (Point ι ρ)) (clock k : ℕ) (x : ι) : Prop :=
  ∃ t < clock, ops[k]? = some ⟨x, t, none⟩ ∧ ∀ p ∈ points, p.op ≠ k

def Effective (ops : List (Operation ι ρ)) (points : List (Point ι ρ)) (k : ℕ) (y : ρ) : Prop :=
  (∃ a, ops[k]? = some a ∧ a.returned = none) ∧ ∃ p ∈ points, p.op = k ∧ p.output = y

/-- What the place of a thread says about its operation. -/
def Stands (ops : List (Operation ι ρ)) (points : List (Point ι ρ)) (clock : ℕ) :
    Pc ι ρ π → Prop
  | .idle => True
  | .calling k x | .inside k x _ => Pending ops points clock k x
  | .leaving k y | .returning k y => Effective ops points k y

def Pc.op : Pc ι ρ π → Option ℕ
  | .idle => none
  | .calling k _ | .inside k _ _ | .leaving k _ | .returning k _ => some k

def Pc.locked : Pc ι ρ π → Bool
  | .inside _ _ _ | .leaving _ _ => true
  | _ => false

/-- `base` is the object as the thread inside found it, and if there is none, as it is. -/
structure Inv (spec : σ → ι → σ × ρ) (During : ι → σ → π → σ → Prop) (init : σ)
    (s : State N σ ι ρ π) (base : σ) (points : List (Point ι ρ)) : Prop where
  explains : Explains spec init base s.clock s.ops points
  stands : ∀ i, Stands s.ops points s.clock (s.threads i)
  distinct : ∀ i j k, (s.threads i).op = some k → (s.threads j).op = some k → i = j
  holder : ∀ i, (s.threads i).locked = true ↔ s.mutex = some i
  during : ∀ i k x p, s.threads i = .inside k x p → During x base p s.object
  free : (∀ i k x p, s.threads i ≠ .inside k x p) → base = s.object

section Steps
variable {M : Methods σ ι ρ π ε} {spec : σ → ι → σ × ρ} {allowed : ι → ε → Prop}
  {During : ι → σ → π → σ → Prop} {rank : π → σ → ℕ} {init base : σ}
  {s t : State N σ ι ρ π} {points : List (Point ι ρ)}

theorem initial_inv (spec : σ → ι → σ × ρ) (During : ι → σ → π → σ → Prop) (init : σ) :
    Inv spec During init (initial init : State N σ ι ρ π) init [] where
  explains := explains_nil spec init 0
  stands _ := trivial
  distinct := nofun
  holder _ := by simp [initial, Pc.locked]
  during := nofun
  free _ := rfl

theorem Stands.mono {ops ops' : List (Operation ι ρ)} {points points' : List (Point ι ρ)}
    {clock clock' : ℕ} {pc : Pc ι ρ π} (h : Stands ops points clock pc)
    (hops : ∀ k, pc.op = some k → ops'[k]? = ops[k]?) (hold : points ⊆ points')
    (hnew : ∀ p ∈ points', p ∈ points ∨ pc.op ≠ some p.op) (hclock : clock ≤ clock') :
    Stands ops' points' clock' pc := by
  have hpending : ∀ k x, pc.op = some k → Pending ops points clock k x →
      Pending ops' points' clock' k x := by
    rintro k x hk ⟨time, hlt, hop, hnone⟩
    refine ⟨time, Nat.lt_of_lt_of_le hlt hclock, (hops k hk).trans hop, ?_⟩
    intro p hp
    rcases hnew p hp with hp | hp
    · exact hnone p hp
    · rintro rfl
      exact hp hk
  have heffective : ∀ k y, pc.op = some k → Effective ops points k y →
      Effective ops' points' k y := by
    rintro k y hk ⟨⟨a, ha, hret⟩, p, hp, hpk⟩
    exact ⟨⟨a, (hops k hk).trans ha, hret⟩, p, hold hp, hpk⟩
  cases pc with
  | idle => trivial
  | calling k x => exact hpending k x rfl h
  | inside k x p => exact hpending k x rfl h
  | leaving k y => exact heffective k y rfl h
  | returning k y => exact heffective k y rfl h

theorem Inv.op_lt (hs : Inv spec During init s base points) {i : Fin N} {k : ℕ}
    (hk : (s.threads i).op = some k) : k < s.ops.length := by
  have hstands := hs.stands i
  cases hpc : s.threads i with
  | idle =>
    rw [hpc] at hk
    cases hk
  | calling k' x | inside k' x p =>
    rw [hpc] at hk hstands
    obtain rfl : k' = k := Option.some.inj hk
    obtain ⟨time, -, hop, -⟩ := hstands
    exact (List.getElem?_eq_some_iff.mp hop).1
  | leaving k' y | returning k' y =>
    rw [hpc] at hk hstands
    obtain rfl : k' = k := Option.some.inj hk
    obtain ⟨⟨a, hop, -⟩, -⟩ := hstands
    exact (List.getElem?_eq_some_iff.mp hop).1

theorem Inv.move (hs : Inv spec During init s base points) {i : Fin N} {pc : Pc ι ρ π} {base' : σ}
    {points' : List (Point ι ρ)} (hthreads : t.threads = Function.update s.threads i pc)
    (hclock : s.clock ≤ t.clock)
    (hop : ∀ k, pc.op = some k → (s.threads i).op = some k ∨ k = s.ops.length)
    (hops : ∀ k < s.ops.length, (s.threads i).op ≠ some k → t.ops[k]? = s.ops[k]?)
    (hold : points ⊆ points') (hnew : ∀ p ∈ points', p ∈ points ∨ (s.threads i).op = some p.op)
    (hmutex : ∀ j ≠ i, t.mutex = some j ↔ s.mutex = some j)
    (hlocked : pc.locked = true ↔ t.mutex = some i)
    (hexplains : Explains spec init base' t.clock t.ops points')
    (hstands : Stands t.ops points' t.clock pc)
    (hduring : ∀ j k x p, t.threads j = .inside k x p → During x base' p t.object)
    (hfree : (∀ j k x p, t.threads j ≠ .inside k x p) → base' = t.object) :
    Inv spec During init t base' points' := by
  have hself : t.threads i = pc := by rw [hthreads, Function.update_self]
  have hother : ∀ j, j ≠ i → t.threads j = s.threads j := by
    intro j hj
    rw [hthreads, Function.update_of_ne hj]
  have hapart : ∀ j, j ≠ i → ∀ k, (s.threads j).op = some k → (s.threads i).op ≠ some k :=
    fun j hj k hjk hik => hj (hs.distinct j i k hjk hik)
  have hfresh : ∀ j, j ≠ i → ∀ k, (s.threads j).op = some k → pc.op ≠ some k := by
    intro j hj k hjk hik
    rcases hop k hik with hik | rfl
    · exact hapart j hj k hjk hik
    · exact absurd (hs.op_lt hjk) (Nat.lt_irrefl _)
  refine ⟨hexplains, ?_, ?_, ?_, hduring, hfree⟩
  · intro j
    by_cases hj : j = i
    · rw [hj, hself]
      exact hstands
    · rw [hother j hj]
      refine (hs.stands j).mono (fun k hk => hops k (hs.op_lt hk) (hapart j hj k hk)) hold ?_ hclock
      intro p hp
      rcases hnew p hp with hp | hp
      · exact Or.inl hp
      · exact Or.inr fun hjp => hapart j hj _ hjp hp
  · intro j j' k hk hk'
    by_cases hj : j = i <;> by_cases hj' : j' = i
    · rw [hj, hj']
    · rw [hj, hself] at hk
      rw [hother j' hj'] at hk'
      exact absurd hk (hfresh j' hj' k hk')
    · rw [hj', hself] at hk'
      rw [hother j hj] at hk
      exact absurd hk' (hfresh j hj k hk)
    · rw [hother j hj] at hk
      rw [hother j' hj'] at hk'
      exact hs.distinct j j' k hk hk'
  · intro j
    by_cases hj : j = i
    · rw [hj, hself]
      exact hlocked
    · rw [hother j hj, hmutex j hj]
      exact hs.holder j

theorem Inv.only (hs : Inv spec During init s base points) {i j : Fin N} {k : ℕ} {x : ι} {p : π}
    (hi : s.mutex = some i) (hj : s.threads j = .inside k x p) : j = i := by
  have hlocked : (s.threads j).locked = true := by rw [hj]; rfl
  exact Option.some.inj (((hs.holder j).mp hlocked).symm.trans hi)

theorem inside_update (threads : Fin N → Pc ι ρ π) (i : Fin N) (pc : Pc ι ρ π)
    (hold : ∀ k x p, threads i ≠ .inside k x p) (hnew : ∀ k x p, pc ≠ .inside k x p) (j : Fin N)
    (k : ℕ) (x : ι) (p : π) :
    Function.update threads i pc j = .inside k x p ↔ threads j = .inside k x p := by
  by_cases hji : j = i
  · rw [hji, Function.update_self]
    exact ⟨fun h => absurd h (hnew k x p), fun h => absurd h (hold k x p)⟩
  · rw [Function.update_of_ne hji]

theorem Inv.call (hs : Inv spec During init s base points) {i : Fin N} (x : ι)
    (hi : s.threads i = .idle) : Inv spec During init
      { setThread s i (.calling s.ops.length x) with ops := s.ops ++ [⟨x, s.clock, none⟩] }
      base points := by
  have hinside := inside_update s.threads i (.calling s.ops.length x) (by simp [hi]) (by simp)
  refine hs.move (i := i) rfl (Nat.le_succ _) (fun k hk => Or.inr (Option.some.inj hk).symm)
    (fun k hk _ => List.getElem?_append_left hk) (List.Subset.refl _) (fun p hp => Or.inl hp)
    (fun j _ => Iff.rfl) ?_ ((hs.explains.invoke x s.clock).later (Nat.le_succ _)) ?_ ?_ ?_
  · have hholder := hs.holder i
    rwa [hi] at hholder
  · refine ⟨s.clock, Nat.lt_succ_self _, List.getElem?_concat_length, ?_⟩
    intro p hp
    obtain ⟨a, ha, -⟩ := hs.explains.inside p hp
    exact Nat.ne_of_lt (List.getElem?_eq_some_iff.mp ha).1
  · exact fun j k y p hj => hs.during j k y p ((hinside j k y p).mp hj)
  · exact fun hnone => hs.free fun j k y p hj => hnone j k y p ((hinside j k y p).mpr hj)

theorem Inv.lock (hC : Correct M spec allowed During rank) (hs : Inv spec During init s base points)
    {i : Fin N} {k : ℕ} {x : ι} (hi : s.threads i = .calling k x) (hm : s.mutex = none) :
    Inv spec During init { setThread s i (.inside k x (M.enter x)) with mutex := some i }
      base points := by
  have hnone : ∀ j k y p, s.threads j ≠ .inside k y p := by
    intro j k y p hj
    have hlocked := (hs.holder j).mp (by rw [hj]; rfl)
    rw [hm] at hlocked
    cases hlocked
  have hbase : base = s.object := hs.free hnone
  have hstands := hs.stands i
  rw [hi] at hstands
  refine hs.move (i := i) rfl (Nat.le_succ _) ?_ (fun k _ _ => rfl) (List.Subset.refl _)
    (fun p hp => Or.inl hp) ?_ (by simp [Pc.locked]) (hs.explains.later (Nat.le_succ _)) ?_ ?_ ?_
  · intro k' hk'
    rw [hi]
    exact Or.inl hk'
  · intro j hj
    simp [hm, Ne.symm hj]
  · exact hstands.mono (fun _ _ => rfl) (List.Subset.refl _) (fun p hp => Or.inl hp) (Nat.le_succ _)
  · intro j k' y p hj
    by_cases hji : j = i
    · subst hji
      obtain ⟨rfl, rfl, rfl⟩ : k = k' ∧ x = y ∧ M.enter x = p := by
        simpa [setThread] using hj
      simp only [hbase]
      exact hC.enter x s.object
    · exact absurd (by simpa [setThread, hji] using hj) (hnone j k' y p)
  · intro hall
    exact absurd (by simp [setThread]) (hall i k x (M.enter x))

theorem Inv.next (hC : Correct M spec allowed During rank) (hs : Inv spec During init s base points)
    {i : Fin N} {e : ε} {k : ℕ} {x : ι} {p p' : π} {object : σ} (hi : s.threads i = .inside k x p)
    (he : allowed x e) (hb : M.body e p s.object = (object, .inl p')) :
    Inv spec During init { setThread s i (.inside k x p') with object := object } base points := by
  have hstands := hs.stands i
  have hholder := hs.holder i
  rw [hi] at hstands hholder
  have hmutex : s.mutex = some i := hholder.mp rfl
  refine hs.move (i := i) rfl (Nat.le_succ _) ?_ (fun k _ _ => rfl) (List.Subset.refl _)
    (fun p hp => Or.inl hp) (fun j _ => Iff.rfl) hholder (hs.explains.later (Nat.le_succ _)) ?_ ?_ ?_
  · intro k' hk'
    rw [hi]
    exact Or.inl hk'
  · have hstill : Stands s.ops points s.clock (.inside k x p' : Pc ι ρ π) := hstands
    exact hstill.mono (fun _ _ => rfl) (List.Subset.refl _) (fun p hp => Or.inl hp) (Nat.le_succ _)
  · intro j k' y q hj
    by_cases hji : j = i
    · subst hji
      obtain ⟨rfl, rfl, rfl⟩ : k = k' ∧ x = y ∧ p' = q := by simpa [setThread] using hj
      exact (hC.next (hs.during j k x p hi) he hb).1
    · have hj' : s.threads j = .inside k' y q := by simpa [setThread, hji] using hj
      exact absurd (hs.only hmutex hj') hji
  · intro hall
    exact absurd (by simp [setThread]) (hall i k x p')

/-- The last access is the moment at which the operation has its effect. -/
theorem Inv.last (hC : Correct M spec allowed During rank) (hs : Inv spec During init s base points)
    {i : Fin N} {e : ε} {k : ℕ} {x : ι} {p : π} {y : ρ} {object : σ}
    (hi : s.threads i = .inside k x p) (he : allowed x e)
    (hb : M.body e p s.object = (object, .inr y)) :
    Inv spec During init { setThread s i (.leaving k y) with object := object } object
      (points ++ [⟨k, x, y, s.clock⟩]) := by
  have hstands := hs.stands i
  have hholder := hs.holder i
  rw [hi] at hstands hholder
  have hmutex : s.mutex = some i := hholder.mp rfl
  have hspec : spec base x = (object, y) := hC.last (hs.during i k x p hi) he hb
  obtain ⟨time, htime, hop, hnone⟩ := hstands
  have hexplains := hs.explains.act hop htime rfl hnone
  simp only [hspec] at hexplains
  have hgone : ∀ j k' x' p', Function.update s.threads i (.leaving k y) j ≠ .inside k' x' p' := by
    intro j k' x' p' hj
    by_cases hji : j = i
    · simp [hji] at hj
    · rw [Function.update_of_ne hji] at hj
      exact hji (hs.only hmutex hj)
  refine hs.move (i := i) rfl (Nat.le_succ _) ?_ (fun k _ _ => rfl) (List.subset_append_left _ _) ?_
    (fun j _ => Iff.rfl) hholder hexplains ?_ ?_ (fun _ => rfl)
  · intro k' hk'
    rw [hi]
    exact Or.inl hk'
  · intro q hq
    rcases List.mem_append.mp hq with hq | hq
    · exact Or.inl hq
    · rw [List.mem_singleton.mp hq, hi]
      exact Or.inr rfl
  · exact ⟨⟨_, hop, rfl⟩, _, List.mem_append_right _ (List.mem_singleton_self _), rfl, rfl⟩
  · exact fun j k' x' p' hj => absurd hj (hgone j k' x' p')

theorem Inv.unlock (hs : Inv spec During init s base points) {i : Fin N} {k : ℕ} {y : ρ}
    (hi : s.threads i = .leaving k y) :
    Inv spec During init { setThread s i (.returning k y) with mutex := none } base points := by
  have hinside := inside_update s.threads i (.returning k y) (by simp [hi]) (by simp)
  have hstands := hs.stands i
  have hholder := hs.holder i
  rw [hi] at hstands hholder
  have hmutex : s.mutex = some i := hholder.mp rfl
  refine hs.move (i := i) rfl (Nat.le_succ _) ?_ (fun k _ _ => rfl) (List.Subset.refl _)
    (fun p hp => Or.inl hp) ?_ (by simp [Pc.locked]) (hs.explains.later (Nat.le_succ _)) hstands ?_ ?_
  · intro k' hk'
    rw [hi]
    exact Or.inl hk'
  · intro j hj
    simp [hmutex, Ne.symm hj]
  · exact fun j k y p hj => hs.during j k y p ((hinside j k y p).mp hj)
  · exact fun hnone => hs.free fun j k y p hj => hnone j k y p ((hinside j k y p).mpr hj)

theorem Inv.ret (hs : Inv spec During init s base points) {i : Fin N} {k : ℕ} {y : ρ}
    (hi : s.threads i = .returning k y) : Inv spec During init
      { setThread s i .idle with ops := s.ops.modify k (·.finish y s.clock) } base points := by
  have hinside := inside_update s.threads i .idle (by simp [hi]) (by simp)
  have hstands := hs.stands i
  have hholder := hs.holder i
  rw [hi] at hstands hholder
  refine hs.move (i := i) rfl (Nat.le_succ _) nofun ?_ (List.Subset.refl _) (fun p hp => Or.inl hp)
    (fun j _ => Iff.rfl) hholder ((hs.explains.answer hstands.2).later (Nat.le_succ _)) trivial ?_ ?_
  · intro k' _ hne
    rw [hi] at hne
    exact List.getElem?_modify_ne _ _ fun h => hne (congrArg some h)
  · exact fun j k y p hj => hs.during j k y p ((hinside j k y p).mp hj)
  · exact fun hnone => hs.free fun j k y p hj => hnone j k y p ((hinside j k y p).mpr hj)

theorem step_inv (hC : Correct M spec allowed During rank) {a : Action N ι ε}
    (hs : ∃ base points, Inv spec During init s base points) (hok : Allowed allowed s a)
    (h : step M s a = some t) : ∃ base points, Inv spec During init t base points := by
  obtain ⟨base, points, hs⟩ := hs
  cases step_effect h with
  | call hi => exact ⟨base, points, hs.call _ hi⟩
  | lock hi hm => exact ⟨base, points, hs.lock hC hi hm⟩
  | next hi hb => exact ⟨base, points, hs.next hC hi (hok _ _ _ hi) hb⟩
  | last hi hb => exact ⟨_, _, hs.last hC hi (hok _ _ _ hi) hb⟩
  | unlock hi => exact ⟨base, points, hs.unlock hi⟩
  | ret hi => exact ⟨base, points, hs.ret hi⟩

theorem Correct.run_inv (hC : Correct M spec allowed During rank) {as : List (Action N ι ε)}
    (hc : Conforms (step M) (Allowed allowed) (initial init) as)
    (hr : run (step M) (initial init) as = some s) :
    ∃ base points, Inv spec During init s base points :=
  conforming_invariant (I := fun s => ∃ base points, Inv spec During init s base points)
    (fun _ _ _ => step_inv hC) ⟨init, [], initial_inv spec During init⟩ hc hr

end Steps

-- A loop over a list, some of whose elements it erases, has `kept` behind it and `rest` before it.
variable {α : Type*} {entries kept rest : List α} {position : ℕ}

theorem exists_rest {e : α} (hentries : entries = kept ++ rest) (hkept : kept.length = position)
    (h : entries[position]? = some e) : ∃ rest', rest = e :: rest' := by
  rw [hentries, List.getElem?_append_right (Nat.le_of_eq hkept), hkept, Nat.sub_self] at h
  cases rest with
  | nil => cases h
  | cons e' rest' =>
    obtain rfl : e' = e := by simpa using h
    exact ⟨rest', rfl⟩

theorem rest_eq_nil (hentries : entries = kept ++ rest) (hkept : kept.length = position)
    (h : entries[position]? = none) : rest = [] := by
  have hlen := List.getElem?_eq_none_iff.mp h
  rw [hentries, List.length_append] at hlen
  exact List.length_eq_zero_iff.mp (by omega)

theorem eraseIdx_kept {e : α} (hkept : kept.length = position) :
    (kept ++ e :: rest).eraseIdx position = kept ++ rest := by
  rw [← hkept, List.eraseIdx_append_of_length_le (Nat.le_refl _), Nat.sub_self]
  rfl

end Czrpc.Monitor
