import Mathlib.Data.List.Nodup
import Mathlib.Tactic.Common

/-! Operations of many callers on one object, and what it means that they look as if they had
been done one after another. Each operation that has an effect has it at one moment, its
point; the rules below build, event by event, the order of the points along a run. -/
namespace Czrpc.Linearizability
variable {σ ι ρ : Type*}

/-- What an operation was called with and when, and once it has returned, its result and when
it did. -/
structure Operation (ι ρ : Type*) where
  input : ι
  invoked : ℕ
  returned : Option (ρ × ℕ)
  deriving DecidableEq, Repr

def Operation.finish (a : Operation ι ρ) (y : ρ) (t : ℕ) : Operation ι ρ :=
  { a with returned := some (y, t) }

/-- The moment at which the operation number `op` has its effect. -/
structure Point (ι ρ : Type*) where
  op : ℕ
  input : ι
  output : ρ
  time : ℕ
  deriving DecidableEq, Repr

def execute (spec : σ → ι → σ × ρ) : σ → List ι → σ × List ρ
  | s, [] => (s, [])
  | s, x :: xs => ((execute spec (spec s x).1 xs).1, (spec s x).2 :: (execute spec (spec s x).1 xs).2)

theorem execute_concat (spec : σ → ι → σ × ρ) (s : σ) (xs : List ι) (x : ι) :
    execute spec s (xs ++ [x]) =
      ((spec (execute spec s xs).1 x).1, (execute spec s xs).2 ++ [(spec (execute spec s xs).1 x).2]) := by
  induction xs generalizing s with
  | nil => rfl
  | cons y ys ih => simp only [List.cons_append, execute, ih]

/-- The operation `j` had returned when `k` was invoked. -/
def Before (ops : List (Operation ι ρ)) (j k : ℕ) : Prop :=
  ∃ a b y t, ops[j]? = some a ∧ ops[k]? = some b ∧ a.returned = some (y, t) ∧ t < b.invoked

/-- There is an order of all the operations that have returned, and of some of the others,
in which the object gives each of them its result, and which puts none before one that had
returned when it was invoked. -/
def Linearizable (spec : σ → ι → σ × ρ) (s : σ) (ops : List (Operation ι ρ)) : Prop :=
  ∃ order : List (ℕ × ι × ρ),
    (order.map Prod.fst).Nodup ∧
    (∀ e ∈ order, ∃ a, ops[e.1]? = some a ∧ a.input = e.2.1) ∧
    (∀ k a y t, ops[k]? = some a → a.returned = some (y, t) → (k, a.input, y) ∈ order) ∧
    (execute spec s (order.map fun e => e.2.1)).2 = order.map (fun e => e.2.2) ∧
    order.Pairwise fun e f => ¬ Before ops f.1 e.1

/-- The points explain what has been invoked and returned up to the moment `now`: they have
taken the object from `init` to `s`. -/
structure Explains (spec : σ → ι → σ × ρ) (init s : σ) (now : ℕ) (ops : List (Operation ι ρ))
    (points : List (Point ι ρ)) : Prop where
  once : (points.map Point.op).Nodup
  sorted : points.Pairwise fun p q => p.time < q.time
  past : ∀ p ∈ points, p.time < now
  inside : ∀ p ∈ points, ∃ a, ops[p.op]? = some a ∧ a.input = p.input ∧ a.invoked < p.time ∧
    ∀ y t, a.returned = some (y, t) → p.time < t
  complete : ∀ k a y t, ops[k]? = some a → a.returned = some (y, t) →
    ∃ p ∈ points, p.op = k ∧ p.output = y
  effect : execute spec init (points.map Point.input) = (s, points.map Point.output)

variable {spec : σ → ι → σ × ρ} {init s : σ} {now : ℕ} {ops : List (Operation ι ρ)}
  {points : List (Point ι ρ)}

theorem explains_nil (spec : σ → ι → σ × ρ) (init : σ) (now : ℕ) :
    Explains spec init init now ([] : List (Operation ι ρ)) [] where
  once := List.nodup_nil
  sorted := .nil
  past := by simp
  inside := by simp
  complete := by simp
  effect := rfl

namespace Explains

theorem later (h : Explains spec init s now ops points) {now' : ℕ} (hn : now ≤ now') :
    Explains spec init s now' ops points :=
  { h with past := fun p hp => Nat.lt_of_lt_of_le (h.past p hp) hn }

theorem invoke (h : Explains spec init s now ops points) (x : ι) (time : ℕ) :
    Explains spec init s now (ops ++ [⟨x, time, none⟩]) points := by
  refine { h with inside := ?_, complete := ?_ }
  · intro p hp
    obtain ⟨a, ha, hrest⟩ := h.inside p hp
    refine ⟨a, ?_, hrest⟩
    rw [List.getElem?_append_left (List.getElem?_eq_some_iff.mp ha).1, ha]
  · intro k a y t ha hy
    rcases Nat.lt_trichotomy k ops.length with hk | rfl | hk
    · rw [List.getElem?_append_left hk] at ha
      exact h.complete k a y t ha hy
    · rw [List.getElem?_concat_length] at ha
      obtain rfl := Option.some.inj ha
      cases hy
    · have hlen : (ops ++ [(⟨x, time, none⟩ : Operation ι ρ)]).length ≤ k := by
        rw [List.length_append, List.length_singleton]
        exact hk
      rw [List.getElem?_eq_none hlen] at ha
      cases ha

theorem act (h : Explains spec init s now ops points) {k : ℕ} {a : Operation ι ρ}
    (ha : ops[k]? = some a) (hinv : a.invoked < now) (hret : a.returned = none)
    (hk : ∀ p ∈ points, p.op ≠ k) :
    Explains spec init (spec s a.input).1 (now + 1) ops
      (points ++ [⟨k, a.input, (spec s a.input).2, now⟩]) where
  once := by
    rw [List.map_append, List.map_singleton]
    refine List.nodup_append.mpr ⟨h.once, List.nodup_singleton k, ?_⟩
    intro j hj l hl
    obtain ⟨p, hp, rfl⟩ := List.mem_map.mp hj
    obtain rfl := List.mem_singleton.mp hl
    exact hk p hp
  sorted := by
    refine List.pairwise_append.mpr ⟨h.sorted, List.pairwise_singleton _ _, ?_⟩
    intro p hp q hq
    obtain rfl := List.mem_singleton.mp hq
    exact h.past p hp
  past := by
    intro p hp
    rcases List.mem_append.mp hp with hp | hp
    · exact Nat.lt_succ_of_lt (h.past p hp)
    · obtain rfl := List.mem_singleton.mp hp
      exact Nat.lt_succ_self now
  inside := by
    intro p hp
    rcases List.mem_append.mp hp with hp | hp
    · exact h.inside p hp
    · obtain rfl := List.mem_singleton.mp hp
      refine ⟨a, ha, rfl, hinv, ?_⟩
      intro y t hy
      rw [hret] at hy
      cases hy
  complete := by
    intro j b y t hb hy
    obtain ⟨p, hp, hrest⟩ := h.complete j b y t hb hy
    exact ⟨p, List.mem_append_left _ hp, hrest⟩
  effect := by
    rw [List.map_append, List.map_append, List.map_singleton, List.map_singleton, execute_concat,
      h.effect]

theorem answer (h : Explains spec init s now ops points) {k : ℕ} {y : ρ}
    (hp : ∃ p ∈ points, p.op = k ∧ p.output = y) :
    Explains spec init s now (ops.modify k (·.finish y now)) points := by
  refine { h with inside := ?_, complete := ?_ }
  · intro p hpoint
    obtain ⟨b, hb, hin, hinv, hret⟩ := h.inside p hpoint
    by_cases hj : k = p.op
    · refine ⟨b.finish y now, ?_, hin, hinv, ?_⟩
      · rw [← hj, List.getElem?_modify_eq, hj, hb]
        rfl
      · intro y' t hy
        obtain ⟨-, rfl⟩ := Prod.mk.inj (Option.some.inj hy)
        exact h.past p hpoint
    · exact ⟨b, by rw [List.getElem?_modify_ne _ _ hj, hb], hin, hinv, hret⟩
  · intro j b y' t hb hy
    by_cases hj : k = j
    · subst j
      rw [List.getElem?_modify_eq] at hb
      obtain ⟨a, -, rfl⟩ := Option.map_eq_some_iff.mp hb
      obtain ⟨rfl, -⟩ := Prod.mk.inj (Option.some.inj hy)
      exact hp
    · rw [List.getElem?_modify_ne _ _ hj] at hb
      exact h.complete j b y' t hb hy

theorem not_before (h : Explains spec init s now ops points) {p q : Point ι ρ} (hp : p ∈ points)
    (hq : q ∈ points) (hlt : p.time < q.time) : ¬ Before ops q.op p.op := by
  rintro ⟨a, b, y, t, ha, hb, hy, ht⟩
  obtain ⟨a', ha', -, -, hret⟩ := h.inside q hq
  obtain ⟨b', hb', -, hinv, -⟩ := h.inside p hp
  obtain rfl := Option.some.inj (ha.symm.trans ha')
  obtain rfl := Option.some.inj (hb.symm.trans hb')
  have hbefore := hret y t hy
  omega

/-- The order of the points is the one that is asked for. -/
theorem linearizable (h : Explains spec init s now ops points) : Linearizable spec init ops := by
  refine ⟨points.map fun p => (p.op, p.input, p.output), ?_, ?_, ?_, ?_, ?_⟩
  · rw [List.map_map]
    exact h.once
  · intro e he
    obtain ⟨p, hp, rfl⟩ := List.mem_map.mp he
    obtain ⟨a, ha, hin, -, -⟩ := h.inside p hp
    exact ⟨a, ha, hin⟩
  · intro k a y t ha hy
    obtain ⟨p, hp, rfl, rfl⟩ := h.complete k a y t ha hy
    obtain ⟨b, hb, hin, -, -⟩ := h.inside p hp
    obtain rfl := Option.some.inj (ha.symm.trans hb)
    exact List.mem_map.mpr ⟨p, hp, by rw [hin]⟩
  · rw [List.map_map, List.map_map]
    exact congrArg Prod.snd h.effect
  · rw [List.pairwise_map]
    exact h.sorted.imp_of_mem fun hp hq hlt => h.not_before hp hq hlt

end Explains

end Czrpc.Linearizability
