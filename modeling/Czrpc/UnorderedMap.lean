import Mathlib.Data.List.Nodup
import Mathlib.Tactic.Common

/-! The table class `threadsafe_unordered_map`. Every method holds the table's
mutex from its first to its last access, so each one is a single atomic
operation here. The list order stands for the iteration order of the hash map,
about which nothing is assumed. -/
namespace Czrpc

/-- A hash map: its entries in iteration order, with no key twice. -/
structure UnorderedMap (K V : Type*) where
  entries : List (K × V)
  nodup : (entries.map Prod.fst).Nodup
  deriving DecidableEq

namespace UnorderedMap
variable {K V σ : Type*}

def empty : UnorderedMap K V := ⟨[], List.nodup_nil⟩

def restrict (m : UnorderedMap K V) (keep : K × V → Bool) : UnorderedMap K V :=
  ⟨m.entries.filter keep, (List.filter_sublist.map Prod.fst).nodup m.nodup⟩

def clear (_ : UnorderedMap K V) : UnorderedMap K V := empty

/-- The loop of `for_each_erase` from one iterator position on. The callback may
act on the rest of the program, whose state `s` is threaded through the calls. -/
def forEachEraseLoop (func : K → V → σ → Bool × σ) : List (K × V) → σ → List (K × V) × σ
  | [], s => ([], s)
  | (k, v) :: rest, s =>
      let (erased, s') := func k v s
      let (kept, s'') := forEachEraseLoop func rest s'
      (if erased then kept else (k, v) :: kept, s'')

theorem forEachEraseLoop_sublist (func : K → V → σ → Bool × σ) (es : List (K × V)) (s : σ) :
    (forEachEraseLoop func es s).1.Sublist es := by
  induction es generalizing s with
  | nil => exact List.Sublist.refl _
  | cons e es ih =>
    obtain ⟨k, v⟩ := e
    simp only [forEachEraseLoop]
    split
    · exact (ih _).cons _
    · exact (ih _).cons_cons _

def forEachErase (m : UnorderedMap K V) (func : K → V → σ → Bool × σ) (s : σ) :
    UnorderedMap K V × σ :=
  (⟨(forEachEraseLoop func m.entries s).1,
    ((forEachEraseLoop_sublist func m.entries s).map Prod.fst).nodup m.nodup⟩,
    (forEachEraseLoop func m.entries s).2)

def keys (m : UnorderedMap K V) : List K := m.entries.map Prod.fst

@[simp] theorem mem_clear (m : UnorderedMap K V) (e : K × V) : e ∉ m.clear.entries := by
  simp [clear, empty]

/-- For a callback that decides by `p` alone and logs what it erases, the loop
erases exactly the entries satisfying `p` and logs each of them once, in order. -/
theorem forEachErase_log {β : Type*} (m : UnorderedMap K V) (p : K → V → Bool) (log : K → V → β)
    (s : List β) :
    m.forEachErase (fun k v acc => if p k v then (true, acc ++ [log k v]) else (false, acc)) s =
      (m.restrict (fun e => !p e.1 e.2),
        s ++ (m.entries.filter fun e => p e.1 e.2).map fun e => log e.1 e.2) := by
  have hloop : ∀ (es : List (K × V)) (s : List β),
      forEachEraseLoop (fun k v acc => if p k v then (true, acc ++ [log k v]) else (false, acc)) es s =
        (es.filter (fun e => !p e.1 e.2),
          s ++ (es.filter fun e => p e.1 e.2).map fun e => log e.1 e.2) := by
    intro es
    induction es with
    | nil => intro s; simp [forEachEraseLoop]
    | cons e es ih =>
      intro s
      obtain ⟨k, v⟩ := e
      by_cases hp : p k v = true <;> simp [forEachEraseLoop, hp, ih]
  simp [forEachErase, restrict, hloop]

variable [DecidableEq K]

def find (m : UnorderedMap K V) (key : K) : Option V := m.entries.lookup key

def contains (m : UnorderedMap K V) (key : K) : Bool := (m.find key).isSome

def erase (m : UnorderedMap K V) (key : K) : UnorderedMap K V := m.restrict fun e => e.1 ≠ key

/-- `emplace` leaves an entry that is already there as it is. -/
def emplace (m : UnorderedMap K V) (key : K) (value : V) : UnorderedMap K V :=
  if h : key ∈ m.entries.map Prod.fst then m
  else ⟨m.entries ++ [(key, value)], by
    rw [List.map_append, List.map_singleton]
    exact m.nodup.append (List.nodup_singleton _) (List.disjoint_singleton.mpr h)⟩

/-- `replace` overwrites an entry in place; the flag tells whether there was one. -/
def replace (m : UnorderedMap K V) (key : K) (value : V) : UnorderedMap K V × Bool :=
  if m.contains key then
    (⟨m.entries.map fun e => if e.1 = key then (e.1, value) else e, by
      have hf : (fun e : K × V => (if e.1 = key then (e.1, value) else e).1) = Prod.fst := by
        funext e
        split <;> rfl
      simpa [Function.comp_def, hf] using m.nodup⟩, true)
  else (m.emplace key value, false)

theorem find_eq_some_iff (m : UnorderedMap K V) (key : K) (value : V) :
    m.find key = some value ↔ (key, value) ∈ m.entries := by
  obtain ⟨es, hn⟩ := m
  simp only [find]
  induction es with
  | nil => simp
  | cons e es ih =>
    obtain ⟨k, v⟩ := e
    simp only [List.map_cons, List.nodup_cons, List.mem_map, Prod.exists, exists_and_right,
      exists_eq_right, not_exists] at hn
    by_cases hk : key = k
    · subst key
      simp only [List.lookup_cons_self, Option.some.injEq, List.mem_cons, Prod.mk.injEq, true_and]
      constructor
      · exact fun h => Or.inl h.symm
      · rintro (h | h)
        · exact h.symm
        · exact absurd h (hn.1 value)
    · have hb : (key == k) = false := by simpa using hk
      simp [List.lookup_cons, hb, hk, ih hn.2]

theorem contains_iff (m : UnorderedMap K V) (key : K) :
    m.contains key = true ↔ ∃ value, (key, value) ∈ m.entries := by
  simp [contains, Option.isSome_iff_exists, find_eq_some_iff]

theorem mem_keys_iff (m : UnorderedMap K V) (key : K) : key ∈ m.keys ↔ m.contains key = true := by
  simp [keys, contains_iff]

@[simp] theorem mem_erase (m : UnorderedMap K V) (key : K) (e : K × V) :
    e ∈ (m.erase key).entries ↔ e ∈ m.entries ∧ e.1 ≠ key := by
  simp [erase, restrict, List.mem_filter]

theorem mem_emplace (m : UnorderedMap K V) (key : K) (value : V) (e : K × V) :
    e ∈ (m.emplace key value).entries ↔
      e ∈ m.entries ∨ (m.contains key = false ∧ e = (key, value)) := by
  have hc : key ∈ m.entries.map Prod.fst ↔ m.contains key = true := mem_keys_iff m key
  unfold emplace
  split_ifs with h
  · simp [hc.mp h]
  · have hf : m.contains key = false := by simpa [hc] using h
    simp [hf]

theorem find_emplace_self {m : UnorderedMap K V} {key : K} (h : m.contains key = false) (value : V) :
    (m.emplace key value).find key = some value :=
  (find_eq_some_iff _ _ _).mpr ((mem_emplace _ _ _ _).mpr (Or.inr ⟨h, rfl⟩))

@[simp] theorem contains_emplace (m : UnorderedMap K V) (key j : K) (value : V) :
    (m.emplace key value).contains j = (m.contains j || decide (j = key)) := by
  apply Bool.eq_iff_iff.mpr
  simp only [contains_iff, mem_emplace, Bool.or_eq_true, decide_eq_true_eq, Prod.mk.injEq]
  constructor
  · rintro ⟨v, h | ⟨-, rfl, -⟩⟩
    · exact Or.inl ⟨v, h⟩
    · exact Or.inr rfl
  · rintro (⟨v, h⟩ | rfl)
    · exact ⟨v, Or.inl h⟩
    · cases hc : m.contains j with
      | true =>
        obtain ⟨v, hv⟩ := (contains_iff m j).mp hc
        exact ⟨v, Or.inl hv⟩
      | false => exact ⟨value, Or.inr ⟨rfl, rfl, rfl⟩⟩

theorem mem_replace (m : UnorderedMap K V) (key : K) (value : V) (e : K × V) :
    e ∈ (m.replace key value).1.entries ↔ e = (key, value) ∨ (e ∈ m.entries ∧ e.1 ≠ key) := by
  unfold replace
  split_ifs with h
  · obtain ⟨old, hold⟩ := (contains_iff m key).mp h
    simp only [List.mem_map]
    constructor
    · rintro ⟨e', he', rfl⟩
      split_ifs with hk
      · exact Or.inl (by rw [hk])
      · exact Or.inr ⟨he', hk⟩
    · rintro (rfl | ⟨he, hk⟩)
      · exact ⟨(key, old), hold, if_pos rfl⟩
      · exact ⟨e, he, if_neg hk⟩
  · have hf : m.contains key = false := by simpa using h
    have hne : ∀ e ∈ m.entries, e.1 ≠ key := by
      rintro ⟨k, v⟩ he rfl
      exact h ((contains_iff m k).mpr ⟨v, he⟩)
    rw [mem_emplace]
    constructor
    · rintro (he | ⟨-, he⟩)
      · exact Or.inr ⟨he, hne e he⟩
      · exact Or.inl he
    · rintro (he | ⟨he, -⟩)
      · exact Or.inr ⟨hf, he⟩
      · exact Or.inl he

theorem find_replace (m : UnorderedMap K V) (key j : K) (value : V) :
    (m.replace key value).1.find j = if key = j then some value else m.find j := by
  refine Option.ext fun v => ?_
  rw [find_eq_some_iff, mem_replace]
  split_ifs with h
  · subst j
    simp [eq_comm]
  · simp [find_eq_some_iff, Ne.symm h]

theorem find_erase (m : UnorderedMap K V) (key j : K) :
    (m.erase key).find j = if key = j then none else m.find j := by
  refine Option.ext fun v => ?_
  rw [find_eq_some_iff, mem_erase]
  split_ifs with h
  · simp [h]
  · simp [find_eq_some_iff, Ne.symm h]

@[simp] theorem contains_replace (m : UnorderedMap K V) (key j : K) (value : V) :
    (m.replace key value).1.contains j = (m.contains j || decide (j = key)) := by
  rw [contains, find_replace]
  split_ifs with h
  · simp [h]
  · simp [contains, Ne.symm h]

@[simp] theorem contains_erase (m : UnorderedMap K V) (key j : K) :
    (m.erase key).contains j = (m.contains j && decide (j ≠ key)) := by
  rw [contains, find_erase]
  split_ifs with h
  · simp [h]
  · simp [contains, Ne.symm h]

theorem keys_perm_of_find {m n : UnorderedMap K V} (h : ∀ key, m.find key = n.find key) :
    m.keys.Perm n.keys := by
  refine (List.perm_ext_iff_of_nodup m.nodup n.nodup).mpr fun key => ?_
  have hm := mem_keys_iff m key
  rw [contains, h key] at hm
  exact hm.trans (mem_keys_iff n key).symm

end UnorderedMap
end Czrpc
