import Czrpc.MonitorProgress
import Czrpc.UnorderedMap

/-! The class `threadsafe_unordered_map` as many threads use it at once. A method is taken access
by access: the search for an iterator, the look at what it points to, the change, each turn of a
loop with its call of the callback. The rest of the development takes each method for a single
operation on the table; that it may do so is what is shown here. A callback neither calls the table
again, which would wait for a mutex that its own thread has, nor throws. -/
namespace Czrpc.TableHistory
open Execution Monitor Linearizability

variable {K V τ : Type*}

/-- The methods. A callback acts on a state of its own, which the caller finds changed. -/
inductive Method (K V τ : Type*)
  | emplace (key : K) (value : V)
  | replace (key : K) (value : V)
  | erase (key : K)
  | eraseValue (key : K) (value : V)
  | forEach (func : K → V → τ → τ) (start : τ)
  | forEachErase (func : K → V → τ → Bool × τ) (start : τ)
  | find (key : K)
  | contains (key : K)
  | clone
  | clear
  | size

def Method.forEachKey (func : K → τ → τ) (start : τ) : Method K V τ :=
  .forEach (fun key _ => func key) start

def Method.forEachValue (func : V → τ → τ) (start : τ) : Method K V τ :=
  .forEach (fun _ value => func value) start

inductive Result (K V τ : Type*)
  | unit
  | flag (found : Bool)
  | replaced (isUpdate : Bool) (outValue : Option V)
  | found (outValue : Option V)
  | state (last : τ)
  | copy (map : UnorderedMap K V)
  | count (n : ℕ)

/-- Where a thread stands between two accesses. A position in a loop is the number of entries
before the iterator. -/
inductive Place (K V τ : Type*)
  | begin (x : Method K V τ)
  | replaceFound (key : K) (value : V) (iter : Option V)
  | replaceCopied (key : K) (value : V) (outValue : V)
  | eraseFound (key : K) (value : V) (iter : Option V)
  | findFound (key : K) (iter : Option V)
  | containsFound (key : K) (iter : Option V)
  | loop (func : K → V → τ → τ) (position : ℕ) (current : τ)
  | eraseLoop (func : K → V → τ → Bool × τ) (position : ℕ) (current : τ)

def eraseAt (m : UnorderedMap K V) (position : ℕ) : UnorderedMap K V :=
  ⟨m.entries.eraseIdx position, ((List.eraseIdx_sublist _ _).map Prod.fst).nodup m.nodup⟩

def forEach (func : K → V → τ → τ) (entries : List (K × V)) (start : τ) : τ :=
  entries.foldl (fun current e => func e.1 e.2 current) start

theorem eraseAt_entries (m : UnorderedMap K V) (position : ℕ) :
    (eraseAt m position).entries = m.entries.eraseIdx position := rfl

theorem forEach_drop (func : K → V → τ → τ) {entries : List (K × V)} {position : ℕ} {key : K}
    {value : V} (h : entries[position]? = some (key, value)) (current : τ) :
    forEach func (entries.drop position) current =
      forEach func (entries.drop (position + 1)) (func key value current) := by
  obtain ⟨hlt, hget⟩ := List.getElem?_eq_some_iff.mp h
  rw [List.drop_eq_getElem_cons hlt, hget]
  rfl

variable [DecidableEq K] [DecidableEq V]

def body (_ : Unit) (p : Place K V τ) (m : UnorderedMap K V) :
    UnorderedMap K V × (Place K V τ ⊕ Result K V τ) :=
  match p with
  | .begin (.emplace key value) => (m.emplace key value, .inr .unit)
  | .begin (.replace key value) => (m, .inl (.replaceFound key value (m.find key)))
  | .begin (.erase key) => (m.erase key, .inr .unit)
  | .begin (.eraseValue key value) => (m, .inl (.eraseFound key value (m.find key)))
  | .begin (.forEach func start) => (m, .inl (.loop func 0 start))
  | .begin (.forEachErase func start) => (m, .inl (.eraseLoop func 0 start))
  | .begin (.find key) => (m, .inl (.findFound key (m.find key)))
  | .begin (.contains key) => (m, .inl (.containsFound key (m.find key)))
  | .begin .clone => (m, .inr (.copy m))
  | .begin .clear => (m.clear, .inr .unit)
  | .begin .size => (m, .inr (.count m.entries.length))
  | .replaceFound key value none => (m.emplace key value, .inr (.replaced false none))
  | .replaceFound key value (some outValue) => (m, .inl (.replaceCopied key value outValue))
  | .replaceCopied key value outValue =>
    ((m.replace key value).1, .inr (.replaced true (some outValue)))
  | .eraseFound key value iter =>
    if iter = some value then (m.erase key, .inr (.flag true)) else (m, .inr (.flag false))
  | .findFound _ iter => (m, .inr (.found iter))
  | .containsFound _ iter => (m, .inr (.flag iter.isSome))
  | .loop func position current =>
    match m.entries[position]? with
    | some (key, value) => (m, .inl (.loop func (position + 1) (func key value current)))
    | none => (m, .inr (.state current))
  | .eraseLoop func position current =>
    match m.entries[position]? with
    | some (key, value) =>
      if (func key value current).1 then
        (eraseAt m position, .inl (.eraseLoop func position (func key value current).2))
      else (m, .inl (.eraseLoop func (position + 1) (func key value current).2))
    | none => (m, .inr (.state current))

def methods : Methods (UnorderedMap K V) (Method K V τ) (Result K V τ) (Place K V τ) Unit :=
  ⟨.begin, body⟩

/-- The methods as single operations on the table. -/
def apply (m : UnorderedMap K V) : Method K V τ → UnorderedMap K V × Result K V τ
  | .emplace key value => (m.emplace key value, .unit)
  | .replace key value => ((m.replace key value).1, .replaced (m.replace key value).2 (m.find key))
  | .erase key => (m.erase key, .unit)
  | .eraseValue key value =>
    if m.find key = some value then (m.erase key, .flag true) else (m, .flag false)
  | .forEach func start => (m, .state (forEach func m.entries start))
  | .forEachErase func start =>
    ((m.forEachErase func start).1, .state (m.forEachErase func start).2)
  | .find key => (m, .found (m.find key))
  | .contains key => (m, .flag (m.contains key))
  | .clone => (m, .copy m)
  | .clear => (m.clear, .unit)
  | .size => (m, .count m.entries.length)

/-- What a thread knows inside of a method that found the table as `s` and has it as `u`. -/
def During (x : Method K V τ) (s : UnorderedMap K V) (p : Place K V τ) (u : UnorderedMap K V) :
    Prop :=
  match p with
  | .begin x' => x' = x ∧ u = s
  | .replaceFound key value iter => x = .replace key value ∧ iter = s.find key ∧ u = s
  | .replaceCopied key value outValue => x = .replace key value ∧ s.find key = some outValue ∧ u = s
  | .eraseFound key value iter => x = .eraseValue key value ∧ iter = s.find key ∧ u = s
  | .findFound key iter => x = .find key ∧ iter = s.find key ∧ u = s
  | .containsFound key iter => x = .contains key ∧ iter = s.find key ∧ u = s
  | .loop func position current => ∃ start, x = .forEach func start ∧ u = s ∧
      forEach func s.entries start = forEach func (s.entries.drop position) current
  | .eraseLoop func position current => ∃ start kept rest, x = .forEachErase func start ∧
      u.entries = kept ++ rest ∧ kept.length = position ∧
      UnorderedMap.forEachEraseLoop func s.entries start =
        (kept ++ (UnorderedMap.forEachEraseLoop func rest current).1,
          (UnorderedMap.forEachEraseLoop func rest current).2)

def rank (p : Place K V τ) (u : UnorderedMap K V) : ℕ :=
  match p with
  | .begin _ => u.entries.length + 3
  | .replaceFound _ _ _ => 2
  | .replaceCopied _ _ _ | .eraseFound _ _ _ | .findFound _ _ | .containsFound _ _ => 1
  | .loop _ position _ | .eraseLoop _ position _ => u.entries.length - position

theorem body_next {x : Method K V τ} {s u u' : UnorderedMap K V} {p p' : Place K V τ}
    (hd : During x s p u) (hb : body () p u = (u', .inl p')) :
    During x s p' u' ∧ rank p' u' < rank p u := by
  cases p with
  | begin x' =>
    obtain ⟨rfl, rfl⟩ := hd
    cases x' with
    | emplace | erase | clone | clear | size => cases hb
    | replace key value =>
      cases hb
      exact ⟨⟨rfl, rfl, rfl⟩, by simp [rank]⟩
    | eraseValue key value =>
      cases hb
      exact ⟨⟨rfl, rfl, rfl⟩, by simp [rank]⟩
    | find key =>
      cases hb
      exact ⟨⟨rfl, rfl, rfl⟩, by simp [rank]⟩
    | contains key =>
      cases hb
      exact ⟨⟨rfl, rfl, rfl⟩, by simp [rank]⟩
    | forEach func start =>
      cases hb
      exact ⟨⟨start, rfl, rfl, rfl⟩, by simp [rank]⟩
    | forEachErase func start =>
      cases hb
      exact ⟨⟨start, [], _, rfl, rfl, rfl, rfl⟩, by simp [rank]⟩
  | replaceFound key value iter =>
    obtain ⟨rfl, hiter, rfl⟩ := hd
    cases iter with
    | none => cases hb
    | some outValue =>
      cases hb
      exact ⟨⟨rfl, hiter.symm, rfl⟩, by simp [rank]⟩
  | replaceCopied | findFound | containsFound => cases hb
  | eraseFound key value iter =>
    simp only [body] at hb
    split_ifs at hb <;> cases hb
  | loop func position current =>
    obtain ⟨start, rfl, rfl, hrest⟩ := hd
    simp only [body] at hb
    split at hb
    · rename_i key value hget
      cases hb
      have hlt := (List.getElem?_eq_some_iff.mp hget).1
      refine ⟨⟨start, rfl, rfl, hrest.trans (forEach_drop func hget current)⟩, ?_⟩
      simp only [rank]
      omega
    · cases hb
  | eraseLoop func position current =>
    obtain ⟨start, kept, rest, rfl, hentries, hkept, hloop⟩ := hd
    simp only [body] at hb
    split at hb
    · rename_i key value hget
      have hlt := (List.getElem?_eq_some_iff.mp hget).1
      obtain ⟨rest', rfl⟩ := exists_rest hentries hkept hget
      split_ifs at hb with herased
      · cases hb
        refine ⟨⟨start, kept, rest', rfl, ?_, hkept, ?_⟩, ?_⟩
        · rw [eraseAt_entries, hentries, eraseIdx_kept hkept]
        · rw [hloop]
          simp [UnorderedMap.forEachEraseLoop, herased]
        · simp only [rank, eraseAt, List.length_eraseIdx_of_lt hlt]
          omega
      · cases hb
        refine ⟨⟨start, kept ++ [(key, value)], rest', rfl, ?_, ?_, ?_⟩, ?_⟩
        · rw [hentries, List.append_assoc, List.singleton_append]
        · rw [List.length_append, List.length_singleton, hkept]
        · rw [hloop]
          simp [UnorderedMap.forEachEraseLoop, herased]
        · simp only [rank]
          omega
    · cases hb

theorem body_last {x : Method K V τ} {s u u' : UnorderedMap K V} {p : Place K V τ}
    {y : Result K V τ} (hd : During x s p u) (hb : body () p u = (u', .inr y)) :
    apply s x = (u', y) := by
  cases p with
  | begin x' =>
    obtain ⟨rfl, rfl⟩ := hd
    cases x' with
    | emplace | erase | clone | clear | size =>
      cases hb
      rfl
    | replace | eraseValue | find | contains | forEach | forEachErase => cases hb
  | replaceFound key value iter =>
    obtain ⟨rfl, hiter, rfl⟩ := hd
    cases iter with
    | none =>
      cases hb
      simp [apply, UnorderedMap.replace, UnorderedMap.contains, ← hiter]
    | some outValue => cases hb
  | replaceCopied key value outValue =>
    obtain ⟨rfl, hfind, rfl⟩ := hd
    cases hb
    simp [apply, UnorderedMap.replace, UnorderedMap.contains, hfind]
  | eraseFound key value iter =>
    obtain ⟨rfl, rfl, rfl⟩ := hd
    simp only [body] at hb
    simp only [apply]
    split_ifs at hb with hvalue
    · cases hb
      rw [if_pos hvalue]
    · cases hb
      rw [if_neg hvalue]
  | findFound key iter =>
    obtain ⟨rfl, rfl, rfl⟩ := hd
    cases hb
    rfl
  | containsFound key iter =>
    obtain ⟨rfl, rfl, rfl⟩ := hd
    cases hb
    rfl
  | loop func position current =>
    obtain ⟨start, rfl, rfl, hrest⟩ := hd
    simp only [body] at hb
    split at hb
    · cases hb
    · rename_i hnone
      cases hb
      have hnil := List.drop_eq_nil_of_le (List.getElem?_eq_none_iff.mp hnone)
      rw [hnil] at hrest
      simp only [apply, hrest]
      rfl
  | eraseLoop func position current =>
    obtain ⟨start, kept, rest, rfl, hentries, hkept, hloop⟩ := hd
    simp only [body] at hb
    split at hb
    · split_ifs at hb <;> cases hb
    · rename_i hnone
      cases hb
      obtain rfl : rest = [] := rest_eq_nil hentries hkept hnone
      obtain ⟨entries, hnodup⟩ := u
      simp only [List.append_nil] at hentries
      simp [apply, UnorderedMap.forEachErase, UnorderedMap.forEachEraseLoop, hloop, hentries]

theorem correct : Correct (methods : Methods (UnorderedMap K V) (Method K V τ) _ _ _) apply
    (fun _ _ => True) During rank where
  enter _ _ := ⟨rfl, rfl⟩
  next hd _ hb := body_next hd hb
  last hd _ hb := body_last hd hb

def overlapping : List (Action 2 (Method ℕ ℕ ℕ) Unit) :=
  let i : Fin 2 := ⟨0, Nat.two_pos⟩
  let j : Fin 2 := ⟨1, Nat.one_lt_two⟩
  [.call i (.emplace 7 1), .lock i, .access i (), .unlock i, .ret i,
    .call i (.forEachErase (fun _ _ n => (true, n + 1)) 0), .lock i, .access i (),
    .call j (.replace 7 2), .access i (), .access i (), .unlock i, .lock j, .access j (),
    .access j (), .unlock j, .ret j, .ret i]

end Czrpc.TableHistory
