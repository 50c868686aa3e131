import Czrpc.MonitorProgress
import Czrpc.TopicManager

/-! The class `topic_manager` as the worker threads, the io threads and the publishers use it at
once. A method goes through the table entry by entry, and asks each weak pointer, when it comes to
it, for the connection it was made from. Connections may expire meanwhile; the caller of a method
holds a pointer to the one it asks about, so that one does not. -/
namespace Czrpc.TopicHistory
open Execution Framing Monitor Linearizability

variable {C : Type*}

inductive Method (C : Type*)
  | addTopic (topicName : Bytes) (conn : C)
  | removeTopic (topicName : Bytes) (conn : C)
  | getConnectionByTopic (topicName : Bytes)
  | removeAllTopic (conn : C)
  deriving DecidableEq, Repr

inductive Result (C : Type*)
  | unit
  | conns (connList : List C)
  deriving DecidableEq, Repr

/-- Where a thread stands between two accesses. A position is the number of entries before the
iterator, which passes over entries of other topics where `equal_range` leaves them out. The loops
of `remove_topic` and `remove_all_topic` differ in the topics they are about. -/
inductive Place (C : Type*)
  | begin (x : Method C)
  | addLoop (topicName : Bytes) (conn : C) (position : ℕ)
  | eraseLoop (topicName : Option Bytes) (conn : C) (position : ℕ)
  | getLoop (topicName : Bytes) (position : ℕ) (connList : List C)
  deriving DecidableEq, Repr

/-- The connection is alive while the method asks about it. -/
def HeldByCaller (x : Method C) (alive : C → Bool) : Prop :=
  match x with
  | .addTopic _ conn | .removeTopic _ conn | .removeAllTopic conn => alive conn = true
  | .getConnectionByTopic _ => True

instance (x : Method C) (alive : C → Bool) : Decidable (HeldByCaller x alive) :=
  match x with
  | .addTopic _ conn | .removeTopic _ conn | .removeAllTopic conn =>
    inferInstanceAs (Decidable (alive conn = true))
  | .getConnectionByTopic _ => .isTrue trivial

def IsErasing (x : Method C) (topicName : Option Bytes) (conn : C) : Prop :=
  match x with
  | .removeTopic t c => topicName = some t ∧ conn = c
  | .removeAllTopic c => topicName = none ∧ conn = c
  | _ => False

theorem held_of_erasing {x : Method C} {topicName : Option Bytes} {conn : C} {alive : C → Bool}
    (hx : IsErasing x topicName conn) (h : HeldByCaller x alive) : alive conn = true := by
  cases x with
  | addTopic | getConnectionByTopic => exact hx.elim
  | removeTopic t c =>
    obtain ⟨-, rfl⟩ := hx
    exact h
  | removeAllTopic c =>
    obtain ⟨-, rfl⟩ := hx
    exact h

variable [DecidableEq C]

def isMeant (alive : C → Bool) (topicName : Option Bytes) (conn : C) (e : Bytes × C) : Bool :=
  (topicName.isNone || topicName = some e.1) && TopicManager.lock alive e.2 = some conn

def body (alive : C → Bool) (p : Place C) (tm : TopicManager C) :
    TopicManager C × (Place C ⊕ Result C) :=
  match p with
  | .begin (.addTopic topicName conn) => (tm, .inl (.addLoop topicName conn 0))
  | .begin (.removeTopic topicName conn) => (tm, .inl (.eraseLoop (some topicName) conn 0))
  | .begin (.getConnectionByTopic topicName) => (tm, .inl (.getLoop topicName 0 []))
  | .begin (.removeAllTopic conn) => (tm, .inl (.eraseLoop none conn 0))
  | .addLoop topicName conn position =>
    match tm.topicMap[position]? with
    | some e =>
      if e.1 = topicName ∧ TopicManager.lock alive e.2 = some conn then (tm, .inr .unit)
      else (tm, .inl (.addLoop topicName conn (position + 1)))
    | none => (⟨tm.topicMap ++ [(topicName, conn)]⟩, .inr .unit)
  | .eraseLoop topicName conn position =>
    match tm.topicMap[position]? with
    | some e =>
      if isMeant alive topicName conn e then
        (⟨tm.topicMap.eraseIdx position⟩, .inl (.eraseLoop topicName conn position))
      else (tm, .inl (.eraseLoop topicName conn (position + 1)))
    | none => (tm, .inr .unit)
  | .getLoop topicName position connList =>
    match tm.topicMap[position]? with
    | some e =>
      if e.1 = topicName then (tm, .inl (.getLoop topicName (position + 1) (connList ++ [e.2])))
      else (tm, .inl (.getLoop topicName (position + 1) connList))
    | none => (tm, .inr (.conns connList))

def methods : Methods (TopicManager C) (Method C) (Result C) (Place C) (C → Bool) := ⟨.begin, body⟩

/-- The methods as single operations on the table, done while `alive` are the connections that have
not expired. -/
def apply (alive : C → Bool) (tm : TopicManager C) : Method C → TopicManager C × Result C
  | .addTopic topicName conn => (tm.addTopic alive topicName conn, .unit)
  | .removeTopic topicName conn => (tm.removeTopic alive topicName conn, .unit)
  | .getConnectionByTopic topicName => (tm, .conns (tm.getConnectionByTopic topicName))
  | .removeAllTopic conn => (tm.removeAllTopic alive conn, .unit)

theorem apply_alive {alive alive' : C → Bool} {x : Method C} (h : HeldByCaller x alive)
    (h' : HeldByCaller x alive') (tm : TopicManager C) : apply alive tm x = apply alive' tm x := by
  cases x with
  | addTopic topicName conn =>
    simp only [apply, TopicManager.addTopic, TopicManager.lock_eq_some_iff h,
      TopicManager.lock_eq_some_iff h']
  | removeTopic topicName conn =>
    simp only [apply, TopicManager.removeTopic, TopicManager.lock_eq_some_iff h,
      TopicManager.lock_eq_some_iff h']
  | getConnectionByTopic topicName => rfl
  | removeAllTopic conn =>
    simp only [apply, TopicManager.removeAllTopic, TopicManager.lock_eq_some_iff h,
      TopicManager.lock_eq_some_iff h']

def allAlive (_ : C) : Bool := true

def During (x : Method C) (s : TopicManager C) (p : Place C) (u : TopicManager C) : Prop :=
  match p with
  | .begin x' => x' = x ∧ u = s
  | .addLoop topicName conn position => x = .addTopic topicName conn ∧ u = s ∧
      ∀ e ∈ s.topicMap.take position, e ≠ (topicName, conn)
  | .eraseLoop topicName conn position => IsErasing x topicName conn ∧ ∃ kept rest,
      u.topicMap = kept ++ rest ∧ kept.length = position ∧
      s.topicMap.filter (fun e => !isMeant allAlive topicName conn e) =
        kept ++ rest.filter fun e => !isMeant allAlive topicName conn e
  | .getLoop topicName position connList => x = .getConnectionByTopic topicName ∧ u = s ∧
      s.getConnectionByTopic topicName =
        connList ++ TopicManager.getConnectionByTopic ⟨s.topicMap.drop position⟩ topicName

def rank (p : Place C) (u : TopicManager C) : ℕ :=
  match p with
  | .begin _ => u.topicMap.length + 1
  | .addLoop _ _ position | .eraseLoop _ _ position | .getLoop _ position _ =>
    u.topicMap.length - position

theorem isMeant_alive {alive : C → Bool} {conn : C} (h : alive conn = true)
    (topicName : Option Bytes) (e : Bytes × C) :
    isMeant alive topicName conn e = isMeant allAlive topicName conn e := by
  simp only [isMeant, TopicManager.lock_eq_some_iff h,
    TopicManager.lock_eq_some_iff (show allAlive conn = true from rfl)]

theorem addTopic_eq (tm : TopicManager C) (t : Bytes) (c : C) : tm.addTopic allAlive t c =
    if (t, c) ∈ tm.topicMap then tm else ⟨tm.topicMap ++ [(t, c)]⟩ := by
  have hany : (tm.topicMap.any fun e => e.1 = t && TopicManager.lock allAlive e.2 = some c) = true ↔
      (t, c) ∈ tm.topicMap := by
    simp [TopicManager.lock_eq_some_iff (show allAlive c = true from rfl)]
  simp only [TopicManager.addTopic, hany]

theorem apply_erasing {x : Method C} {topicName : Option Bytes} {conn : C}
    (hx : IsErasing x topicName conn) (s : TopicManager C) : apply allAlive s x =
      (⟨s.topicMap.filter fun e => !isMeant allAlive topicName conn e⟩, .unit) := by
  cases x with
  | addTopic | getConnectionByTopic => exact hx.elim
  | removeTopic t c =>
    obtain ⟨rfl, rfl⟩ := hx
    simp only [apply, TopicManager.removeTopic, isMeant]
    congr 3
    funext e
    simp [eq_comm]
  | removeAllTopic c =>
    obtain ⟨rfl, rfl⟩ := hx
    rfl

theorem body_next {x : Method C} {s u u' : TopicManager C} {p p' : Place C} {alive : C → Bool}
    (hd : During x s p u) (halive : HeldByCaller x alive) (hb : body alive p u = (u', .inl p')) :
    During x s p' u' ∧ rank p' u' < rank p u := by
  cases p with
  | begin x' =>
    obtain ⟨rfl, rfl⟩ := hd
    cases x' with
    | addTopic t c =>
      cases hb
      exact ⟨⟨rfl, rfl, by simp⟩, by simp [rank]⟩
    | removeTopic t c =>
      cases hb
      exact ⟨⟨⟨rfl, rfl⟩, [], _, rfl, rfl, rfl⟩, by simp [rank]⟩
    | getConnectionByTopic t =>
      cases hb
      exact ⟨⟨rfl, rfl, rfl⟩, by simp [rank]⟩
    | removeAllTopic c =>
      cases hb
      exact ⟨⟨⟨rfl, rfl⟩, [], _, rfl, rfl, rfl⟩, by simp [rank]⟩
  | addLoop t c position =>
    obtain ⟨rfl, rfl, hnone⟩ := hd
    simp only [body] at hb
    split at hb
    · rename_i e hget
      obtain ⟨hlt, he⟩ := List.getElem?_eq_some_iff.mp hget
      split_ifs at hb with hfound
      · cases hb
      · cases hb
        refine ⟨⟨rfl, rfl, ?_⟩, by simp only [rank]; omega⟩
        intro e' he'
        rw [List.take_add_one, hget] at he'
        rcases List.mem_append.mp he' with he' | he'
        · exact hnone e' he'
        · obtain rfl : e' = e := by simpa using he'
          rintro rfl
          exact hfound ⟨rfl, (TopicManager.lock_eq_some_iff halive _).mpr rfl⟩
    · cases hb
  | eraseLoop t c position =>
    obtain ⟨hx, kept, rest, hentries, hkept, hfilter⟩ := hd
    have hheld := held_of_erasing hx halive
    simp only [body] at hb
    split at hb
    · rename_i e hget
      have hlt := (List.getElem?_eq_some_iff.mp hget).1
      obtain ⟨rest', rfl⟩ := exists_rest hentries hkept hget
      rw [isMeant_alive hheld] at hb
      split_ifs at hb with hmeant
      · cases hb
        refine ⟨⟨hx, kept, rest', ?_, hkept, ?_⟩, ?_⟩
        · simp only [hentries, eraseIdx_kept hkept]
        · simpa [hmeant] using hfilter
        · simp only [rank, List.length_eraseIdx_of_lt hlt]
          omega
      · cases hb
        refine ⟨⟨hx, kept ++ [e], rest', ?_, ?_, ?_⟩, by simp only [rank]; omega⟩
        · rw [hentries, List.append_assoc, List.singleton_append]
        · rw [List.length_append, List.length_singleton, hkept]
        · simpa [hmeant] using hfilter
    · cases hb
  | getLoop t position connList =>
    obtain ⟨rfl, rfl, hrest⟩ := hd
    simp only [body] at hb
    split at hb
    · rename_i e hget
      obtain ⟨hlt, he⟩ := List.getElem?_eq_some_iff.mp hget
      rw [List.drop_eq_getElem_cons hlt, he] at hrest
      split_ifs at hb with htopic
      · cases hb
        refine ⟨⟨rfl, rfl, ?_⟩, by simp only [rank]; omega⟩
        simpa [TopicManager.getConnectionByTopic, htopic] using hrest
      · cases hb
        refine ⟨⟨rfl, rfl, ?_⟩, by simp only [rank]; omega⟩
        simpa [TopicManager.getConnectionByTopic, htopic] using hrest
    · cases hb

theorem body_last {x : Method C} {s u u' : TopicManager C} {p : Place C} {alive : C → Bool}
    {y : Result C} (hd : During x s p u) (halive : HeldByCaller x alive)
    (hb : body alive p u = (u', .inr y)) : apply allAlive s x = (u', y) := by
  cases p with
  | begin x' => cases x' <;> cases hb
  | addLoop t c position =>
    obtain ⟨rfl, rfl, hnone⟩ := hd
    simp only [body] at hb
    simp only [apply, addTopic_eq]
    split at hb
    · rename_i e hget
      split_ifs at hb with hfound
      · cases hb
        obtain ⟨rfl, hlock⟩ := hfound
        obtain rfl := (TopicManager.lock_eq_some_iff halive _).mp hlock
        rw [if_pos (List.mem_of_getElem? hget)]
      · cases hb
    · rename_i hend
      cases hb
      rw [List.take_of_length_le (List.getElem?_eq_none_iff.mp hend)] at hnone
      rw [if_neg fun hmem => hnone _ hmem rfl]
  | eraseLoop t c position =>
    obtain ⟨hx, kept, rest, hentries, hkept, hfilter⟩ := hd
    simp only [body] at hb
    split at hb
    · split_ifs at hb <;> cases hb
    · rename_i hend
      cases hb
      obtain rfl : rest = [] := rest_eq_nil hentries hkept hend
      rw [apply_erasing hx, hfilter, List.filter_nil, ← hentries]
  | getLoop t position connList =>
    obtain ⟨rfl, rfl, hrest⟩ := hd
    simp only [body] at hb
    split at hb
    · split_ifs at hb <;> cases hb
    · rename_i hend
      cases hb
      rw [List.drop_eq_nil_of_le (List.getElem?_eq_none_iff.mp hend)] at hrest
      simp only [apply, hrest]
      simp [TopicManager.getConnectionByTopic]

theorem correct : Correct (methods : Methods (TopicManager C) (Method C) _ _ _) (apply allAlive)
    HeldByCaller During rank where
  enter _ _ := ⟨rfl, rfl⟩
  next hd halive hb := body_next hd halive hb
  last hd halive hb := body_last hd halive hb

def removedAmongOthers : List (Action 2 (Method ℕ) (ℕ → Bool)) :=
  let i : Fin 2 := ⟨0, Nat.two_pos⟩
  let j : Fin 2 := ⟨1, Nat.one_lt_two⟩
  [.call i (.removeAllTopic 4), .lock i, .access i fun _ => true, .access i fun _ => true,
    .call j (.getConnectionByTopic [116]), .access i fun c => c = 4, .access i fun c => c = 4,
    .unlock i, .ret i, .lock j, .access j fun _ => false, .access j fun _ => false,
    .access j fun _ => false, .unlock j, .ret j]

def twoSubscribers : TopicManager ℕ := ⟨[([116], 3), ([116], 4)]⟩

end Czrpc.TopicHistory
