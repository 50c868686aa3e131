import Czrpc.Execution
import Czrpc.TopicManager
import Mathlib.Data.List.Count
import Mathlib.Data.List.Induction
import Mathlib.Data.List.Nodup
import Mathlib.Data.Set.Insert
import Mathlib.Logic.Function.Basic

/-! What `topic_manager` is for: a set of pairs of a topic and a connection. The table is a
multimap of weak pointers, from which entries of expired connections are never taken out;
for the connections that are alive it holds the pairs of the set, once each. -/
namespace Czrpc.TopicSet
open Execution Framing

variable {C : Type*}

inductive Call (C : Type*)
  | addTopic (topicName : Bytes) (conn : C)
  | removeTopic (topicName : Bytes) (conn : C)
  | removeAllTopic (conn : C)
  deriving DecidableEq, Repr

def Call.conn : Call C → C
  | .addTopic _ conn | .removeTopic _ conn | .removeAllTopic conn => conn

def Call.onPairs (pairs : Set (Bytes × C)) : Call C → Set (Bytes × C)
  | .addTopic topicName conn => insert (topicName, conn) pairs
  | .removeTopic topicName conn => pairs \ {(topicName, conn)}
  | .removeAllTopic conn => {p ∈ pairs | p.2 ≠ conn}

def pairs (calls : List (Call C)) : Set (Bytes × C) := calls.foldl Call.onPairs ∅

theorem pairs_append (calls : List (Call C)) (call : Call C) :
    pairs (calls ++ [call]) = call.onPairs (pairs calls) := by
  simp [pairs]

variable [DecidableEq C]

def Call.affects (t : Bytes) (c : C) : Call C → Bool
  | .addTopic topicName conn | .removeTopic topicName conn => topicName = t ∧ conn = c
  | .removeAllTopic conn => conn = c

def lastCall (t : Bytes) (c : C) (calls : List (Call C)) : Option (Call C) :=
  (calls.filter (Call.affects t c)).getLast?

theorem lastCall_append (t : Bytes) (c : C) (calls : List (Call C)) (call : Call C) :
    lastCall t c (calls ++ [call]) =
      if call.affects t c then some call else lastCall t c calls := by
  unfold lastCall
  cases h : call.affects t c <;> simp [h]

theorem Call.mem_onPairs (call : Call C) (ps : Set (Bytes × C)) (t : Bytes) (c : C) :
    (t, c) ∈ call.onPairs ps ↔
      if call.affects t c then call = .addTopic t c else (t, c) ∈ ps := by
  cases call with
  | addTopic topicName conn =>
    by_cases h : topicName = t ∧ conn = c
    · obtain ⟨rfl, rfl⟩ := h
      simp [onPairs, affects]
    · have hne : (t, c) ≠ (topicName, conn) := by
        rintro ⟨⟩
        exact h ⟨rfl, rfl⟩
      simp [onPairs, affects, h, hne]
  | removeTopic topicName conn =>
    by_cases h : topicName = t ∧ conn = c
    · obtain ⟨rfl, rfl⟩ := h
      simp [onPairs, affects]
    · have hne : (t, c) ≠ (topicName, conn) := by
        rintro ⟨⟩
        exact h ⟨rfl, rfl⟩
      simp [onPairs, affects, h, hne]
  | removeAllTopic conn =>
    by_cases h : conn = c
    · simp [onPairs, affects, h]
    · simp [onPairs, affects, h, Ne.symm h]

theorem mem_pairs_iff (calls : List (Call C)) (t : Bytes) (c : C) :
    (t, c) ∈ pairs calls ↔ lastCall t c calls = some (.addTopic t c) := by
  induction calls using List.reverseRecOn with
  | nil => simp [pairs, lastCall]
  | append_singleton calls call ih =>
    rw [pairs_append, Call.mem_onPairs, lastCall_append]
    split_ifs with h
    · simp
    · exact ih

/-- `calls` are the calls so far. A connection is alive until its last owner is gone. -/
structure State (C : Type*) where
  table : TopicManager C
  alive : C → Bool
  calls : List (Call C)

def initial : State C := ⟨.empty, fun _ => true, []⟩

def Call.onTable (alive : C → Bool) (tm : TopicManager C) : Call C → TopicManager C
  | .addTopic topicName conn => tm.addTopic alive topicName conn
  | .removeTopic topicName conn => tm.removeTopic alive topicName conn
  | .removeAllTopic conn => tm.removeAllTopic alive conn

inductive Action (C : Type*)
  | call (call : Call C)
  | expire (conn : C)
  | rehash (entries : List (Bytes × C))
  deriving DecidableEq, Repr

/-- A caller owns the connection that it passes. Where the hash map puts its entries, and
when it moves them, is left open. -/
def step (s : State C) : Action C → Option (State C)
  | .call call =>
    if s.alive call.conn then
      some { s with table := call.onTable s.alive s.table, calls := s.calls ++ [call] }
    else none
  | .expire conn => some { s with alive := Function.update s.alive conn false }
  | .rehash entries => if entries.Perm s.table.topicMap then some { s with table := ⟨entries⟩ } else none

def entries (alive : C → Bool) (tm : TopicManager C) (t : Bytes) (c : C) : ℕ :=
  tm.topicMap.countP fun e => e.1 = t && TopicManager.lock alive e.2 = some c

def connections (alive : C → Bool) (tm : TopicManager C) (t : Bytes) : List C :=
  (tm.getConnectionByTopic t).filterMap (TopicManager.lock alive)

section Counts
variable {alive : C → Bool} {conn : C}

theorem entries_eq_count (tm : TopicManager C) (t : Bytes) {c : C} (h : alive c = true) :
    entries alive tm t c = tm.topicMap.count (t, c) := by
  unfold entries List.count
  congr 1
  funext e
  apply Bool.eq_iff_iff.mpr
  simp [TopicManager.lock_eq_some_iff h, Prod.ext_iff]

theorem count_addTopic (h : alive conn = true) (tm : TopicManager C) (topicName t : Bytes) (c : C) :
    (tm.addTopic alive topicName conn).topicMap.count (t, c) =
      if topicName = t ∧ conn = c then max 1 (tm.topicMap.count (t, c)) else tm.topicMap.count (t, c) := by
  have hany : (tm.topicMap.any fun e => e.1 = topicName && TopicManager.lock alive e.2 = some conn) =
      true ↔ (topicName, conn) ∈ tm.topicMap := by
    simp [TopicManager.lock_eq_some_iff h]
  unfold TopicManager.addTopic
  split_ifs with hm he he
  · obtain ⟨rfl, rfl⟩ := he
    have hpos := List.count_pos_iff.mpr (hany.mp hm)
    omega
  · rfl
  · obtain ⟨rfl, rfl⟩ := he
    have hzero := List.count_eq_zero.mpr fun hmem => hm (hany.mpr hmem)
    simp [hzero]
  · have hne : (topicName, conn) ≠ (t, c) := by
      rintro ⟨⟩
      exact he ⟨rfl, rfl⟩
    simp [hne]

theorem count_removeTopic (h : alive conn = true) (tm : TopicManager C) (topicName t : Bytes) (c : C) :
    (tm.removeTopic alive topicName conn).topicMap.count (t, c) =
      if topicName = t ∧ conn = c then 0 else tm.topicMap.count (t, c) := by
  unfold TopicManager.removeTopic
  split_ifs with he
  · obtain ⟨rfl, rfl⟩ := he
    rw [List.count_eq_zero]
    simp [TopicManager.lock_eq_some_iff h]
  · rw [List.count_filter]
    simp only [TopicManager.lock_eq_some_iff h, Bool.not_eq_true', Bool.and_eq_false_imp,
      decide_eq_true_eq, decide_eq_false_iff_not]
    rintro rfl rfl
    exact he ⟨rfl, rfl⟩

theorem count_removeAllTopic (h : alive conn = true) (tm : TopicManager C) (t : Bytes) (c : C) :
    (tm.removeAllTopic alive conn).topicMap.count (t, c) =
      if conn = c then 0 else tm.topicMap.count (t, c) := by
  unfold TopicManager.removeAllTopic
  split_ifs with he
  · obtain rfl := he
    rw [List.count_eq_zero]
    simp [TopicManager.lock_eq_some_iff h]
  · rw [List.count_filter]
    simp only [TopicManager.lock_eq_some_iff h, Bool.not_eq_true', decide_eq_false_iff_not]
    exact fun hc => he hc.symm

theorem Call.count_onTable {call : Call C} (h : alive call.conn = true) (tm : TopicManager C)
    (t : Bytes) (c : C) :
    (call.onTable alive tm).topicMap.count (t, c) =
      if call.affects t c then
        if call = .addTopic t c then max 1 (tm.topicMap.count (t, c)) else 0
      else tm.topicMap.count (t, c) := by
  cases call with
  | addTopic topicName conn =>
    have halive : alive conn = true := h
    rw [onTable, count_addTopic halive]
    by_cases he : topicName = t ∧ conn = c <;> simp [affects, he]
  | removeTopic topicName conn =>
    have halive : alive conn = true := h
    rw [onTable, count_removeTopic halive]
    by_cases he : topicName = t ∧ conn = c <;> simp [affects, he]
  | removeAllTopic conn =>
    have halive : alive conn = true := h
    rw [onTable, count_removeAllTopic halive]
    by_cases he : conn = c <;> simp [affects, he]

end Counts

/-- The table holds the pairs of the set, once each, as far as connections are alive. -/
def Exact (s : State C) : Prop :=
  ∀ t c, s.alive c = true →
    s.table.topicMap.count (t, c) = if lastCall t c s.calls = some (.addTopic t c) then 1 else 0

theorem initial_exact : Exact (initial : State C) := by
  intro t c _
  simp [initial, TopicManager.empty, lastCall]

theorem step_exact {s s' : State C} {a : Action C} (hs : Exact s) (h : step s a = some s') :
    Exact s' := by
  cases a with
  | call call =>
    simp only [step] at h
    split_ifs at h with halive
    obtain rfl := Option.some.inj h
    intro t c hc
    have hcount := hs t c hc
    rw [lastCall_append, Call.count_onTable halive]
    by_cases haffects : call.affects t c = true
    · rw [if_pos haffects, if_pos haffects]
      by_cases hadd : call = .addTopic t c
      · rw [if_pos hadd, if_pos (congrArg some hadd), hcount]
        split_ifs <;> rfl
      · rw [if_neg hadd, if_neg fun he => hadd (Option.some.inj he)]
    · rw [if_neg haffects, if_neg haffects, hcount]
  | expire conn =>
    obtain rfl := Option.some.inj h
    intro t c hc
    refine hs t c ?_
    by_contra hdead
    have hcc : Function.update s.alive conn false c = true := hc
    rw [Function.update_apply] at hcc
    split_ifs at hcc
    exact hdead hcc
  | rehash entries =>
    simp only [step] at h
    split_ifs at h with hperm
    obtain rfl := Option.some.inj h
    intro t c hc
    rw [← hs t c hc]
    exact hperm.count_eq (t, c)

theorem Exact.mem_iff {s : State C} (hs : Exact s) (t : Bytes) {c : C} (hc : s.alive c = true) :
    (t, c) ∈ s.table.topicMap ↔ lastCall t c s.calls = some (.addTopic t c) := by
  rw [← List.count_pos_iff, hs t c hc]
  split_ifs with hl <;> simp [hl]

theorem count_connections (alive : C → Bool) (tm : TopicManager C) (t : Bytes) (c : C) :
    (connections alive tm t).count c = if alive c then tm.topicMap.count (t, c) else 0 := by
  unfold connections TopicManager.getConnectionByTopic
  rw [List.count_filterMap, List.countP_map, List.countP_filter]
  split_ifs with hc
  · rw [← entries_eq_count tm t hc]
    unfold entries
    congr 1
    funext e
    apply Bool.eq_iff_iff.mpr
    simp [and_comm]
  · rw [List.countP_eq_zero]
    intro e _ he
    have hlock : TopicManager.lock alive e.2 = some c := by
      simp only [Bool.and_eq_true] at he
      simpa using he.1
    unfold TopicManager.lock at hlock
    split_ifs at hlock with halive
    rw [Option.some.inj hlock] at halive
    exact hc halive

/-- Whatever calls are made and whatever connections expire, a connection that is alive has
one entry under a topic if the last call about the two has added it, and none otherwise; so
the table gives out the connections of the set, once each, and no other that is alive. -/
theorem table_is_pair_set {as : List (Action C)} {s : State C} (hr : run step initial as = some s) :
    (∀ t c, s.alive c = true →
      entries s.alive s.table t c = if lastCall t c s.calls = some (.addTopic t c) then 1 else 0) ∧
    ∀ t, (connections s.alive s.table t).Nodup ∧
      ∀ c, c ∈ connections s.alive s.table t ↔ s.alive c = true ∧ (t, c) ∈ pairs s.calls := by
  have hs : Exact s := run_invariant (fun _ _ _ => step_exact) initial_exact hr
  have hcount : ∀ t c, (connections s.alive s.table t).count c ≤ 1 := by
    intro t c
    rw [count_connections]
    split_ifs with hc
    · rw [hs t c hc]
      split_ifs <;> decide
    · decide
  refine ⟨?_, fun t => ⟨List.nodup_iff_count_le_one.mpr (hcount t), ?_⟩⟩
  · intro t c hc
    rw [entries_eq_count s.table t hc]
    exact hs t c hc
  · intro c
    rw [← List.count_pos_iff, count_connections, mem_pairs_iff]
    split_ifs with hc
    · rw [List.count_pos_iff, hs.mem_iff t hc]
      simp [hc]
    · simp [hc]

def subscribers : List (Action ℕ) :=
  [.call (.addTopic [116] 0), .expire 0, .call (.addTopic [116] 1), .call (.addTopic [116] 2),
    .call (.addTopic [116] 1), .rehash [([116], 2), ([116], 0), ([116], 1)],
    .call (.removeTopic [116] 2)]

theorem table_is_pair_set_subscribers :
    ∃ s, run step initial subscribers = some s ∧ s.table.getConnectionByTopic [116] = [0, 1] ∧
      entries s.alive s.table [116] 1 = 1 ∧ entries s.alive s.table [116] 2 = 0 := by
  have hrun : (run step initial subscribers).map (fun s =>
      (s.table.getConnectionByTopic [116], [s.alive 1, s.alive 2],
        [lastCall [116] 1 s.calls, lastCall [116] 2 s.calls])) =
      some ([0, 1], [true, true], [some (.addTopic [116] 1), some (.removeTopic [116] 2)]) := by
    decide
  obtain ⟨s, hs, he⟩ := Option.map_eq_some_iff.mp hrun
  simp only [Prod.mk.injEq, List.cons.injEq, and_true] at he
  obtain ⟨hconns, ⟨halive1, halive2⟩, hlast1, hlast2⟩ := he
  have hexact := (table_is_pair_set hs).1
  refine ⟨s, hs, hconns, ?_, ?_⟩
  · rw [hexact [116] 1 halive1, if_pos hlast1]
  · rw [hexact [116] 2 halive2, hlast2]
    decide

end Czrpc.TopicSet
