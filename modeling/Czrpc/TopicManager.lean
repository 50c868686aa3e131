import Czrpc.LastWrite
import Czrpc.Protocol

/-! The server's table of subscriptions, `topic_manager`, and what the requests of
a subscriber do to it. -/
namespace Czrpc
open Framing Protocol LastWrite

/-- `topic_map_`: topics with weak pointers to connections, in iteration order. A
weak pointer is named by the connection it was made from. -/
structure TopicManager (C : Type*) where
  topicMap : List (Bytes × C)
  deriving DecidableEq, Repr

namespace TopicManager
variable {C : Type*}

def empty : TopicManager C := ⟨[]⟩

def lock (alive : C → Bool) (conn : C) : Option C := if alive conn then some conn else none

theorem lock_eq_some_iff {alive : C → Bool} {conn : C} (h : alive conn = true) (c : C) :
    lock alive c = some conn ↔ c = conn := by
  unfold lock
  constructor
  · intro hl
    split_ifs at hl
    exact Option.some.inj hl
  · rintro rfl
    rw [if_pos h]

variable [DecidableEq C]

/-- The loop over the topic's entries returns when it meets the connection. -/
def addTopic (alive : C → Bool) (tm : TopicManager C) (topicName : Bytes) (conn : C) :
    TopicManager C :=
  if tm.topicMap.any fun e => e.1 = topicName && lock alive e.2 = some conn then tm
  else ⟨tm.topicMap ++ [(topicName, conn)]⟩

def removeTopic (alive : C → Bool) (tm : TopicManager C) (topicName : Bytes) (conn : C) :
    TopicManager C :=
  ⟨tm.topicMap.filter fun e => !(e.1 = topicName && lock alive e.2 = some conn)⟩

def removeAllTopic (alive : C → Bool) (tm : TopicManager C) (conn : C) : TopicManager C :=
  ⟨tm.topicMap.filter fun e => !(lock alive e.2 = some conn)⟩

/-- The entries of the topic, expired or not. -/
def getConnectionByTopic (tm : TopicManager C) (topicName : Bytes) : List C :=
  (tm.topicMap.filter fun e => e.1 = topicName).map Prod.snd

def holds (tm : TopicManager C) (conn : C) (topicName : Bytes) : Bool :=
  (topicName, conn) ∈ tm.topicMap

def topicsOf (tm : TopicManager C) (conn : C) : List Bytes :=
  (tm.topicMap.filter fun e => e.2 = conn).map Prod.fst

theorem topicsOf_eq_nil_iff (tm : TopicManager C) (conn : C) :
    tm.topicsOf conn = [] ↔ ∀ t, tm.holds conn t = false := by
  simp only [topicsOf, List.map_eq_nil_iff, List.filter_eq_nil_iff, decide_eq_true_eq, holds,
    decide_eq_false_iff_not]
  constructor
  · intro h t hm
    exact h _ hm rfl
  · rintro h ⟨t, c⟩ hm rfl
    exact h t hm

theorem getConnectionByTopic_eq_nil {tm : TopicManager C} {t : Bytes} (h : ∀ c, tm.holds c t = false) :
    tm.getConnectionByTopic t = [] := by
  simp only [holds, decide_eq_false_iff_not] at h
  simp only [getConnectionByTopic, List.map_eq_nil_iff, List.filter_eq_nil_iff, decide_eq_true_eq]
  rintro ⟨topic, c⟩ hm rfl
  exact h c hm

@[simp] theorem holds_empty (conn : C) (topicName : Bytes) :
    (empty : TopicManager C).holds conn topicName = false := by
  simp [holds, empty]

theorem holds_addTopic {alive : C → Bool} {conn : C} (h : alive conn = true)
    (tm : TopicManager C) (topicName : Bytes) (c : C) (t : Bytes) :
    (tm.addTopic alive topicName conn).holds c t =
      (tm.holds c t || decide (t = topicName ∧ c = conn)) := by
  apply Bool.eq_iff_iff.mpr
  unfold holds addTopic
  split_ifs with hany
  · simp only [Bool.or_eq_true, decide_eq_true_eq]
    simp only [List.any_eq_true, Bool.and_eq_true, decide_eq_true_eq, lock_eq_some_iff h] at hany
    obtain ⟨⟨t', c'⟩, hm, rfl, rfl⟩ := hany
    constructor
    · exact Or.inl
    · rintro (hm' | ⟨rfl, rfl⟩)
      · exact hm'
      · exact hm
  · simp

theorem holds_removeTopic {alive : C → Bool} {conn : C} (h : alive conn = true)
    (tm : TopicManager C) (topicName : Bytes) (c : C) (t : Bytes) :
    (tm.removeTopic alive topicName conn).holds c t =
      (tm.holds c t && decide (¬ (t = topicName ∧ c = conn))) := by
  apply Bool.eq_iff_iff.mpr
  simp [removeTopic, holds, List.mem_filter, lock_eq_some_iff h, imp_iff_not_or]

theorem holds_removeAllTopic {alive : C → Bool} {conn : C} (h : alive conn = true)
    (tm : TopicManager C) (c : C) (t : Bytes) :
    (tm.removeAllTopic alive conn).holds c t = (tm.holds c t && decide (c ≠ conn)) := by
  apply Bool.eq_iff_iff.mpr
  simp [removeAllTopic, holds, List.mem_filter, lock_eq_some_iff h]

def subscriberComing (alive : C → Bool) (tm : TopicManager C) (topicName body : Bytes) (conn : C) :
    TopicManager C :=
  if body = subscribeTopicFlag then tm.addTopic alive topicName conn
  else if body = cancelSubscribeTopicFlag then tm.removeTopic alive topicName conn
  else tm

/-- What `server::router_thread` does to the table. A call goes to `rpc_coming`,
which leaves the table alone, and a request of any other type is ignored. -/
def routerThread (alive : C → Bool) (tm : TopicManager C) (content : RequestContent) (conn : C) :
    TopicManager C :=
  if content.flag.type = .rpcClient ∨ content.flag.type = .asyncRpcClient then tm
  else if content.flag.type = .subClient then
    subscriberComing alive tm content.protocol content.body conn
  else tm

end TopicManager

/-- The entry that a request asks for: a topic, and whether it is to be held. -/
def subscription (content : RequestContent) : Option (Bytes × Bool) :=
  if content.flag.type = .subClient then
    if content.body = subscribeTopicFlag then some (content.protocol, true)
    else if content.body = cancelSubscribeTopicFlag then some (content.protocol, false)
    else none
  else none

def subscriptions (contents : List RequestContent) : List (Bytes × Bool) :=
  contents.filterMap subscription

@[simp] theorem subscriptions_append (as bs : List RequestContent) :
    subscriptions (as ++ bs) = subscriptions as ++ subscriptions bs := List.filterMap_append

variable {C : Type*} [DecidableEq C]

def requestsOf (conn : C) (log : List (C × RequestContent)) : List RequestContent :=
  (log.filter fun e => e.1 = conn).map Prod.snd

@[simp] theorem requestsOf_append (conn : C) (as bs : List (C × RequestContent)) :
    requestsOf conn (as ++ bs) = requestsOf conn as ++ requestsOf conn bs := by
  simp [requestsOf]

theorem requestsOf_cons (conn c : C) (content : RequestContent) (log : List (C × RequestContent)) :
    requestsOf conn ((c, content) :: log) =
      if c = conn then content :: requestsOf conn log else requestsOf conn log := by
  unfold requestsOf
  split_ifs with h <;> simp [h]

theorem mem_requestsOf (conn : C) (content : RequestContent) (log : List (C × RequestContent)) :
    content ∈ requestsOf conn log ↔ (conn, content) ∈ log := by
  simp [requestsOf]

namespace TopicManager

theorem routerThread_eq (alive : C → Bool) (tm : TopicManager C) (content : RequestContent) (conn : C) :
    tm.routerThread alive content conn =
      match subscription content with
      | some (t, true) => tm.addTopic alive t conn
      | some (t, false) => tm.removeTopic alive t conn
      | none => tm := by
  unfold routerThread subscriberComing subscription
  by_cases hsub : content.flag.type = .subClient
  · have hrpc : ¬ (content.flag.type = .rpcClient ∨ content.flag.type = .asyncRpcClient) := by
      rw [hsub]
      decide
    rw [if_neg hrpc, if_pos hsub, if_pos hsub]
    split_ifs <;> rfl
  · rw [if_neg hsub, if_neg hsub, ite_self]

/-- A request decides the entry of its own connection under its own topic and
leaves every other entry as it is. -/
theorem holds_routerThread {alive : C → Bool} {conn : C} (h : alive conn = true)
    (tm : TopicManager C) (content : RequestContent) (c : C) (t : Bytes) :
    (tm.routerThread alive content conn).holds c t =
      if c = conn then written (tm.holds c t) t (subscriptions [content]) else tm.holds c t := by
  have hsub : subscriptions [content] = (subscription content).toList := by
    unfold subscriptions
    cases hc : subscription content <;> simp [hc]
  rw [routerThread_eq, hsub]
  rcases subscription content with _ | ⟨t', held⟩
  · simp
  · by_cases ht : t' = t <;> by_cases hcc : c = conn <;> cases held <;>
      simp [holds_addTopic h, holds_removeTopic h, written_cons, ht, hcc, eq_comm (a := t)]

theorem holds_routerThread_of_ne {alive : C → Bool} {conn : C} (h : alive conn = true)
    (tm : TopicManager C) {content : RequestContent} {t : Bytes} (ht : content.protocol ≠ t) (c : C) :
    (tm.routerThread alive content conn).holds c t = tm.holds c t := by
  have hnone : lastWrite t (subscriptions [content]) = none := by
    rw [lastWrite_eq_none_iff]
    intro v hv
    obtain ⟨r, hr, hsub⟩ := List.mem_filterMap.mp hv
    obtain rfl := List.mem_singleton.mp hr
    unfold subscription at hsub
    split_ifs at hsub
    · exact ht (Prod.mk.inj (Option.some.inj hsub)).1
    · exact ht (Prod.mk.inj (Option.some.inj hsub)).1
  rw [holds_routerThread h, written, hnone, Option.getD_none, ite_self]

def runRequests (alive : C → Bool) (conn : C) (tm : TopicManager C) (contents : List RequestContent) :
    TopicManager C :=
  contents.foldl (fun tm content => tm.routerThread alive content conn) tm

theorem holds_runRequests {alive : C → Bool} {conn : C} (h : alive conn = true)
    (tm : TopicManager C) (contents : List RequestContent) (t : Bytes) :
    (runRequests alive conn tm contents).holds conn t =
      written (tm.holds conn t) t (subscriptions contents) := by
  induction contents generalizing tm with
  | nil => rfl
  | cons content contents ih =>
    rw [← List.singleton_append, subscriptions_append, written_append]
    have hs := holds_routerThread h tm content conn t
    rw [if_pos rfl] at hs
    rw [← hs]
    exact ih _

end TopicManager
end Czrpc
