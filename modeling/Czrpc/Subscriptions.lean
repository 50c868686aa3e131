import Czrpc.SendQueue
import Czrpc.TopicManager
import Czrpc.UnorderedMap

/-! The subscriptions of a `sub_client`: its tables of callbacks in `sub_router`,
the calls that change them, and `retry_subscribe`. -/
namespace Czrpc
open Framing Protocol LastWrite

/-- `sub_router`, with the callbacks of message mode in `F` and of raw mode in `G`. -/
structure SubRouter (F G : Type*) where
  routeMap : UnorderedMap Bytes F
  routeRawMap : UnorderedMap Bytes G
  deriving DecidableEq

namespace SubRouter
variable {F G : Type*}

def empty : SubRouter F G := ⟨.empty, .empty⟩

def bind (r : SubRouter F G) (protocol : Bytes) (func : F) : SubRouter F G :=
  { r with routeMap := (r.routeMap.replace protocol func).1 }

def bindRaw (r : SubRouter F G) (protocol : Bytes) (func : G) : SubRouter F G :=
  { r with routeRawMap := (r.routeRawMap.replace protocol func).1 }

def unbind (r : SubRouter F G) (protocol : Bytes) : SubRouter F G :=
  { r with routeMap := r.routeMap.erase protocol }

def unbindRaw (r : SubRouter F G) (protocol : Bytes) : SubRouter F G :=
  { r with routeRawMap := r.routeRawMap.erase protocol }

def isBind (r : SubRouter F G) (protocol : Bytes) : Bool := r.routeMap.contains protocol

def isBindRaw (r : SubRouter F G) (protocol : Bytes) : Bool := r.routeRawMap.contains protocol

def bound (r : SubRouter F G) (raw : Bool) (protocol : Bytes) : Bool :=
  if raw then r.isBindRaw protocol else r.isBind protocol

end SubRouter

namespace Subscriptions
variable {F G : Type*}

inductive Op (F G : Type*)
  | subscribe (topicName : Bytes) (func : F)
  | subscribeRaw (topicName : Bytes) (func : G)
  | cancelSubscribe (topicName : Bytes)
  | cancelSubscribeRaw (topicName : Bytes)
  deriving DecidableEq, Repr

namespace Op

/-- The request that the call writes first. `cancel_subscribe_raw` sets the flag
of message mode. -/
def request : Op F G → RequestContent
  | subscribe topicName _ =>
    ⟨0, ⟨.serialize, .subClient⟩, topicName, [], subscribeTopicFlag⟩
  | subscribeRaw topicName _ =>
    ⟨0, ⟨.nonSerialize, .subClient⟩, topicName, [], subscribeTopicFlag⟩
  | cancelSubscribe topicName =>
    ⟨0, ⟨.serialize, .subClient⟩, topicName, [], cancelSubscribeTopicFlag⟩
  | cancelSubscribeRaw topicName =>
    ⟨0, ⟨.serialize, .subClient⟩, topicName, [], cancelSubscribeTopicFlag⟩

/-- The change of `sub_router` that the call makes then. -/
def update (r : SubRouter F G) : Op F G → SubRouter F G
  | subscribe topicName func => r.bind topicName func
  | subscribeRaw topicName func => r.bindRaw topicName func
  | cancelSubscribe topicName => r.unbind topicName
  | cancelSubscribeRaw topicName => r.unbindRaw topicName

def topic : Op F G → Bytes
  | subscribe topicName _ | subscribeRaw topicName _ | cancelSubscribe topicName
  | cancelSubscribeRaw topicName => topicName

def subscribes : Op F G → Bool
  | subscribe _ _ | subscribeRaw _ _ => true
  | cancelSubscribe _ | cancelSubscribeRaw _ => false

def raw : Op F G → Bool
  | subscribeRaw _ _ | cancelSubscribeRaw _ => true
  | subscribe _ _ | cancelSubscribe _ => false

theorem subscription_request (op : Op F G) :
    subscription op.request = some (op.topic, op.subscribes) := by
  cases op <;> rfl

end Op

def calls (ops : List (Op F G)) : List (Bytes × Bool) :=
  ops.map fun op => (op.topic, op.subscribes)

def callsIn (raw : Bool) (ops : List (Op F G)) : List (Bytes × Bool) :=
  calls (ops.filter fun op => op.raw = raw)

theorem calls_cons (op : Op F G) (ops : List (Op F G)) :
    calls (op :: ops) = (op.topic, op.subscribes) :: calls ops := rfl

theorem callsIn_cons (raw : Bool) (op : Op F G) (ops : List (Op F G)) :
    callsIn raw (op :: ops) =
      if op.raw = raw then (op.topic, op.subscribes) :: callsIn raw ops else callsIn raw ops := by
  unfold callsIn
  split_ifs with h <;> simp [h, calls_cons]

theorem callsIn_append (raw : Bool) (as bs : List (Op F G)) :
    callsIn raw (as ++ bs) = callsIn raw as ++ callsIn raw bs := by
  simp [callsIn, calls]

theorem subscriptions_requests (ops : List (Op F G)) :
    subscriptions (ops.map Op.request) = calls ops := by
  simp [subscriptions, calls, List.filterMap_map, Op.subscription_request]

theorem written_callsIn_single (before raw : Bool) (op : Op F G) (t : Bytes) :
    written before t (callsIn raw [op]) =
      if op.raw = raw ∧ op.topic = t then op.subscribes else before := by
  rw [callsIn_cons]
  by_cases hraw : op.raw = raw <;> simp [hraw, written_cons, callsIn, calls]

theorem bound_update (r : SubRouter F G) (op : Op F G) (raw : Bool) (t : Bytes) :
    (op.update r).bound raw t = written (r.bound raw t) t (callsIn raw [op]) := by
  rw [written_callsIn_single]
  cases op <;> cases raw <;>
    simp [Op.update, Op.raw, Op.topic, Op.subscribes, SubRouter.bound, SubRouter.bind,
      SubRouter.bindRaw, SubRouter.unbind, SubRouter.unbindRaw, SubRouter.isBind,
      SubRouter.isBindRaw, eq_comm (a := t), Bool.or_comm, Bool.and_comm]

def updates (r : SubRouter F G) (ops : List (Op F G)) : SubRouter F G :=
  ops.foldl (fun r op => op.update r) r

theorem bound_updates (r : SubRouter F G) (ops : List (Op F G)) (raw : Bool) (t : Bytes) :
    (updates r ops).bound raw t = written (r.bound raw t) t (callsIn raw ops) := by
  induction ops generalizing r with
  | nil => rfl
  | cons op ops ih =>
    rw [← List.singleton_append, callsIn_append, written_append, ← bound_update]
    exact ih (op.update r)

theorem callsIn_sublist (raw : Bool) (ops : List (Op F G)) :
    (callsIn raw ops).Sublist (calls ops) :=
  List.filter_sublist.map _

theorem exists_lastWrite_callsIn {ops : List (Op F G)} {t : Bytes} {v : Bool}
    (h : lastWrite t (calls ops) = some v) : ∃ raw, lastWrite t (callsIn raw ops) = some v := by
  induction ops with
  | nil => cases h
  | cons op ops ih =>
    rw [calls_cons, lastWrite_cons, Option.or_eq_some_iff] at h
    rcases h with h | ⟨hnone, h⟩
    · obtain ⟨raw, hraw⟩ := ih h
      refine ⟨raw, lastWrite_suffix ?_ hraw⟩
      rw [callsIn_cons]
      split_ifs
      · exact List.suffix_cons _ _
      · exact List.suffix_refl _
    · refine ⟨op.raw, ?_⟩
      have hrest : lastWrite t (callsIn op.raw ops) = none := by
        rw [lastWrite_eq_none_iff] at hnone ⊢
        exact fun w hw => hnone w ((callsIn_sublist _ _).subset hw)
      rw [callsIn_cons, if_pos rfl, lastWrite_cons, hrest, Option.none_or, h]

/-- Where a run of `retry_subscribe` stands. `get_all_topic` copies the keys of the
two tables one table after the other; then the topics are requested one by one. -/
inductive Retry
  | idle
  | begun
  | copied (topics : List Bytes)
  | posting (topics : List Bytes)
  deriving DecidableEq, Repr

def resubscribe (topicName : Bytes) : RequestContent :=
  ⟨0, ⟨.serialize, .subClient⟩, topicName, [], subscribeTopicFlag⟩

def retryStep (r : SubRouter F G) (send : SendQueue.State RequestContent) :
    Retry → Option (SendQueue.State RequestContent × Retry)
  | .idle => none
  | .begun => some (send, .copied r.routeMap.keys)
  | .copied topics => some (send, .posting (topics ++ r.routeRawMap.keys))
  | .posting [] => some (send, .idle)
  | .posting (topicName :: topics) =>
    some (SendQueue.post send (resubscribe topicName), .posting topics)

def isSubscribe (r : SubRouter F G) (topicName : Bytes) : Bool := r.isBind topicName

def isSubscribeRaw (r : SubRouter F G) (topicName : Bytes) : Bool := r.isBindRaw topicName

/-- The server and the client agree on every topic exactly if no topic whose last
call cancels has a subscribe as the last call of one of the modes. -/
theorem topics_agree_iff {C : Type*} [DecidableEq C] (alive : C → Bool) {conn : C}
    (halive : alive conn = true) {tm : TopicManager C} (hnew : ∀ t, tm.holds conn t = false)
    (ops : List (Op F G)) :
    (∀ t, (tm.runRequests alive conn (ops.map Op.request)).holds conn t = true ↔
      isSubscribe (updates .empty ops) t = true ∨ isSubscribeRaw (updates .empty ops) t = true) ↔
    ∀ t raw, lastWrite t (calls ops) = some false → lastWrite t (callsIn raw ops) ≠ some true := by
  refine forall_congr' fun t => ?_
  have hserver : (tm.runRequests alive conn (ops.map Op.request)).holds conn t = true ↔
      lastWrite t (calls ops) = some true := by
    rw [TopicManager.holds_runRequests halive, hnew, subscriptions_requests,
      written_false_eq_true_iff]
  have hclient : (isSubscribe (updates (.empty : SubRouter F G) ops) t = true ∨
      isSubscribeRaw (updates (.empty : SubRouter F G) ops) t = true) ↔
      ∃ raw, lastWrite t (callsIn raw ops) = some true := by
    have hbound : ∀ raw, (updates (.empty : SubRouter F G) ops).bound raw t = true ↔
        lastWrite t (callsIn raw ops) = some true := by
      intro raw
      have hempty : (SubRouter.empty : SubRouter F G).bound raw t = false := by cases raw <;> rfl
      rw [bound_updates, hempty, written_false_eq_true_iff]
    rw [Bool.exists_bool, ← hbound, ← hbound]
    rfl
  rw [hserver, hclient]
  constructor
  · intro hagree raw hlast hmode
    have := hagree.mpr ⟨raw, hmode⟩
    rw [hlast] at this
    cases this
  · intro hcond
    refine ⟨exists_lastWrite_callsIn, ?_⟩
    rintro ⟨raw, hmode⟩
    cases hlast : lastWrite t (calls ops) with
    | none =>
      rw [lastWrite_eq_none_iff] at hlast
      exact absurd ((callsIn_sublist raw ops).subset (mem_of_lastWrite hmode)) (hlast true)
    | some v =>
      cases v with
      | true => rfl
      | false => exact absurd hmode (hcond raw hlast)

def bothModes : List (Op Unit Unit) :=
  [.subscribe [116] (), .subscribeRaw [116] (), .cancelSubscribe [116]]

theorem topics_agree_both_cancelled :
    (TopicManager.empty.runRequests (fun _ => true) 0
      ((bothModes ++ [Op.cancelSubscribeRaw [116]]).map Op.request)).holds 0 [116] = true ↔
    isSubscribe (updates .empty (bothModes ++ [.cancelSubscribeRaw [116]])) [116] = true ∨
      isSubscribeRaw (updates .empty (bothModes ++ [.cancelSubscribeRaw [116]])) [116] = true := by
  have hnew : ∀ t, (TopicManager.empty : TopicManager ℕ).holds 0 t = false := fun _ => rfl
  refine (topics_agree_iff (fun _ => true) rfl hnew (bothModes ++ [.cancelSubscribeRaw [116]])).mpr ?_ [116]
  intro t raw _
  cases raw <;>
    simp only [bothModes, callsIn, calls, Op.raw, List.cons_append, List.nil_append] <;>
    by_cases ht : [116] = t <;> simp [lastWrite_cons, Op.topic, Op.subscribes, ht]

/-- The server has dropped the topic while the client is still bound in raw mode. -/
theorem topics_disagree : ¬ ∀ (ops : List (Op Unit Unit)) (t : Bytes),
    (TopicManager.empty.runRequests (fun _ => true) 0 (ops.map Op.request)).holds 0 t = true ↔
      isSubscribe (updates .empty ops) t = true ∨ isSubscribeRaw (updates .empty ops) t = true := by
  intro h
  exact absurd (h bothModes [116]) (by decide)

end Subscriptions
end Czrpc
