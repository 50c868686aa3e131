import Czrpc.ServerWrites

/-! The publishers of a server and one of its connections, that of a `sub_client`: what each
thread publishes and what it posts to the connection. -/
namespace Czrpc.Publishers
open Execution Framing Protocol ServerWrites
open Dispatch (Protobuf)

variable {C H : Type*} {M D : Type} {n : ℕ}

inductive Payload (M : Type)
  | message (message : M)
  | raw (data : Bytes)
  deriving DecidableEq, Repr

def Payload.isRaw : Payload M → Bool
  | .message _ => false
  | .raw _ => true

abbrev Item (M : Type) := Bytes × Payload M

/-- What `sub_client::router_thread` makes of a push before it looks for a handler. -/
def decode (pb : Protobuf M D) (content : PushContent) : Option (Item M) :=
  if content.mode = .serialize then
    match pb.deserialize content.messageName content.body with
    | .ok message => some (content.protocol, .message message)
    | .error _ => none
  else if content.mode = .nonSerialize then some (content.protocol, .raw content.body)
  else none

/-- `current` is what a thread has published last, `calls` are all the calls of `publish` and
`publish_raw` that have not thrown, and `posts` those whose frame has been posted to the
connection, both with the thread and in the order of time. -/
structure State (C H : Type*) (M : Type) (n : ℕ) where
  server : ServerWrites.State C H n
  current : ℕ → Option (Item M)
  calls : List (ℕ × Item M)
  posts : List (ℕ × Item M)

def initial : State C H M n := ⟨ServerWrites.initial, fun _ => none, [], []⟩

def entered (pb : Protobuf M D) : ServerWrites.Action C H M n → Option (ℕ × Item M)
  | .publish t topicName (some message) =>
    if pb.isInitialized message then some (t, topicName, .message message) else none
  | .publishRaw t topicName message => some (t, topicName, .raw message)
  | _ => none

def enter (current : ℕ → Option (Item M)) : Option (ℕ × Item M) → ℕ → Option (Item M)
  | some (t, item) => Function.update current t (some item)
  | none => current

def posting [DecidableEq C] (c : C) (s : State C H M n) :
    ServerWrites.Action C H M n → Option (ℕ × Item M)
  | .push t false =>
    match s.server.publishing t with
    | some (_, d :: _) => if d = c then (s.current t).map fun item => (t, item) else none
    | _ => none
  | _ => none

variable [DecidableEq C]

def step (pb : Protobuf M D) (c : C) (s : State C H M n) (a : ServerWrites.Action C H M n) :
    Option (State C H M n) :=
  (ServerWrites.step pb s.server a).map fun server =>
    { server := server
      current := enter s.current (entered pb a)
      calls := s.calls ++ (entered pb a).toList
      posts := s.posts ++ (posting c s a).toList }

def framesTo (c : C) (written : List (C × Frame)) : List Frame :=
  (written.filter fun e => e.1 = c).map Prod.snd

theorem framesTo_append (c : C) (as bs : List (C × Frame)) :
    framesTo c (as ++ bs) = framesTo c as ++ framesTo c bs := by
  simp [framesTo]

/-- The connection is that of a `sub_client`: it sends only requests of a subscriber, and while
something is published it is alive and held under the topic. -/
def Served (pb : Protobuf M D) (c : C) (s : State C H M n) : ServerWrites.Action C H M n → Prop
  | .core (.contentRead d content) => d = c → content.flag.type = .subClient
  | .publish _ topicName message => ∀ m, message = some m → pb.isInitialized m = true →
      s.server.core.topics.holds c topicName = true ∧ pb.Registered m
  | .publishRaw _ topicName _ => s.server.core.topics.holds c topicName = true
  | .push t expired => ∀ call, s.server.publishing t = some call → call.2.head? = some c →
      expired = false
  | _ => True

def messagePush (pb : Protobuf M D) (topicName : Bytes) (message : M) : PushContent :=
  ⟨.serialize, topicName, pb.fullName message, pb.serializeAsString message⟩

/-- Every string of what is published has a size that the header of a push can hold. -/
def Sized (pb : Protobuf M D) : ServerWrites.Action C H M n → Prop
  | .publish _ topicName message => ∀ m, message = some m → (messagePush pb topicName m).Fits
  | .publishRaw _ topicName message => (publishRawContent topicName message).Fits
  | _ => True

theorem publishContent_eq (pb : Protobuf M D) (topicName : Bytes) (message : M) :
    publishContent pb topicName (some message) =
      if pb.isInitialized message then .ok (messagePush pb topicName message)
      else .error "Message initialized failed" := by
  cases hi : pb.isInitialized message <;>
    simp only [publishContent, Protobuf.serialize, Protobuf.checkMessage, hi] <;> rfl

def ofHandlers : ServerWrites.Action C H M n → Bool
  | .bind _ _ | .unbind _ | .bindRaw _ _ | .unbindRaw _ | .call _ _ | .setResponse _ _
  | .setResponseRaw _ _ => true
  | _ => false

def setCall (s : ServerWrites.State C H n) (t : ℕ) (call : Option (PushContent × List C)) :
    ServerWrites.State C H n := { s with publishing := Function.update s.publishing t call }

def startCall (s : ServerWrites.State C H n) (t : ℕ) (content : PushContent) :
    ServerWrites.State C H n :=
  setCall s t (some (content, s.core.topics.getConnectionByTopic content.protocol))

/-- What an action of the server can do to the publishers and the connections. -/
inductive Change (pb : Protobuf M D) (s : ServerWrites.State C H n) :
    ServerWrites.Action C H M n → ServerWrites.State C H n → Prop
  | core {a : Server.Action C n} {s' : ServerWrites.State C H n}
      (h : Server.step s.core a = some s'.core) (hp : s'.publishing = s.publishing)
      (hw : s'.written = s.written) : Change pb s (.core a) s'
  | handlers {a : ServerWrites.Action C H M n} {s' : ServerWrites.State C H n}
      {new : List (C × Frame)} (ha : ofHandlers a = true) (hc : s'.core = s.core)
      (hp : s'.publishing = s.publishing) (hw : s'.written = s.written ++ new)
      (hnew : ∀ e ∈ new, Caller s.core e.1) : Change pb s a s'
  | threw {t : ℕ} {topicName : Bytes} {message : Option M}
      (h : ∀ m, message = some m → pb.isInitialized m = false) :
      Change pb s (.publish t topicName message) s
  | publish {t : ℕ} {topicName : Bytes} {message : M} (ht : s.publishing t = none)
      (hi : pb.isInitialized message = true) :
      Change pb s (.publish t topicName (some message))
        (startCall s t (messagePush pb topicName message))
  | publishRaw {t : ℕ} {topicName message : Bytes} (ht : s.publishing t = none) :
      Change pb s (.publishRaw t topicName message)
        (startCall s t (publishRawContent topicName message))
  | expired {t : ℕ} {content : PushContent} {d : C} {rest : List C}
      (ht : s.publishing t = some (content, d :: rest)) :
      Change pb s (.push t true) (setCall s t (some (content, rest)))
  | push {t : ℕ} {content : PushContent} {d : C} {rest : List C}
      (ht : s.publishing t = some (content, d :: rest)) :
      Change pb s (.push t false) (asyncWrite (setCall s t (some (content, rest))) d (.push content))
  | ended {t : ℕ} {content : PushContent} (ht : s.publishing t = some (content, [])) :
      Change pb s (.endPublish t) (setCall s t none)

variable {pb : Protobuf M D}

theorem publish_change {s s' : ServerWrites.State C H n} {t : ℕ} {topicName : Bytes}
    {message : Option M} (h : ServerWrites.step pb s (.publish t topicName message) = some s') :
    Change pb s (.publish t topicName message) s' := by
  cases message with
  | none =>
    obtain rfl := Option.some.inj h
    exact .threw (fun m hm => by cases hm)
  | some message =>
    simp only [ServerWrites.step, publishContent_eq] at h
    cases hi : pb.isInitialized message with
    | false =>
      simp only [hi, Bool.false_eq_true, if_false, Option.some.injEq] at h
      subst s'
      refine .threw ?_
      rintro m ⟨rfl⟩
      exact hi
    | true =>
      simp only [hi, if_true, publishImpl] at h
      split at h
      · rename_i ht
        obtain rfl := Option.some.inj h
        exact .publish ht hi
      · cases h

theorem push_change {s s' : ServerWrites.State C H n} {t : ℕ} {expired : Bool}
    (h : pushNext s t expired = some s') :
    Change pb s (.push t expired : ServerWrites.Action C H M n) s' := by
  unfold pushNext at h
  split at h
  · rename_i content d rest ht
    obtain rfl := Option.some.inj h
    cases expired with
    | true => exact .expired ht
    | false => exact .push ht
  · cases h

omit [DecidableEq C] in
theorem rpcComing_change (pb : Protobuf M D) (s : ServerWrites.State C H n) (c : C)
    (content : RequestContent) (session : Option Bytes) :
    ∃ new, (rpcComing pb s c content session).core = s.core ∧
      (rpcComing pb s c content session).publishing = s.publishing ∧
      (rpcComing pb s c content session).written = s.written ++ new ∧ ∀ e ∈ new, e.1 = c := by
  have hroute : ∀ table, ∃ new, (route s table c content).core = s.core ∧
      (route s table c content).publishing = s.publishing ∧
      (route s table c content).written = s.written ++ new ∧ ∀ e ∈ new, e.1 = c := by
    intro table
    unfold route
    split
    · exact ⟨[], rfl, rfl, (List.append_nil _).symm, by simp⟩
    · exact ⟨_, rfl, rfl, rfl, by simp⟩
  have hnone : ∃ new, s.core = s.core ∧ s.publishing = s.publishing ∧
      s.written = s.written ++ new ∧ ∀ e ∈ new, e.1 = c :=
    ⟨[], rfl, rfl, (List.append_nil _).symm, by simp⟩
  unfold rpcComing
  split_ifs
  · split
    · exact hroute _
    · exact hnone
  · split
    · exact hroute _
    · exact hnone
  · exact hnone

theorem step_change {s s' : ServerWrites.State C H n} {a : ServerWrites.Action C H M n}
    (hs : ServerWrites.Inv s) (h : ServerWrites.step pb s a = some s') : Change pb s a s' := by
  cases a with
  | core a =>
    simp only [ServerWrites.step] at h
    split_ifs at h
    obtain ⟨core, hcore, rfl⟩ := Option.map_eq_some_iff.mp h
    exact .core hcore rfl rfl
  | bind | unbind | bindRaw | unbindRaw =>
    obtain rfl := Option.some.inj h
    exact .handlers rfl rfl rfl (List.append_nil _).symm (by simp)
  | call w session =>
    simp only [ServerWrites.step] at h
    split at h
    · rename_i c content hw
      split_ifs at h with hcall
      obtain rfl := Option.some.inj h
      have hcaller : Caller s.core c := ⟨content, hs.core.tasks _ (Or.inr ⟨w, hw⟩), hcall.1⟩
      obtain ⟨new, hcore, hp, hwritten, hnew⟩ := rpcComing_change pb
        { s with begun := Function.update s.begun w true } c content session
      exact .handlers rfl hcore hp hwritten (fun e he => hnew e he ▸ hcaller)
    · cases h
  | setResponse r message =>
    obtain ⟨rsp, hrsp, rfl⟩ := Option.map_eq_some_iff.mp h
    refine .handlers rfl rfl rfl rfl ?_
    intro e he
    obtain ⟨content, -, rfl⟩ := List.mem_map.mp he
    exact hs.responses rsp (List.mem_of_getElem? hrsp)
  | setResponseRaw r rawData =>
    obtain ⟨rsp, hrsp, rfl⟩ := Option.map_eq_some_iff.mp h
    refine .handlers rfl rfl rfl rfl ?_
    intro e he
    obtain ⟨content, -, rfl⟩ := List.mem_map.mp he
    exact hs.responses rsp (List.mem_of_getElem? hrsp)
  | publish t topicName message => exact publish_change h
  | publishRaw t topicName message =>
    simp only [ServerWrites.step, publishImpl] at h
    split at h
    · rename_i ht
      obtain rfl := Option.some.inj h
      exact .publishRaw ht
    · cases h
  | push t expired => exact push_change h
  | endPublish t =>
    simp only [ServerWrites.step, endPublish] at h
    split at h
    · rename_i ht
      obtain rfl := Option.some.inj h
      exact .ended ht
    · cases h

end Czrpc.Publishers
