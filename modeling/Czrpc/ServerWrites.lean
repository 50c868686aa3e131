import Czrpc.Dispatch
import Czrpc.Server

/-! What a server writes to its connections: the answers of the handlers, which may keep a
`response` and use it at any time and any number of times, the error of a call that no
handler is bound for, and the pushes of the publishers. -/
namespace Czrpc.ServerWrites
open Execution Framing Protocol WorkPool Dispatch

inductive Frame
  | response (content : ResponseContent)
  | push (content : PushContent)
  deriving DecidableEq, Repr

def Frame.buffer : Frame → Bytes
  | .response content => getResponseBuffer (ResponseHeader.ofContent content) content
  | .push content => getPushBuffer (PushHeader.ofContent content) content

/-- `H` are the handlers. `begun` tells whether a worker has called the handler of the call
it runs, `responses` are the `response` objects with the connection and the call id each was
made for, and `publishing` is the call of `publish_impl` that a thread is in, with the
connections it has yet to write to. -/
structure State (C H : Type*) (n : ℕ) where
  core : Server.State C n
  routeMap : UnorderedMap Bytes H
  routeRawMap : UnorderedMap Bytes H
  begun : Fin n → Bool
  responses : List (C × UInt32)
  publishing : ℕ → Option (PushContent × List C)
  written : List (C × Frame)

variable {C H : Type*} {M D : Type} {n : ℕ}

def initial : State C H n :=
  ⟨Server.initial, .empty, .empty, fun _ => false, [], fun _ => none, []⟩

/-- A handler's answer is a `setResponse` on the `r`-th response object. `session` is what
`get_session_id` returns, `none` if it throws. -/
inductive Action (C H : Type*) (M : Type) (n : ℕ)
  | core (a : Server.Action C n)
  | bind (protocol : Bytes) (func : H)
  | unbind (protocol : Bytes)
  | bindRaw (protocol : Bytes) (func : H)
  | unbindRaw (protocol : Bytes)
  | call (w : Fin n) (session : Option Bytes)
  | setResponse (r : ℕ) (message : Option M)
  | setResponseRaw (r : ℕ) (rawData : Bytes)
  | publish (t : ℕ) (topicName : Bytes) (message : Option M)
  | publishRaw (t : ℕ) (topicName message : Bytes)
  | push (t : ℕ) (expired : Bool)
  | endPublish (t : ℕ)

def asyncWrite (s : State C H n) (c : C) (frame : Frame) : State C H n :=
  { s with written := s.written ++ [(c, frame)] }

def answer (s : State C H n) (c : C) (work : Work Unit) : State C H n :=
  { s with written := s.written ++ (work.output ⟨[], false⟩).written.map fun r => (c, .response r) }

def IsCall (content : RequestContent) : Prop :=
  content.flag.type = .rpcClient ∨ content.flag.type = .asyncRpcClient

instance (content : RequestContent) : Decidable (IsCall content) :=
  inferInstanceAs (Decidable (_ ∨ _))

def route (s : State C H n) (table : UnorderedMap Bytes H) (c : C) (content : RequestContent) :
    State C H n :=
  if table.contains content.protocol then
    { s with responses := s.responses ++ [(c, content.callId)] }
  else asyncWrite s c (.response ⟨content.callId, .routeFailed, [], []⟩)

/-- `server::rpc_coming`. What throws before the handler is called closes the connection and
writes nothing. -/
def rpcComing (pb : Protobuf M D) (s : State C H n) (c : C) (content : RequestContent)
    (session : Option Bytes) : State C H n :=
  if content.flag.mode = .serialize then
    match pb.deserialize content.messageName content.body, session with
    | .ok _, some _ => route s s.routeMap c content
    | _, _ => s
  else if content.flag.mode = .nonSerialize then
    match session with
    | some _ => route s s.routeRawMap c content
    | none => s
  else s

def Returns (s : State C H n) : Server.Action C n → Prop
  | .execute w _ => ∀ task ∈ s.core.pool.running w, IsCall task.2 → s.begun w = true
  | _ => True

instance (s : State C H n) : (a : Server.Action C n) → Decidable (Returns s a)
  | .execute w _ => inferInstanceAs (Decidable (∀ task ∈ s.core.pool.running w,
      IsCall task.2 → s.begun w = true))
  | .accept _ _ | .headRead _ | .headFailed _ _ | .contentRead _ _ | .contentFailed _ _ | .take _ =>
    .isTrue trivial

def ended (begun : Fin n → Bool) : Server.Action C n → Fin n → Bool
  | .execute w _ => Function.update begun w false
  | _ => begun

def publishContent (pb : Protobuf M D) (topicName : Bytes) (message : Option M) :
    Except String PushContent := do
  let checked ← pb.checkMessage message
  let body ← pb.serialize message
  return ⟨.serialize, topicName, pb.fullName checked, body⟩

def publishRawContent (topicName message : Bytes) : PushContent :=
  ⟨.nonSerialize, topicName, [], message⟩

/-- A thread enters `publish_impl`, which copies the topic's connections. -/
def publishImpl (s : State C H n) (t : ℕ) (content : PushContent) : Option (State C H n) :=
  match s.publishing t with
  | none =>
    let conns := s.core.topics.getConnectionByTopic content.protocol
    some { s with publishing := Function.update s.publishing t (some (content, conns)) }
  | some _ => none

def pushNext (s : State C H n) (t : ℕ) (expired : Bool) : Option (State C H n) :=
  match s.publishing t with
  | some (content, c :: rest) =>
    let s' := { s with publishing := Function.update s.publishing t (some (content, rest)) }
    some (if expired then s' else asyncWrite s' c (.push content))
  | _ => none

def endPublish (s : State C H n) (t : ℕ) : Option (State C H n) :=
  match s.publishing t with
  | some (_, []) => some { s with publishing := Function.update s.publishing t none }
  | _ => none

variable [DecidableEq C] in
def step (pb : Protobuf M D) (s : State C H n) : Action C H M n → Option (State C H n)
  | .core a =>
    if Returns s a then
      (Server.step s.core a).map fun core => { s with core := core, begun := ended s.begun a }
    else none
  | .bind protocol func => some { s with routeMap := (s.routeMap.replace protocol func).1 }
  | .unbind protocol => some { s with routeMap := s.routeMap.erase protocol }
  | .bindRaw protocol func => some { s with routeRawMap := (s.routeRawMap.replace protocol func).1 }
  | .unbindRaw protocol => some { s with routeRawMap := s.routeRawMap.erase protocol }
  | .call w session =>
    match s.core.pool.running w with
    | some (c, content) =>
      if IsCall content ∧ s.begun w = false then
        some (rpcComing pb { s with begun := Function.update s.begun w true } c content session)
      else none
    | none => none
  -- a handler may keep its response object, and answer again or when it has returned
  | .setResponse r message =>
    (s.responses[r]?).map fun rsp => answer s rsp.1 (Dispatch.setResponse pb rsp.2 message)
  | .setResponseRaw r rawData =>
    (s.responses[r]?).map fun rsp => answer s rsp.1 (Dispatch.setResponseRaw rsp.2 rawData)
  -- a message that cannot be serialized makes `publish` throw before it does anything
  | .publish t topicName message =>
    match publishContent pb topicName message with
    | .ok content => publishImpl s t content
    | .error _ => some s
  | .publishRaw t topicName message => publishImpl s t (publishRawContent topicName message)
  | .push t expired => pushNext s t expired
  | .endPublish t => endPublish s t

def Subscriber (s : Server.State C n) (c : C) : Prop :=
  ∃ content, (c, content) ∈ s.routed ∧ content.flag.type = .subClient

def Caller (s : Server.State C n) (c : C) : Prop :=
  ∃ content, (c, content) ∈ s.routed ∧ IsCall content

/-- The pool has only requests that were received, and the table only connections that have
sent a request of a subscriber. -/
structure CoreInv (s : Server.State C n) : Prop where
  tasks : ∀ task, Unfinished s.pool task → task ∈ s.routed
  topics : ∀ e ∈ s.topics.topicMap, Subscriber s e.2

theorem initial_core : CoreInv (Server.initial : Server.State C n) where
  tasks task h := by simp [Server.initial, Unfinished, WorkPool.empty] at h
  topics e he := by cases he

theorem Subscriber.mono {s t : Server.State C n} {c : C} (h : Subscriber s c)
    (hr : s.routed ⊆ t.routed) : Subscriber t c :=
  let ⟨content, hm, htype⟩ := h
  ⟨content, hr hm, htype⟩

theorem Caller.mono {s t : Server.State C n} {c : C} (h : Caller s c) (hr : s.routed ⊆ t.routed) :
    Caller t c :=
  let ⟨content, hm, hcall⟩ := h
  ⟨content, hr hm, hcall⟩

/-- The connection has sent a request of the kind that the frame goes with. -/
def Entitled (s : Server.State C n) (c : C) : Frame → Prop
  | .response _ => Caller s c
  | .push _ => Subscriber s c

theorem Entitled.mono {s t : Server.State C n} {c : C} {frame : Frame} (h : Entitled s c frame)
    (hr : s.routed ⊆ t.routed) : Entitled t c frame := by
  cases frame with
  | response content => exact Caller.mono h hr
  | push content => exact Subscriber.mono h hr

/-- Response objects are of callers, publishers write to subscribers, and so is what has been
written. -/
structure Inv (s : State C H n) : Prop where
  core : CoreInv s.core
  responses : ∀ rsp ∈ s.responses, Caller s.core rsp.1
  publishing : ∀ t call, s.publishing t = some call → ∀ c ∈ call.2, Subscriber s.core c
  written : ∀ e ∈ s.written, Entitled s.core e.1 e.2

theorem initial_inv : Inv (initial : State C H n) where
  core := initial_core
  responses rsp h := by cases h
  publishing t call h := by cases h
  written e h := by cases h

theorem Inv.asyncWrite {s : State C H n} (hs : Inv s) {c : C} {frame : Frame}
    (h : Entitled s.core c frame) : Inv (asyncWrite s c frame) where
  core := hs.core
  responses := hs.responses
  publishing := hs.publishing
  written e he := by
    rcases List.mem_append.mp he with he | he
    · exact hs.written e he
    · obtain rfl := List.mem_singleton.mp he
      exact h

theorem Inv.answer {s : State C H n} (hs : Inv s) {c : C} (h : Caller s.core c) (work : Work Unit) :
    Inv (answer s c work) where
  core := hs.core
  responses := hs.responses
  publishing := hs.publishing
  written e he := by
    rcases List.mem_append.mp he with he | he
    · exact hs.written e he
    · obtain ⟨r, -, rfl⟩ := List.mem_map.mp he
      exact h

theorem Inv.route {s : State C H n} (hs : Inv s) (table : UnorderedMap Bytes H) {c : C}
    {content : RequestContent} (h : Caller s.core c) : Inv (route s table c content) := by
  unfold ServerWrites.route
  split
  · refine ⟨hs.core, ?_, hs.publishing, hs.written⟩
    intro rsp hrsp
    rcases List.mem_append.mp hrsp with hrsp | hrsp
    · exact hs.responses rsp hrsp
    · obtain rfl := List.mem_singleton.mp hrsp
      exact h
  · exact hs.asyncWrite h

theorem Inv.rpcComing {pb : Protobuf M D} {s : State C H n} (hs : Inv s) {c : C}
    {content : RequestContent} (h : Caller s.core c) (session : Option Bytes) :
    Inv (rpcComing pb s c content session) := by
  unfold ServerWrites.rpcComing
  split_ifs
  · split
    · exact hs.route _ h
    · exact hs
  · split
    · exact hs.route _ h
    · exact hs
  · exact hs

theorem Inv.setPublishing {s : State C H n} (hs : Inv s) (t : ℕ) {call : Option (PushContent × List C)}
    (h : ∀ entered, call = some entered → ∀ c ∈ entered.2, Subscriber s.core c) :
    Inv { s with publishing := Function.update s.publishing t call } := by
  refine ⟨hs.core, hs.responses, ?_, hs.written⟩
  intro u entered hu
  by_cases hut : u = t
  · subst u
    simp only [Function.update_self] at hu
    exact h entered hu
  · simp only [Function.update_of_ne hut] at hu
    exact hs.publishing u entered hu

theorem publishImpl_inv {s s' : State C H n} (hs : Inv s) {t : ℕ} (content : PushContent)
    (h : publishImpl s t content = some s') : Inv s' := by
  unfold publishImpl at h
  split at h
  · obtain rfl := Option.some.inj h
    refine hs.setPublishing t ?_
    intro entered hentered c hc
    obtain rfl := Option.some.inj hentered
    obtain ⟨e, he, rfl⟩ := List.mem_map.mp hc
    exact hs.core.topics e (List.mem_of_mem_filter he)
  · cases h

theorem pushNext_inv {s s' : State C H n} (hs : Inv s) {t : ℕ} {expired : Bool}
    (h : pushNext s t expired = some s') : Inv s' := by
  unfold pushNext at h
  split at h
  · rename_i content c rest ht
    obtain rfl := Option.some.inj h
    have hsub := hs.publishing t _ ht
    have hrest : Inv { s with publishing := Function.update s.publishing t (some (content, rest)) } := by
      refine hs.setPublishing t ?_
      intro entered hentered d hd
      obtain rfl := Option.some.inj hentered
      exact hsub d (List.mem_cons_of_mem _ hd)
    cases expired with
    | true => exact hrest
    | false => exact hrest.asyncWrite (hsub c List.mem_cons_self)
  · cases h

theorem endPublish_inv {s s' : State C H n} (hs : Inv s) {t : ℕ} (h : endPublish s t = some s') :
    Inv s' := by
  unfold endPublish at h
  split at h
  · obtain rfl := Option.some.inj h
    exact hs.setPublishing t (fun entered he => by cases he)
  · cases h

variable [DecidableEq C]

theorem routed_subset {s t : Server.State C n} {a : Server.Action C n}
    (h : Server.step s a = some t) : s.routed ⊆ t.routed := by
  cases Server.step_effect h with
  | accept | headRead | take | execute => exact List.Subset.refl _
  | headFailed | contentFailed =>
    rw [Server.handleError_routed]
    exact List.Subset.refl _
  | contentRead => exact List.subset_append_left _ _

theorem mem_routerThread {alive : C → Bool} {tm : TopicManager C} {content : RequestContent} {c : C}
    {e : Bytes × C} (h : e ∈ (tm.routerThread alive content c).topicMap) :
    e ∈ tm.topicMap ∨ e.2 = c ∧ content.flag.type = .subClient := by
  unfold TopicManager.routerThread at h
  split_ifs at h with hcall hsub
  · exact Or.inl h
  · unfold TopicManager.subscriberComing at h
    split_ifs at h
    · unfold TopicManager.addTopic at h
      split_ifs at h
      · exact Or.inl h
      · rcases List.mem_append.mp h with h | h
        · exact Or.inl h
        · obtain rfl := List.mem_singleton.mp h
          exact Or.inr ⟨rfl, hsub⟩
    · exact Or.inl (List.mem_of_mem_filter h)
    · exact Or.inl h
  · exact Or.inl h

theorem mem_handleError {s : Server.State C n} {c : C} {type : ClientType} {expired : List C}
    {e : Bytes × C} (h : e ∈ (Server.handleError s c type expired).topics.topicMap) :
    e ∈ s.topics.topicMap := by
  unfold Server.handleError at h
  split_ifs at h
  · exact List.mem_of_mem_filter h
  · exact h

theorem step_core {s t : Server.State C n} {a : Server.Action C n} (hs : CoreInv s)
    (h : Server.step s a = some t) : CoreInv t := by
  have hr := routed_subset h
  cases Server.step_effect h with
  | accept | headRead => exact ⟨hs.tasks, hs.topics⟩
  | headFailed hc he | contentFailed hc he =>
    refine ⟨?_, ?_⟩
    · intro task htask
      rw [Server.handleError_pool] at htask
      exact hr (hs.tasks task htask)
    · intro e hm
      have hbefore := mem_handleError hm
      exact (hs.topics e hbefore).mono hr
  | contentRead hc =>
    refine ⟨?_, fun e hm => (hs.topics e hm).mono hr⟩
    intro task htask
    rcases (unfinished_addTask _ _ _).mp htask with htask | rfl
    · exact hr (hs.tasks task htask)
    · exact List.mem_append_right _ List.mem_cons_self
  | take hp => exact ⟨fun task htask => hs.tasks task ((unfinished_take hp task).mp htask), hs.topics⟩
  | execute hp he =>
    have hdone := hs.tasks _ (Or.inr ⟨_, (finish_eq_some hp).1⟩)
    refine ⟨fun task htask => hs.tasks task ((unfinished_finish hp task).mpr (Or.inl htask)), ?_⟩
    intro e hm
    rcases mem_routerThread hm with hm | ⟨hc, htype⟩
    · exact hs.topics e hm
    · exact ⟨_, hc ▸ hdone, htype⟩

theorem core_inv {s : State C H n} (hs : Inv s) {a : Server.Action C n} {core : Server.State C n}
    (h : Server.step s.core a = some core) (begun : Fin n → Bool) :
    Inv { s with core := core, begun := begun } := by
  have hr := routed_subset h
  exact ⟨step_core hs.core h, fun rsp hrsp => (hs.responses rsp hrsp).mono hr,
    fun t call ht c hc => (hs.publishing t call ht c hc).mono hr,
    fun e he => (hs.written e he).mono hr⟩

theorem call_inv {pb : Protobuf M D} {s s' : State C H n} (hs : Inv s) {w : Fin n}
    {session : Option Bytes} (h : step pb s (.call w session) = some s') : Inv s' := by
  simp only [step] at h
  split at h
  · rename_i c content hw
    split_ifs at h with hcall
    obtain rfl := Option.some.inj h
    have hcaller : Caller s.core c := ⟨content, hs.core.tasks _ (Or.inr ⟨w, hw⟩), hcall.1⟩
    have hbegun : Inv { s with begun := Function.update s.begun w true } :=
      ⟨hs.core, hs.responses, hs.publishing, hs.written⟩
    exact hbegun.rpcComing hcaller session
  · cases h

theorem step_inv {pb : Protobuf M D} {s s' : State C H n} {a : Action C H M n} (hs : Inv s)
    (h : step pb s a = some s') : Inv s' := by
  cases a with
  | core a =>
    simp only [step] at h
    split_ifs at h
    obtain ⟨core, hcore, rfl⟩ := Option.map_eq_some_iff.mp h
    exact core_inv hs hcore _
  | bind | unbind | bindRaw | unbindRaw =>
    obtain rfl := Option.some.inj h
    exact ⟨hs.core, hs.responses, hs.publishing, hs.written⟩
  | call w session => exact call_inv hs h
  | setResponse r message =>
    obtain ⟨rsp, hrsp, rfl⟩ := Option.map_eq_some_iff.mp h
    exact hs.answer (hs.responses rsp (List.mem_of_getElem? hrsp)) _
  | setResponseRaw r rawData =>
    obtain ⟨rsp, hrsp, rfl⟩ := Option.map_eq_some_iff.mp h
    exact hs.answer (hs.responses rsp (List.mem_of_getElem? hrsp)) _
  | publish t topicName message =>
    simp only [step] at h
    split at h
    · exact publishImpl_inv hs _ h
    · obtain rfl := Option.some.inj h
      exact hs
  | publishRaw t topicName message =>
    exact publishImpl_inv hs (publishRawContent topicName message) h
  | push t expired => exact pushNext_inv hs h
  | endPublish t => exact endPublish_inv hs h

theorem isCall_not_subClient {content : RequestContent} (h : IsCall content) :
    content.flag.type ≠ .subClient := by
  rcases h with h | h <;> rw [h] <;> decide

/-- In every run of the server, a connection that has sent only requests of a subscriber is
written only pushes, and a connection that has sent none is written only responses. -/
theorem frames_not_mixed (pb : Protobuf M D) {as : List (Action C H M n)} {s : State C H n}
    (hr : run (step pb) initial as = some s) {c : C} {frame : Frame} (hf : (c, frame) ∈ s.written) :
    ((∀ content, (c, content) ∈ s.core.routed → content.flag.type = .subClient) →
      ∃ content, frame = .push content) ∧
    ((∀ content, (c, content) ∈ s.core.routed → content.flag.type ≠ .subClient) →
      ∃ content, frame = .response content) := by
  have hinv : Inv s := run_invariant (fun _ _ _ => step_inv) initial_inv hr
  have hentitled := hinv.written _ hf
  cases frame with
  | response content =>
    refine ⟨?_, fun _ => ⟨content, rfl⟩⟩
    intro honly
    obtain ⟨sent, hm, hcall⟩ := hentitled
    exact absurd (honly sent hm) (isCall_not_subClient hcall)
  | push content =>
    refine ⟨fun _ => ⟨content, rfl⟩, ?_⟩
    intro hnone
    obtain ⟨sent, hm, hsub⟩ := hentitled
    exact absurd hsub (hnone sent hm)

def noMessages : Protobuf Empty Empty :=
  ⟨Empty.elim, Empty.elim, Empty.elim, fun _ => none, Empty.elim, Empty.elim⟩

/-- Connection 0 subscribes and connection 1 calls; the handler answers twice, and once after
it has returned. -/
def twoConnections : List (Action ℕ Unit Empty 1) :=
  [.core (.accept 0 ⟨7⟩), .core (.headRead 0),
    .core (.contentRead 0 ⟨0, ⟨.serialize, .subClient⟩, [116], [], subscribeTopicFlag⟩),
    .core (.take WorkPool.soleWorker), .core (.execute WorkPool.soleWorker []), .bindRaw [101] (),
    .core (.accept 1 ⟨7⟩), .core (.headRead 1), .core (.contentRead 1 ⟨5, ⟨.nonSerialize, .rpcClient⟩, [101], [], [1]⟩),
    .core (.take WorkPool.soleWorker), .call WorkPool.soleWorker (some []), .setResponseRaw 0 [2],
    .core (.execute WorkPool.soleWorker []),
    .setResponseRaw 0 [3], .publishRaw 0 [116] [4], .push 0 false, .endPublish 0]

theorem frames_not_mixed_two_connections :
    ∃ s : State ℕ Unit 1, run (step noMessages) initial twoConnections = some s ∧
      s.written.map Prod.fst = [1, 1, 0] ∧
      ∀ frame, (0, frame) ∈ s.written → ∃ content, frame = .push content := by
  have hrun : (run (step noMessages) (initial : State ℕ Unit 1) twoConnections).map (fun s =>
      (s.written.map Prod.fst, (requestsOf 0 s.core.routed).map fun r => r.flag.type)) =
        some ([1, 1, 0], [.subClient]) := by decide
  obtain ⟨s, hs, he⟩ := Option.map_eq_some_iff.mp hrun
  obtain ⟨hconns, htypes⟩ := Prod.mk.inj he
  refine ⟨s, hs, hconns, ?_⟩
  intro frame hf
  refine (frames_not_mixed noMessages hs hf).1 ?_
  intro content hm
  have htype : content.flag.type ∈ (requestsOf 0 s.core.routed).map fun r => r.flag.type :=
    List.mem_map.mpr ⟨content, (mem_requestsOf 0 content _).mpr hm, rfl⟩
  rw [htypes] at htype
  exact List.mem_singleton.mp htype

end Czrpc.ServerWrites
