import Czrpc.Dispatch
import Czrpc.Reconnection
import Czrpc.SubClient

/-! A `sub_client` with its pool thread, and the server that it is connected to, from the call of
`subscribe` to the handler of a push, and what holds of a topic before the first call on it.
Requests and pushes travel whole, and pushes in order. The workers of the server may take the
requests in any order. -/
namespace Czrpc.Subscribing
open Execution Framing Protocol Subscriptions
open Dispatch (Protobuf)
open Reconnection (remaining)

variable {F G : Type*} {M D : Type}

/-- How a task of the pool ends: a handler has been called, the topic has none, or the message
cannot be deserialized. -/
inductive Outcome
  | handled
  | routeFailed
  | thrown
  deriving DecidableEq, Repr

def routerThread (pb : Protobuf M D) (r : SubRouter F G) (content : PushContent) : Outcome :=
  if content.mode = .serialize then
    match pb.deserialize content.messageName content.body with
    | .ok _ => if r.isBind content.protocol then .handled else .routeFailed
    | .error _ => .thrown
  else if content.mode = .nonSerialize then
    if r.isBindRaw content.protocol then .handled else .routeFailed
  else .routeFailed

/-- `conn` names the client's last connection, and `up` tells whether it still carries bytes.
`inbox` are the requests that the server has yet to process, with their connections, and
`publishing` the calls of `publish`, each with the connections it has yet to write to. `called`
are the calls of the client's users, and `routed` the tasks that its pool thread has run. -/
structure State (F G : Type*) where
  client : SubClient.State F G
  conn : ℕ
  up : Bool
  inbox : List (ℕ × RequestContent)
  topics : TopicManager ℕ
  publishing : List (PushContent × List ℕ)
  toClient : List PushContent
  called : List (Op F G)
  routed : List (PushContent × Outcome)

def initial : State F G := ⟨SubClient.initial, 0, false, [], .empty, [], [], [], []⟩

inductive Action (F G : Type*)
  | client (a : SubClient.Action F G)
  | route
  | lost
  | serve (j : ℕ) (expired : List ℕ)
  | serverHandleError (c : ℕ) (expired : List ℕ)
  | publish (content : PushContent)
  | push (j : ℕ)

def connected (s : State F G) : State F G := { s with conn := s.conn + 1, up := true, toClient := [] }

/-- What a step of the client does outside of it: a write that succeeds puts its request on the
connection, and a content read that succeeds takes the next push off it. -/
def network (s : State F G) : SubClient.Action F G → Option (State F G)
  | .run => some (connected s)
  | .call op => some { s with called := s.called ++ [op] }
  | .complete (.content _ ec content) =>
    if ec then some s
    else if s.toClient.head? = some content then some { s with toClient := s.toClient.tail }
    else none
  | .complete (.connect _ result) => some (if result = .ok then connected s else s)
  | .writeDone i ec =>
    (s.client.send.writing[i]?).map fun content =>
      if ec = false ∧ s.up = true then { s with inbox := s.inbox ++ [(s.conn, content)] } else s
  | .complete (.head _ _) | .update _ | .runRetry | .ioRetry | .runPosted => some s

/-- The pool has one thread, which runs the tasks in their order. -/
def step (pb : Protobuf M D) (isResend : Bool) (s : State F G) : Action F G → Option (State F G)
  | .client a =>
    (network s a).bind fun t =>
      (SubClient.step isResend s.client a).map fun client => { t with client := client }
  | .route =>
    (s.client.pushes[s.routed.length]?).map fun content =>
      { s with routed := s.routed ++ [(content, routerThread pb s.client.router content)] }
  | .lost => some { s with up := false }
  | .serve j expired =>
    match s.inbox[j]? with
    | some (c, content) =>
      if c ∈ expired then none
      else some { s with
        inbox := s.inbox.eraseIdx j
        topics := s.topics.routerThread (fun c => c ∉ expired) content c }
    | none => none
  | .serverHandleError c expired =>
    if c ∈ expired then none
    else some { s with topics := s.topics.removeAllTopic (fun c => c ∉ expired) c }
  | .publish content =>
    some { s with
      publishing := s.publishing ++ [(content, s.topics.getConnectionByTopic content.protocol)] }
  | .push j =>
    match s.publishing[j]? with
    | some (content, c :: conns) =>
      some { s with
        publishing := s.publishing.set j (content, conns)
        -- a push to a connection that is lost is lost with it
        toClient := if c = s.conn ∧ s.up = true then s.toClient ++ [content] else s.toClient }
    | _ => none

structure ClientClean (t : Bytes) (s : SubClient.State F G) : Prop where
  unbound : ∀ raw, s.router.bound raw t = false
  inProgress : ∀ op ∈ s.inProgress, op.topic ≠ t
  send : s.send.All fun content => content.protocol ≠ t
  runRetry : t ∉ remaining s.runRetry
  ioRetry : t ∉ remaining s.ioRetry
  pushes : ∀ content ∈ s.pushes, content.protocol ≠ t

/-- The topic does not occur at all, except in a `publish` that writes to no connection. -/
structure Clean (t : Bytes) (s : State F G) : Prop where
  client : ClientClean t s.client
  inbox : ∀ e ∈ s.inbox, e.2.protocol ≠ t
  topics : ∀ c, s.topics.holds c t = false
  publishing : ∀ e ∈ s.publishing, e.1.protocol = t → e.2 = []
  toClient : ∀ content ∈ s.toClient, content.protocol ≠ t
  called : ∀ op ∈ s.called, op.topic ≠ t

theorem initial_clean (t : Bytes) : Clean t (initial : State F G) where
  client := ⟨by intro raw; cases raw <;> rfl, nofun, ⟨nofun, nofun, nofun⟩, nofun, nofun, nofun⟩
  inbox := nofun
  topics c := TopicManager.holds_empty c t
  publishing := nofun
  toClient := nofun
  called := nofun

theorem not_mem_keys_of_unbound {r : SubRouter F G} {t : Bytes} (h : ∀ raw, r.bound raw t = false) :
    t ∉ r.routeMap.keys ∧ t ∉ r.routeRawMap.keys := by
  have hm : r.routeMap.contains t = false := h false
  have hraw : r.routeRawMap.contains t = false := h true
  simp [UnorderedMap.mem_keys_iff, hm, hraw]

theorem retryStep_clean {r : SubRouter F G} {send send' : SendQueue.State RequestContent}
    {retry retry' : Retry} {t : Bytes} (h : retryStep r send retry = some (send', retry'))
    (hr : ∀ raw, r.bound raw t = false) (hsend : send.All fun content => content.protocol ≠ t)
    (hretry : t ∉ remaining retry) :
    (send'.All fun content => content.protocol ≠ t) ∧ t ∉ remaining retry' := by
  obtain ⟨hkeys, hrawKeys⟩ := not_mem_keys_of_unbound hr
  unfold retryStep at h
  split at h
  · cases h
  · obtain ⟨rfl, rfl⟩ := Prod.mk.inj (Option.some.inj h)
    exact ⟨hsend, hkeys⟩
  · obtain ⟨rfl, rfl⟩ := Prod.mk.inj (Option.some.inj h)
    exact ⟨hsend, fun hm => (List.mem_append.mp hm).elim hretry hrawKeys⟩
  · obtain ⟨rfl, rfl⟩ := Prod.mk.inj (Option.some.inj h)
    exact ⟨hsend, nofun⟩
  · obtain ⟨rfl, rfl⟩ := Prod.mk.inj (Option.some.inj h)
    refine ⟨SendQueue.all_post hsend fun he => hretry ?_, fun hm => hretry (List.mem_cons_of_mem _ hm)⟩
    have he : _ = t := he
    rw [← he]
    exact List.mem_cons_self

theorem bound_update_of_ne {r : SubRouter F G} {op : Op F G} {t : Bytes} (hop : op.topic ≠ t)
    (raw : Bool) : (op.update r).bound raw t = r.bound raw t := by
  rw [bound_update, written_callsIn_single, if_neg fun h => hop h.2]

theorem client_clean {isResend : Bool} {s s' : SubClient.State F G} {a : SubClient.Action F G}
    {t : Bytes} (hs : ClientClean t s) (hcall : ∀ op, a = .call op → op.topic ≠ t)
    (hread : ∀ i content, a = .complete (.content i false content) → content.protocol ≠ t)
    (h : SubClient.step isResend s a = some s') : ClientClean t s' := by
  cases SubClient.step_effect h with
  | run => exact { hs with runRetry := nofun }
  | @call op =>
    have hop := hcall op rfl
    have hrequest : op.request.protocol ≠ t := by cases op <;> exact hop
    exact { hs with
      send := SendQueue.all_post hs.send hrequest
      inProgress := List.forall_mem_append.mpr ⟨hs.inProgress, List.forall_mem_singleton.mpr hop⟩ }
  | @update j op hop =>
    have hne : op.topic ≠ t := hs.inProgress op (List.mem_of_getElem? hop)
    exact { hs with
      unbound := fun raw => (bound_update_of_ne hne raw).trans (hs.unbound raw)
      inProgress := fun op hop => hs.inProgress op (List.mem_of_mem_eraseIdx hop) }
  | runRetry hr =>
    obtain ⟨hsend, hretry⟩ := retryStep_clean hr hs.unbound hs.send hs.runRetry
    exact { hs with send := hsend, runRetry := hretry }
  | ioRetry hr =>
    obtain ⟨hsend, hretry⟩ := retryStep_clean hr hs.unbound hs.send hs.ioRetry
    exact { hs with send := hsend, ioRetry := hretry }
  | @complete c chain event hc =>
    cases event with
    | none => exact { hs with }
    | started => exact { hs with ioRetry := nofun }
    | frame content =>
      obtain ⟨i, rfl⟩ := IoChain.content_of_frame hc
      have hne := hread i content rfl
      exact { hs with
        pushes := List.forall_mem_append.mpr ⟨hs.pushes, List.forall_mem_singleton.mpr hne⟩ }
  | runPosted hr => exact { hs with send := SendQueue.all_runPosted hs.send hr }
  | writeDone hc => exact { hs with send := SendQueue.all_complete hs.send hc }

theorem network_clean {s u : State F G} {a : SubClient.Action F G} {t : Bytes} (hs : Clean t s)
    (hcall : ∀ op, a = .call op → op.topic ≠ t) (h : network s a = some u) :
    Clean t u ∧ ∀ i content, a = .complete (.content i false content) → content.protocol ≠ t := by
  have hconnected : Clean t (connected s) := { hs with toClient := nofun }
  cases a with
  | run =>
    obtain rfl := Option.some.inj h
    exact ⟨hconnected, nofun⟩
  | call op =>
    obtain rfl := Option.some.inj h
    have hcalled : ∀ op' ∈ s.called ++ [op], op'.topic ≠ t :=
      List.forall_mem_append.mpr ⟨hs.called, List.forall_mem_singleton.mpr (hcall op rfl)⟩
    exact ⟨{ hs with called := hcalled }, nofun⟩
  | complete c =>
    cases c with
    | head i ec =>
      obtain rfl := Option.some.inj h
      exact ⟨hs, nofun⟩
    | content i ec content =>
      simp only [network] at h
      split_ifs at h with hec hhead
      · obtain rfl := Option.some.inj h
        refine ⟨hs, ?_⟩
        rintro i' content' ⟨⟩
        cases hec
      · obtain rfl := Option.some.inj h
        have hne := hs.toClient content (List.mem_of_mem_head? hhead)
        refine ⟨{ hs with toClient := fun b hb => hs.toClient b (List.mem_of_mem_tail hb) }, ?_⟩
        rintro i' content' ⟨⟩
        exact hne
    | connect i result =>
      obtain rfl := Option.some.inj h
      refine ⟨?_, nofun⟩
      split_ifs
      · exact hconnected
      · exact hs
  | writeDone i ec =>
    obtain ⟨content, hcontent, rfl⟩ := Option.map_eq_some_iff.mp h
    refine ⟨?_, nofun⟩
    have hne := hs.client.send.writing content (List.mem_of_getElem? hcontent)
    split_ifs
    · exact { hs with inbox := List.forall_mem_append.mpr ⟨hs.inbox, List.forall_mem_singleton.mpr hne⟩ }
    · exact hs
  | _ =>
    obtain rfl := Option.some.inj h
    exact ⟨hs, nofun⟩

theorem step_clean {pb : Protobuf M D} {isResend : Bool} {s s' : State F G} {a : Action F G} {t : Bytes}
    (hs : Clean t s) (hcall : ∀ op, a = .client (.call op) → op.topic ≠ t)
    (h : step pb isResend s a = some s') : Clean t s' := by
  cases a with
  | client a =>
    obtain ⟨u, hu, h⟩ := Option.bind_eq_some_iff.mp h
    obtain ⟨client, hclient, rfl⟩ := Option.map_eq_some_iff.mp h
    have hcall' : ∀ op, a = .call op → op.topic ≠ t := fun op ha => hcall op (by rw [ha])
    obtain ⟨hclean, hread⟩ := network_clean hs hcall' hu
    exact { hclean with client := client_clean hs.client hcall' hread hclient }
  | route =>
    obtain ⟨content, -, rfl⟩ := Option.map_eq_some_iff.mp h
    exact { hs with }
  | lost =>
    obtain rfl := Option.some.inj h
    exact { hs with }
  | serve j expired =>
    simp only [step] at h
    split at h
    · rename_i c content hj
      split_ifs at h with hc
      obtain rfl := Option.some.inj h
      have hne : content.protocol ≠ t := hs.inbox (c, content) (List.mem_of_getElem? hj)
      refine { hs with inbox := fun e he => hs.inbox e (List.mem_of_mem_eraseIdx he), topics := ?_ }
      intro c'
      rw [TopicManager.holds_routerThread_of_ne (by simpa using hc) _ hne]
      exact hs.topics c'
    · cases h
  | serverHandleError c expired =>
    simp only [step] at h
    split_ifs at h with hc
    obtain rfl := Option.some.inj h
    refine { hs with topics := ?_ }
    intro c'
    rw [TopicManager.holds_removeAllTopic (by simpa using hc), hs.topics c', Bool.false_and]
  | publish content =>
    obtain rfl := Option.some.inj h
    refine { hs with publishing := List.forall_mem_append.mpr ⟨hs.publishing, ?_⟩ }
    refine List.forall_mem_singleton.mpr fun hcontent => ?_
    have hcontent : content.protocol = t := hcontent
    rw [hcontent]
    exact TopicManager.getConnectionByTopic_eq_nil hs.topics
  | push j =>
    simp only [step] at h
    split at h
    · rename_i content c conns hj
      obtain rfl := Option.some.inj h
      have hmem : (content, c :: conns) ∈ s.publishing := List.mem_of_getElem? hj
      have hne : content.protocol ≠ t := fun he => by cases hs.publishing _ hmem he
      refine { hs with publishing := ?_, toClient := ?_ }
      · intro e he hprotocol
        rcases List.mem_or_eq_of_mem_set he with he | rfl
        · exact hs.publishing e he hprotocol
        · exact absurd hprotocol hne
      · split_ifs
        · exact List.forall_mem_append.mpr ⟨hs.toClient, List.forall_mem_singleton.mpr hne⟩
        · exact hs.toClient
    · cases h

end Czrpc.Subscribing
