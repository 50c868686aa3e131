import Mathlib.Data.List.Forall2
import Czrpc.ServerWrites

/-! Which request a response answers. Every request that the server reads gets a tag, which
nothing in the server looks at. The tag goes with the request through the pool, to the
`response` object that the handler gets, and to what is written with it. -/
namespace Czrpc.Answers
open Execution Framing Protocol WorkPool ServerWrites
open Dispatch (Protobuf)

variable {C H τ : Type*} {M D : Type} {n : ℕ}

/-- `received` are the requests read so far, and the other lists go with the queue of the pool,
the workers, the response objects and the frames written. -/
structure State (C H : Type*) (n : ℕ) (τ : Type*) where
  server : ServerWrites.State C H n
  received : List ((C × RequestContent) × τ)
  waiting : List τ
  running : Fin n → Option τ
  origins : List τ
  answered : List (Option τ)

def initial : State C H n τ := ⟨ServerWrites.initial, [], [], fun _ => none, [], []⟩

/-- The tag of the request that an action answers. -/
def answering (s : State C H n τ) : ServerWrites.Action C H M n → Option τ
  | .call w _ => s.running w
  | .setResponse r _ | .setResponseRaw r _ => s.origins[r]?
  | _ => none

def arriving : ServerWrites.Action C H M n → Option (C × RequestContent)
  | .core (.contentRead c content) => some (c, content)
  | _ => none

def taking : ServerWrites.Action C H M n → Option (Fin n)
  | .core (.take w) => some w
  | _ => none

def waitingAfter (s : State C H n τ) (a : ServerWrites.Action C H M n) (tag : τ) : List τ :=
  match arriving a, taking a with
  | some _, _ => s.waiting ++ [tag]
  | _, some _ => s.waiting.tail
  | _, _ => s.waiting

def runningAfter (s : State C H n τ) (a : ServerWrites.Action C H M n) : Fin n → Option τ :=
  match taking a with
  | some w => Function.update s.running w s.waiting.head?
  | none => s.running

/-- A step of the server; `tag` is for the request it reads, if it reads one. -/
def step [DecidableEq C] (pb : Protobuf M D) (s : State C H n τ) (a : ServerWrites.Action C H M n)
    (tag : τ) : Option (State C H n τ) :=
  (ServerWrites.step pb s.server a).map fun server =>
    { server := server
      received := s.received ++ (arriving a).toList.map fun request => (request, tag)
      waiting := waitingAfter s a tag
      running := runningAfter s a
      origins := s.origins ++
        (server.responses.drop s.server.responses.length).filterMap fun _ => answering s a
      answered := s.answered ++
        (server.written.drop s.server.written.length).map fun _ => answering s a }

/-- An action answers a request of the connection with this id. -/
def Asks (s : ServerWrites.State C H n) : ServerWrites.Action C H M n → C → UInt32 → Prop
  | .call w _, c, id => ∃ content, s.core.pool.running w = some (c, content) ∧ content.callId = id
  | .setResponse r _, c, id | .setResponseRaw r _, c, id => s.responses[r]? = some (c, id)
  | _, _, _ => False

inductive Effect (s : ServerWrites.State C H n) [DecidableEq C] :
    ServerWrites.Action C H M n → ServerWrites.State C H n → Prop
  | core {a : Server.Action C n} {s' : ServerWrites.State C H n}
      (h : Server.step s.core a = some s'.core) (hr : s'.responses = s.responses)
      (hw : s'.written = s.written) : Effect s (.core a) s'
  | opened {a : ServerWrites.Action C H M n} {s' : ServerWrites.State C H n} {c : C} {id : UInt32}
      (ha : arriving a = none) (ht : taking a = none) (hasks : Asks s a c id)
      (hc : s'.core = s.core) (hr : s'.responses = s.responses ++ [(c, id)])
      (hw : s'.written = s.written) : Effect s a s'
  | wrote {a : ServerWrites.Action C H M n} {s' : ServerWrites.State C H n} {new : List (C × Frame)}
      (ha : arriving a = none) (ht : taking a = none) (hc : s'.core = s.core)
      (hr : s'.responses = s.responses) (hw : s'.written = s.written ++ new)
      (hnew : ∀ e ∈ new, ∀ rsp, e.2 = .response rsp → Asks s a e.1 rsp.callId) : Effect s a s'

theorem setResponse_callId (pb : Protobuf M D) (callId : UInt32) (message : Option M)
    {rsp : ResponseContent}
    (h : rsp ∈ ((Dispatch.setResponse pb callId message).output ⟨[], false⟩).written) :
    rsp.callId = callId := by
  cases message with
  | none => cases h
  | some message =>
    rw [Dispatch.setResponse] at h
    cases hbody : pb.serialize (some message) with
    | error e =>
      rw [hbody] at h
      cases h
    | ok body =>
      rw [hbody, Dispatch.Work.throwing_ok_bind] at h
      split_ifs at h
      · obtain rfl := List.mem_singleton.mp h
        rfl
      · cases h

theorem setResponseRaw_callId (callId : UInt32) (rawData : Bytes) {rsp : ResponseContent}
    (h : rsp ∈ ((Dispatch.setResponseRaw callId rawData).output ⟨[], false⟩).written) :
    rsp.callId = callId := by
  rw [Dispatch.output_setResponseRaw] at h
  split_ifs at h
  · cases h
  · obtain rfl := List.mem_singleton.mp h
    rfl

variable [DecidableEq C] {pb : Protobuf M D}

theorem Effect.quiet {s s' : ServerWrites.State C H n} {a : ServerWrites.Action C H M n}
    (ha : arriving a = none) (ht : taking a = none) (hc : s'.core = s.core)
    (hr : s'.responses = s.responses) (hw : s'.written = s.written) : Effect s a s' :=
  .wrote ha ht hc hr (by rw [hw, List.append_nil]) (by simp)

theorem route_effect {s s' : ServerWrites.State C H n} {a : ServerWrites.Action C H M n}
    (ha : arriving a = none) (ht : taking a = none) {c : C} {content : RequestContent}
    (hasks : Asks s a c content.callId) (hc : s'.core = s.core) (hr : s'.responses = s.responses)
    (hw : s'.written = s.written) (table : UnorderedMap Bytes H) :
    Effect s a (route s' table c content) := by
  unfold route
  split_ifs
  · exact .opened ha ht hasks hc (congrArg (· ++ [(c, content.callId)]) hr) hw
  · refine .wrote ha ht hc hr (congrArg (· ++ [(c, _)]) hw) ?_
    intro e he rsp hrsp
    obtain rfl := List.mem_singleton.mp he
    obtain rfl := Frame.response.inj hrsp
    exact hasks

theorem call_effect {s s' : ServerWrites.State C H n} {w : Fin n} {session : Option Bytes}
    (h : ServerWrites.step pb s (.call w session) = some s') :
    Effect s (.call w session : ServerWrites.Action C H M n) s' := by
  simp only [ServerWrites.step] at h
  split at h
  · rename_i c content hw
    split_ifs at h
    obtain rfl := Option.some.inj h
    have hasks : Asks s (.call w session : ServerWrites.Action C H M n) c content.callId :=
      ⟨content, hw, rfl⟩
    have hroute : ∀ table, Effect s (.call w session : ServerWrites.Action C H M n)
        (route { s with begun := Function.update s.begun w true } table c content) :=
      route_effect rfl rfl hasks rfl rfl rfl
    unfold rpcComing
    split_ifs
    · split
      · exact hroute _
      · exact .quiet rfl rfl rfl rfl rfl
    · split
      · exact hroute _
      · exact .quiet rfl rfl rfl rfl rfl
    · exact .quiet rfl rfl rfl rfl rfl
  · cases h

theorem step_effect {s s' : ServerWrites.State C H n} {a : ServerWrites.Action C H M n}
    (h : ServerWrites.step pb s a = some s') : Effect s a s' := by
  cases a with
  | core a =>
    simp only [ServerWrites.step] at h
    split_ifs at h
    obtain ⟨core, hcore, rfl⟩ := Option.map_eq_some_iff.mp h
    exact .core hcore rfl rfl
  | bind | unbind | bindRaw | unbindRaw =>
    obtain rfl := Option.some.inj h
    exact .quiet rfl rfl rfl rfl rfl
  | call w session => exact call_effect h
  | setResponse r message =>
    obtain ⟨rsp, hrsp, rfl⟩ := Option.map_eq_some_iff.mp h
    refine .wrote rfl rfl rfl rfl rfl ?_
    intro e he content hcontent
    obtain ⟨written, hwritten, rfl⟩ := List.mem_map.mp he
    obtain rfl := Frame.response.inj hcontent
    rw [setResponse_callId pb _ _ hwritten]
    exact hrsp
  | setResponseRaw r rawData =>
    obtain ⟨rsp, hrsp, rfl⟩ := Option.map_eq_some_iff.mp h
    refine .wrote rfl rfl rfl rfl rfl ?_
    intro e he content hcontent
    obtain ⟨written, hwritten, rfl⟩ := List.mem_map.mp he
    obtain rfl := Frame.response.inj hcontent
    rw [setResponseRaw_callId _ _ hwritten]
    exact hrsp
  | publish t topicName message =>
    simp only [ServerWrites.step] at h
    split at h
    · unfold publishImpl at h
      split at h
      · obtain rfl := Option.some.inj h
        exact .quiet rfl rfl rfl rfl rfl
      · cases h
    · obtain rfl := Option.some.inj h
      exact .quiet rfl rfl rfl rfl rfl
  | publishRaw t topicName message =>
    simp only [ServerWrites.step, publishImpl] at h
    split at h
    · obtain rfl := Option.some.inj h
      exact .quiet rfl rfl rfl rfl rfl
    · cases h
  | push t expired =>
    simp only [ServerWrites.step, pushNext] at h
    split at h
    · obtain rfl := Option.some.inj h
      cases expired with
      | true => exact .quiet rfl rfl rfl rfl rfl
      | false =>
        refine .wrote rfl rfl rfl rfl rfl ?_
        intro e he rsp hrsp
        obtain rfl := List.mem_singleton.mp he
        cases hrsp
    · cases h
  | endPublish t =>
    simp only [ServerWrites.step, endPublish] at h
    split at h
    · obtain rfl := Option.some.inj h
      exact .quiet rfl rfl rfl rfl rfl
    · cases h

def Tagged (s : State C H n τ) (c : C) (id : UInt32) (tag : τ) : Prop :=
  ∃ content, ((c, content), tag) ∈ s.received ∧ content.callId = id

/-- A frame that is a response has a tag of a request it can answer. -/
def Answered (s : State C H n τ) (e : C × Frame) (tag : Option τ) : Prop :=
  ∀ rsp, e.2 = .response rsp → ∃ t, tag = some t ∧ Tagged s e.1 rsp.callId t

/-- The tasks in the pool go with the tags of their requests. -/
structure PoolInv (s : State C H n τ) (pool : Pool n (C × RequestContent)) : Prop where
  waiting : List.Forall₂ (fun task tag => (task, tag) ∈ s.received) pool.queue s.waiting
  running : ∀ w task, pool.running w = some task →
    ∃ tag, s.running w = some tag ∧ (task, tag) ∈ s.received

structure Inv (s : State C H n τ) : Prop where
  pool : PoolInv s s.server.core.pool
  origins : List.Forall₂ (fun rsp tag => Tagged s rsp.1 rsp.2 tag) s.server.responses s.origins
  answered : List.Forall₂ (Answered s) s.server.written s.answered

omit [DecidableEq C] in
theorem initial_inv : Inv (initial : State C H n τ) where
  pool := ⟨.nil, fun w task h => by cases h⟩
  origins := .nil
  answered := .nil

omit [DecidableEq C] in
theorem Tagged.mono {s t : State C H n τ} (h : s.received ⊆ t.received) {c : C} {id : UInt32} {tag : τ}
    (ht : Tagged s c id tag) : Tagged t c id tag :=
  let ⟨content, hm, hid⟩ := ht
  ⟨content, h hm, hid⟩

omit [DecidableEq C] in
theorem Answered.mono {s t : State C H n τ} (h : s.received ⊆ t.received) {e : C × Frame}
    {tag : Option τ} (ht : Answered s e tag) : Answered t e tag := by
  intro rsp hrsp
  obtain ⟨t, htag, htagged⟩ := ht rsp hrsp
  exact ⟨t, htag, htagged.mono h⟩

omit [DecidableEq C] in
theorem Inv.asks {s : State C H n τ} (hs : Inv s) {a : ServerWrites.Action C H M n} {c : C}
    {id : UInt32} (h : Asks s.server a c id) : ∃ tag, answering s a = some tag ∧ Tagged s c id tag := by
  have hresponse : ∀ r : ℕ, s.server.responses[r]? = some (c, id) →
      ∃ tag, s.origins[r]? = some tag ∧ Tagged s c id tag := by
    intro r hr
    obtain ⟨hlt, hget⟩ := List.getElem?_eq_some_iff.mp hr
    have hlt' : r < s.origins.length := hs.origins.length_eq ▸ hlt
    have htagged := hs.origins.get hlt hlt'
    rw [List.get_eq_getElem, hget] at htagged
    exact ⟨_, List.getElem?_eq_getElem hlt', htagged⟩
  cases a with
  | call w session =>
    obtain ⟨content, hw, hid⟩ := h
    obtain ⟨tag, htag, hm⟩ := hs.pool.running w _ hw
    exact ⟨tag, htag, content, hm, hid⟩
  | setResponse r message => exact hresponse r h
  | setResponseRaw r rawData => exact hresponse r h
  | core | bind | unbind | bindRaw | unbindRaw | publish | publishRaw | push | endPublish => cases h

theorem core_pool {s t : State C H n τ} (hs : PoolInv s s.server.core.pool) {a : Server.Action C n}
    {core : Server.State C n} (h : Server.step s.server.core a = some core) (tag : τ)
    (hreceived : t.received = s.received ++
      (arriving (.core a : ServerWrites.Action C H M n)).toList.map fun request => (request, tag))
    (hwaiting : t.waiting = waitingAfter s (.core a : ServerWrites.Action C H M n) tag)
    (hrunning : t.running = runningAfter s (.core a : ServerWrites.Action C H M n)) :
    PoolInv t core.pool := by
  have hold : s.received ⊆ t.received := by
    rw [hreceived]
    exact List.subset_append_left _ _
  have hqueue : List.Forall₂ (fun task tag => (task, tag) ∈ t.received) s.server.core.pool.queue
      s.waiting := hs.waiting.imp fun _ _ hm => hold hm
  have hworkers : ∀ w task, s.server.core.pool.running w = some task →
      ∃ tag, s.running w = some tag ∧ (task, tag) ∈ t.received := by
    intro w task hw
    obtain ⟨tag, htag, hm⟩ := hs.running w task hw
    exact ⟨tag, htag, hold hm⟩
  cases Server.step_effect h with
  | accept | headRead => exact ⟨hwaiting ▸ hqueue, hrunning ▸ hworkers⟩
  | headFailed | contentFailed =>
    rw [Server.handleError_pool]
    exact ⟨hwaiting ▸ hqueue, hrunning ▸ hworkers⟩
  | contentRead hc =>
    refine ⟨?_, hrunning ▸ hworkers⟩
    rw [hwaiting]
    refine List.rel_append hqueue (.cons ?_ .nil)
    rw [hreceived]
    exact List.mem_append_right _ List.mem_cons_self
  | take hp =>
    rename_i w pool
    obtain ⟨task, rest, hidle, hq, rfl⟩ := take_eq_some hp
    rw [hq] at hqueue
    obtain ⟨front, tags, hfront, hrest, htags⟩ := List.forall₂_cons_left_iff.mp hqueue
    refine ⟨?_, ?_⟩
    · rw [hwaiting]
      simp only [waitingAfter, arriving, taking, htags, List.tail_cons]
      exact hrest
    · intro v x hv
      rw [hrunning]
      simp only [runningAfter, taking, htags, List.head?_cons]
      by_cases hvw : v = w
      · subst v
        simp only [Function.update_self, Option.some.injEq] at hv ⊢
        exact ⟨front, rfl, hv ▸ hfront⟩
      · simp only [Function.update_of_ne hvw] at hv ⊢
        exact hworkers v x hv
  | execute hp he =>
    rename_i w expired c content pool
    obtain ⟨-, rfl⟩ := finish_eq_some hp
    refine ⟨hwaiting ▸ hqueue, ?_⟩
    intro v x hv
    rw [hrunning]
    by_cases hvw : v = w
    · subst v
      simp at hv
    · simp only [Function.update_of_ne hvw] at hv
      exact hworkers v x hv

omit [DecidableEq C] in
theorem quiet_pool {s t : State C H n τ} (hs : PoolInv s s.server.core.pool)
    {a : ServerWrites.Action C H M n} (ha : arriving a = none) (ht : taking a = none) {tag : τ}
    (hreceived : s.received ⊆ t.received) (hwaiting : t.waiting = waitingAfter s a tag)
    (hrunning : t.running = runningAfter s a) : PoolInv t s.server.core.pool := by
  simp only [waitingAfter, ha, ht] at hwaiting
  simp only [runningAfter, ht] at hrunning
  refine ⟨hwaiting ▸ hs.waiting.imp fun _ _ hm => hreceived hm, ?_⟩
  intro w task hw
  obtain ⟨tag, htag, hm⟩ := hs.running w task hw
  exact ⟨tag, hrunning ▸ htag, hreceived hm⟩

theorem step_inv {s t : State C H n τ} {a : ServerWrites.Action C H M n} {tag : τ} (hs : Inv s)
    (h : step pb s a tag = some t) : Inv t := by
  obtain ⟨server, hserver, rfl⟩ := Option.map_eq_some_iff.mp h
  have hold : s.received ⊆ s.received ++ (arriving a).toList.map fun request => (request, tag) :=
    List.subset_append_left _ _
  cases step_effect hserver with
  | core hcore hr hw =>
    refine ⟨core_pool hs.pool hcore tag rfl rfl rfl, ?_, ?_⟩
    · simp only [hr, List.drop_length, List.filterMap_nil, List.append_nil]
      exact hs.origins.imp fun _ _ => Tagged.mono hold
    · simp only [hw, List.drop_length, List.map_nil, List.append_nil]
      exact hs.answered.imp fun _ _ => Answered.mono hold
  | opened ha ht hasks hc hr hw =>
    obtain ⟨origin, horigin, htagged⟩ := hs.asks hasks
    refine ⟨?_, ?_, ?_⟩
    · rw [hc]
      exact quiet_pool hs.pool ha ht hold rfl rfl
    · simp only [hr, List.drop_left, List.filterMap_cons, horigin, List.filterMap_nil]
      exact List.rel_append (hs.origins.imp fun _ _ => Tagged.mono hold)
        (.cons (htagged.mono hold) .nil)
    · simp only [hw, List.drop_length, List.map_nil, List.append_nil]
      exact hs.answered.imp fun _ _ => Answered.mono hold
  | wrote ha ht hc hr hw hnew =>
    refine ⟨?_, ?_, ?_⟩
    · rw [hc]
      exact quiet_pool hs.pool ha ht hold rfl rfl
    · simp only [hr, List.drop_length, List.filterMap_nil, List.append_nil]
      exact hs.origins.imp fun _ _ => Tagged.mono hold
    · simp only [hw, List.drop_left]
      refine List.rel_append (hs.answered.imp fun _ _ => Answered.mono hold) ?_
      rw [List.forall₂_map_right_iff, List.forall₂_same]
      intro e he rsp hrsp
      obtain ⟨origin, horigin, htagged⟩ := hs.asks (hnew e he rsp hrsp)
      exact ⟨origin, horigin, htagged.mono hold⟩

theorem step_frames {s t : State C H n τ} {a : ServerWrites.Action C H M n} {tag : τ} (hs : Inv s)
    (h : step pb s a tag = some t) :
    s.server.written.zip s.answered ⊆ t.server.written.zip t.answered := by
  obtain ⟨server, hserver, rfl⟩ := Option.map_eq_some_iff.mp h
  have hwritten : ∃ new, server.written = s.server.written ++ new := by
    cases step_effect hserver with
    | core hcore hr hw => exact ⟨[], by rw [hw, List.append_nil]⟩
    | opened ha ht hasks hc hr hw => exact ⟨[], by rw [hw, List.append_nil]⟩
    | wrote ha ht hc hr hw hnew => exact ⟨_, hw⟩
  obtain ⟨new, hnew⟩ := hwritten
  simp only [hnew, List.drop_left]
  rw [List.zip_append hs.answered.length_eq]
  exact List.subset_append_left _ _

end Czrpc.Answers
