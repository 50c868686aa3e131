import Czrpc.Network

/-! What the connections of a server carry. Requests and frames arrive in order, none of them twice
and none that was not sent, up to the point where a connection was lost; no client is sent a frame
that it would take for one of the other kind; and every response that a client gets is to a request
that it has sent. -/
namespace Czrpc.Network
open Execution Framing Protocol ServerWrites
open Dispatch (Protobuf)
open Pipe (frames)

variable {C H : Type*} {M D : Type} {n : ℕ} [DecidableEq C] {pb : Protobuf M D}

def Asked (s : ServerWrites.State C H n) (c : C) (id : UInt32) : Prop :=
  ∃ content, (c, content) ∈ s.core.routed ∧ content.callId = id

omit [DecidableEq C] in
theorem Asked.mono {s t : ServerWrites.State C H n} {c : C} {id : UInt32} (h : Asked s c id)
    (hr : s.core.routed ⊆ t.core.routed) : Asked t c id :=
  let ⟨content, hm, hid⟩ := h
  ⟨content, hr hm, hid⟩

/-- Response objects and responses are for requests that were received. -/
structure Answering (s : ServerWrites.State C H n) : Prop where
  responses : ∀ rsp ∈ s.responses, Asked s rsp.1 rsp.2
  written : ∀ e ∈ s.written, ∀ rsp, e.2 = .response rsp → Asked s e.1 rsp.callId

omit [DecidableEq C] in
theorem Answering.asks {s : ServerWrites.State C H n} (hs : Answering s) (hcore : CoreInv s.core)
    {a : ServerWrites.Action C H M n} {c : C} {id : UInt32} (h : Answers.Asks s a c id) :
    Asked s c id := by
  cases a with
  | call w session =>
    obtain ⟨content, hw, hid⟩ := h
    exact ⟨content, hcore.tasks _ (Or.inr ⟨w, hw⟩), hid⟩
  | setResponse r | setResponseRaw r => exact hs.responses _ (List.mem_of_getElem? h)
  | core | bind | unbind | bindRaw | unbindRaw | publish | publishRaw | push | endPublish => cases h

theorem answering_step {s s' : ServerWrites.State C H n} (hs : Answering s) (hcore : CoreInv s.core)
    {a : ServerWrites.Action C H M n} (h : ServerWrites.step pb s a = some s') : Answering s' := by
  cases Answers.step_effect h with
  | core hstep hr hw =>
    have hrouted := routed_subset hstep
    constructor
    · intro rsp hrsp
      rw [hr] at hrsp
      exact (hs.responses rsp hrsp).mono hrouted
    · intro e he rsp hrsp
      rw [hw] at he
      exact (hs.written e he rsp hrsp).mono hrouted
  | opened ha ht hasks hc hr hw =>
    have hrouted : s.core.routed ⊆ s'.core.routed := by rw [hc]; exact List.Subset.refl _
    constructor
    · intro rsp hrsp
      rw [hr] at hrsp
      rcases List.mem_append.mp hrsp with hrsp | hrsp
      · exact (hs.responses rsp hrsp).mono hrouted
      · obtain rfl := List.mem_singleton.mp hrsp
        exact (hs.asks hcore hasks).mono hrouted
    · intro e he rsp hrsp
      rw [hw] at he
      exact (hs.written e he rsp hrsp).mono hrouted
  | wrote ha ht hc hr hw hnew =>
    have hrouted : s.core.routed ⊆ s'.core.routed := by rw [hc]; exact List.Subset.refl _
    constructor
    · intro rsp hrsp
      rw [hr] at hrsp
      exact (hs.responses rsp hrsp).mono hrouted
    · intro e he rsp hrsp
      rw [hw] at he
      rcases List.mem_append.mp he with he | he
      · exact (hs.written e he rsp hrsp).mono hrouted
      · exact (hs.asks hcore (hnew e he rsp hrsp)).mono hrouted

theorem own_core {s t : Server.State C n} {a : Server.Action C n}
    (ha : own (.core a : ServerWrites.Action C H M n) = true) (h : Server.step s a = some t) :
    t.routed = s.routed ∧ ∀ c, t.conns c = s.conns c ∨
      s.conns c = none ∧ ∃ type, t.conns c = some ⟨some .head, type⟩ := by
  cases Server.step_effect h with
  | @accept d type hd =>
    refine ⟨rfl, ?_⟩
    intro c
    by_cases hcd : c = d
    · subst c
      exact Or.inr ⟨hd, type, Server.setConn_conns_self _ _ _ _⟩
    · exact Or.inl (Server.setConn_conns_of_ne _ hcd _ _)
  | take | execute => exact ⟨rfl, fun _ => Or.inl rfl⟩
  | headRead | headFailed | contentRead | contentFailed => cases ha

theorem own_step {s s' : ServerWrites.State C H n} {a : ServerWrites.Action C H M n} (ha : own a = true)
    (h : ServerWrites.step pb s a = some s') :
    s.written <+: s'.written ∧ s'.core.routed = s.core.routed ∧
      ∀ c, s'.core.conns c = s.core.conns c ∨
        s.core.conns c = none ∧ ∃ type, s'.core.conns c = some ⟨some .head, type⟩ := by
  cases Answers.step_effect h with
  | core hstep hr hw =>
    rw [hw]
    exact ⟨List.prefix_rfl, own_core ha hstep⟩
  | opened _ _ _ hc hr hw =>
    rw [hc, hw]
    exact ⟨List.prefix_rfl, rfl, fun _ => Or.inl rfl⟩
  | wrote _ _ hc hr hw =>
    rw [hc, hw]
    exact ⟨List.prefix_append _ _, rfl, fun _ => Or.inl rfl⟩

theorem framesOf_append (c : C) (as bs : List (C × Frame)) :
    framesOf c (as ++ bs) = framesOf c as ++ framesOf c bs := by
  simp [framesOf]

theorem mem_framesOf {c : C} {frame : Frame} {log : List (C × Frame)} :
    frame ∈ framesOf c log ↔ (c, frame) ∈ log := by
  simp [framesOf]

variable {type : C → ClientType}

variable (type) in
/-- Every connection carries what its client has posted and what the server has written to it, and
the server has routed what the loops have reported. -/
structure Inv (s : State C H n) : Prop where
  server : ServerWrites.Inv s.server
  answering : Answering s.server
  up : ∀ c, Link.Inv requestEnds (s.up c)
  down : ∀ c, Link.Inv (frameEnds (type c)) (s.down c)
  posted : ∀ c, (s.up c).send.posts = (s.requests c).map requestCodec.encode
  typed : ∀ c, ∀ q ∈ s.requests c, q.flag.type = type c
  written : ∀ c, (s.down c).send.posts = (framesOf c s.server.written).map Frame.buffer
  follows : ∀ c, Follows (s.server.core.conns c) (s.up c).reader
  routed : ∀ c, requestsOf c s.server.core.routed = frames (s.up c).reader.events

theorem initial_inv : Inv type (initial : State C H n) where
  server := ServerWrites.initial_inv
  answering := ⟨nofun, nofun⟩
  up _ := Link.initial_inv
  down _ := Link.initial_inv
  posted _ := rfl
  typed _ := nofun
  written _ := rfl
  follows _ := ⟨fun _ => rfl, fun _ => ⟨rfl, rfl⟩, nofun⟩
  routed _ := rfl

theorem request_inv {s : State C H n} (hs : Inv type s) {c : C} {content : RequestContent}
    (ht : content.flag.type = type c) : Inv type { s with
      requests := Function.update s.requests c (s.requests c ++ [content])
      up := Function.update s.up c (Link.post (s.up c) (requestCodec.encode content)) } where
  server := hs.server
  answering := hs.answering
  up := Function.forall_update_iff s.up (fun _ link => Link.Inv requestEnds link) |>.mpr
    ⟨Link.post_inv (hs.up c) _, fun d _ => hs.up d⟩
  down := hs.down
  posted d := by
    by_cases hd : d = c
    · subst d
      simp [Link.post, hs.posted c]
    · simp [hd, hs.posted d]
  typed := Function.forall_update_iff s.requests
      (fun d log => ∀ q ∈ log, q.flag.type = type d) |>.mpr
    ⟨List.forall_mem_append.mpr ⟨hs.typed c, List.forall_mem_singleton.mpr ht⟩, fun d _ => hs.typed d⟩
  written := hs.written
  follows := Function.forall_update_iff s.up
      (fun d link => Follows (s.server.core.conns d) link.reader) |>.mpr
    ⟨hs.follows c, fun d _ => hs.follows d⟩
  routed := Function.forall_update_iff s.up
      (fun d link => requestsOf d s.server.core.routed = frames link.reader.events) |>.mpr
    ⟨hs.routed c, fun d _ => hs.routed d⟩

theorem up_inv {s : State C H n} (hs : Inv type s) {c : C} {a : Link.Action} {link : Link.State RequestContent}
    (ha : ∀ b, a ≠ .read b) (h : Link.step requestEnds (s.up c) a = some link) :
    Inv type { s with up := Function.update s.up c link } := by
  have hposts := Link.step_posts (hs.up c) h
  obtain ⟨hevents, hreading, hpc⟩ := Link.step_reader ha h
  have hfollows := hs.follows c
  refine ⟨hs.server, hs.answering, ?_, hs.down, ?_, hs.typed, hs.written, ?_, ?_⟩
  · exact (Function.forall_update_iff s.up fun _ link => Link.Inv requestEnds link).mpr
      ⟨Link.step_inv (hs.up c) h, fun d _ => hs.up d⟩
  · exact (Function.forall_update_iff s.up fun d link =>
        link.send.posts = (s.requests d).map requestCodec.encode).mpr
      ⟨hposts.trans (hs.posted c), fun d _ => hs.posted d⟩
  · refine (Function.forall_update_iff s.up fun d link =>
        Follows (s.server.core.conns d) link.reader).mpr ⟨?_, fun d _ => hs.follows d⟩
    exact ⟨by rw [hpc, hreading]; exact hfollows.rearmed, by rw [hpc, hreading]; exact hfollows.waiting,
      by rw [hpc, hreading]; exact hfollows.reading⟩
  · refine (Function.forall_update_iff s.up fun d link =>
        requestsOf d s.server.core.routed = frames link.reader.events).mpr ⟨?_, fun d _ => hs.routed d⟩
    rw [hevents]
    exact hs.routed c

theorem requestsOf_others {c d : C} (hd : d ≠ c) (new : List RequestContent) :
    requestsOf d (new.map fun content => (c, content)) = [] := by
  simp [requestsOf, hd.symm]

theorem requestsOf_own (c : C) (new : List RequestContent) :
    requestsOf c (new.map fun content => (c, content)) = new := by
  simp [requestsOf, List.filter_map, Function.comp_def]

theorem read_inv {s : State C H n} (hs : Inv type s) {c : C} {a : ReadLoop.Action} {expired : List C}
    {reader : ReadLoop.State RequestContent} {server : ServerWrites.State C H n}
    (hc : (s.server.core.conns c).isSome)
    (hr : ReadLoop.step requestEnds.loop (s.up c).reader a = some reader)
    (h : hear pb s.server (heard c expired (s.up c).reader reader) = some server) :
    Inv type { s with
      server := server
      up := Function.update s.up c { s.up c with reader := reader } } := by
  have hfollowed := hear_followed (step_hearing hr) (hs.follows c) hc h
  obtain ⟨new, hnew, hrouted, -⟩ := hfollowed.routed
  have hserver : ServerWrites.Inv server ∧ Answering server := by
    cases ho : (heard c expired (s.up c).reader reader : Option (Server.Action C n)) with
    | none =>
      rw [ho] at h
      obtain rfl := Option.some.inj h
      exact ⟨hs.server, hs.answering⟩
    | some b =>
      rw [ho] at h
      have hstep : ServerWrites.step pb s.server (.core b) = some server := h
      exact ⟨ServerWrites.step_inv hs.server hstep, answering_step hs.answering hs.server.core hstep⟩
  have hlink : Link.step requestEnds (s.up c) (.read a) = some { s.up c with reader := reader } := by
    simp [Link.step, hr]
  refine ⟨hserver.1, hserver.2, ?_, hs.down, ?_, hs.typed, ?_, ?_, ?_⟩
  · exact (Function.forall_update_iff s.up fun _ link => Link.Inv requestEnds link).mpr
      ⟨Link.step_inv (hs.up c) hlink, fun d _ => hs.up d⟩
  · exact (Function.forall_update_iff s.up fun d link =>
        link.send.posts = (s.requests d).map requestCodec.encode).mpr
      ⟨hs.posted c, fun d _ => hs.posted d⟩
  · rw [hfollowed.written]
    exact hs.written
  · refine (Function.forall_update_iff s.up fun d link =>
        Follows (server.core.conns d) link.reader).mpr ⟨hfollowed.follows, ?_⟩
    intro d hd
    rw [hfollowed.others d hd]
    exact hs.follows d
  · refine (Function.forall_update_iff s.up fun d link =>
        requestsOf d server.core.routed = frames link.reader.events).mpr ⟨?_, ?_⟩
    · rw [hrouted, hnew, requestsOf_append, hs.routed c, requestsOf_own]
    · intro d hd
      rw [hrouted, requestsOf_append, requestsOf_others hd, List.append_nil]
      exact hs.routed d

theorem down_inv {s : State C H n} (hs : Inv type s) {c : C} {a : Link.Action} {link : Link.State Frame}
    (h : Link.step (frameEnds (type c)) (s.down c) a = some link) :
    Inv type { s with down := Function.update s.down c link } := by
  refine ⟨hs.server, hs.answering, hs.up, ?_, hs.posted, hs.typed, ?_, hs.follows, hs.routed⟩
  · exact (Function.forall_update_iff s.down fun d link => Link.Inv (frameEnds (type d)) link).mpr
      ⟨Link.step_inv (hs.down c) h, fun d _ => hs.down d⟩
  · exact (Function.forall_update_iff s.down fun d link =>
        link.send.posts = (framesOf d s.server.written).map Frame.buffer).mpr
      ⟨(Link.step_posts (hs.down c) h).trans (hs.written c), fun d _ => hs.written d⟩

theorem server_inv {s : State C H n} (hs : Inv type s) {a : ServerWrites.Action C H M n}
    {server : ServerWrites.State C H n} (ha : own a = true)
    (h : ServerWrites.step pb s.server a = some server) :
    Inv type { s with
      server := server
      down := fun c => Link.postAll (s.down c)
        ((framesOf c (server.written.drop s.server.written.length)).map Frame.buffer) } := by
  obtain ⟨⟨new, hnew⟩, hrouted, hconns⟩ := own_step ha h
  refine ⟨ServerWrites.step_inv hs.server h, answering_step hs.answering hs.server.core h, hs.up,
    fun c => Link.postAll_inv (hs.down c) _, hs.posted, hs.typed, ?_, ?_, ?_⟩
  · intro c
    rw [Link.postAll_posts, hs.written c, ← hnew, List.drop_left, framesOf_append, List.map_append]
  · intro c
    rcases hconns c with hsame | ⟨hnone, type, hsome⟩
    · rw [hsame]
      exact hs.follows c
    · obtain ⟨hreading, hpc⟩ := (hs.follows c).waiting hnone
      rw [hsome]
      exact follows_idle hreading hpc type
  · rw [hrouted]
    exact hs.routed

theorem step_inv {s t : State C H n} {a : Action C H M n} (hs : Inv type s)
    (h : step type pb s a = some t) : Inv type t := by
  cases a with
  | request c content =>
    obtain ⟨ht, h⟩ := Option.ite_none_right_eq_some.mp h
    obtain rfl := Option.some.inj h
    exact request_inv hs ht
  | up c a =>
    cases a with
    | read b => cases h
    | runPosted | send | written | arrive | lose =>
      simp only [step, Option.map_eq_some_iff] at h
      obtain ⟨link, hlink, rfl⟩ := h
      exact up_inv hs (fun b hb => by cases hb) hlink
  | read c a expired =>
    obtain ⟨hc, h⟩ := Option.ite_none_right_eq_some.mp h
    obtain ⟨reader, hr, h⟩ := Option.bind_eq_some_iff.mp h
    obtain ⟨server, hserver, rfl⟩ := Option.map_eq_some_iff.mp h
    exact read_inv hs hc hr hserver
  | down c a =>
    obtain ⟨link, hlink, rfl⟩ := Option.map_eq_some_iff.mp h
    exact down_inv hs hlink
  | server a =>
    obtain ⟨ha, h⟩ := Option.ite_none_right_eq_some.mp h
    obtain ⟨server, hserver, rfl⟩ := Option.map_eq_some_iff.mp h
    exact server_inv hs ha hserver

omit [DecidableEq C] in
theorem heard_not_own {c : C} {expired : List C} {r r' : ReadLoop.State RequestContent}
    {b : Server.Action C n} (h : heard c expired r r' = some b) :
    own (.core b : ServerWrites.Action C H M n) = false := by
  unfold heard at h
  split at h
  · obtain rfl := Option.some.inj h
    rfl
  · split_ifs at h <;> obtain rfl := Option.some.inj h <;> rfl
  · split_ifs at h
    obtain rfl := Option.some.inj h
    rfl

theorem step_server {s t : State C H n} {a : Action C H M n} (h : step type pb s a = some t) :
    t.server = s.server ∨ ∃ b, ServerWrites.step pb s.server b = some t.server ∧
      (own b = true → a = .server b) := by
  cases a with
  | request c content =>
    obtain ⟨-, h⟩ := Option.ite_none_right_eq_some.mp h
    obtain rfl := Option.some.inj h
    exact Or.inl rfl
  | up c a =>
    cases a with
    | read b => cases h
    | runPosted | send | written | arrive | lose =>
      simp only [step, Option.map_eq_some_iff] at h
      obtain ⟨link, -, rfl⟩ := h
      exact Or.inl rfl
  | read c a expired =>
    obtain ⟨-, h⟩ := Option.ite_none_right_eq_some.mp h
    obtain ⟨reader, -, h⟩ := Option.bind_eq_some_iff.mp h
    obtain ⟨server, hserver, rfl⟩ := Option.map_eq_some_iff.mp h
    cases ho : (heard c expired (s.up c).reader reader : Option (Server.Action C n)) with
    | none =>
      rw [ho] at hserver
      obtain rfl := Option.some.inj hserver
      exact Or.inl rfl
    | some b =>
      rw [ho] at hserver
      have hnot : own (.core b : ServerWrites.Action C H M n) = false := heard_not_own ho
      exact Or.inr ⟨.core b, hserver, by simp [hnot]⟩
  | down c a =>
    obtain ⟨link, -, rfl⟩ := Option.map_eq_some_iff.mp h
    exact Or.inl rfl
  | server a =>
    obtain ⟨-, h⟩ := Option.ite_none_right_eq_some.mp h
    obtain ⟨server, hserver, rfl⟩ := Option.map_eq_some_iff.mp h
    exact Or.inr ⟨a, hserver, fun _ => rfl⟩

/-- What every step of the server keeps holds of it in the network. -/
theorem server_invariant {I : ServerWrites.State C H n → Prop}
    (hI : ∀ s a t, I s → ServerWrites.step pb s a = some t → I t) (h0 : I ServerWrites.initial)
    {as : List (Action C H M n)} {s : State C H n} (hr : run (step type pb) initial as = some s) :
    I s.server := by
  refine run_invariant (I := fun s => I s.server) ?_ h0 hr
  intro s a t hs h
  rcases step_server h with hsame | ⟨b, hb, -⟩
  · rw [hsame]
    exact hs
  · exact hI _ b _ hs hb

def For (type : ClientType) : Frame → Prop
  | .response _ => type ≠ .subClient
  | .push _ => type = .subClient

def Fits : Frame → Prop
  | .response content => content.Fits
  | .push content => content.Fits

omit [DecidableEq C] in
theorem mapped_reads {φ : Type*} (K : Codec φ) (f : φ → Frame) (hf : ∀ x, (f x).buffer = K.encode x)
    {xs : List φ} (hx : ∀ x ∈ xs, K.Fits x) :
    (K.toFormat.map f).readFrames ((xs.map f).map Frame.buffer).flatten = xs.map f := by
  have hbytes : ((xs.map f).map Frame.buffer).flatten = xs.flatMap K.encode := by
    rw [List.map_map, List.flatMap_def]
    exact congrArg List.flatten (List.map_congr_left fun x _ => hf x)
  rw [hbytes, Format.readFrames_map, Codec.readFrames_all hx]

theorem clientLoop_reads {type : ClientType} {log : List Frame} (hfor : ∀ f ∈ log, For type f)
    (hfit : ∀ f ∈ log, Fits f) :
    (clientLoop type).readFrames (log.map Frame.buffer).flatten = log := by
  unfold clientLoop
  split_ifs with ht
  · have hpush : log ∈ Set.range (List.map Frame.push) := by
      rw [Set.range_list_map]
      intro f hf
      cases f with
      | response content => exact absurd ht (hfor _ hf)
      | push content => exact ⟨content, rfl⟩
    obtain ⟨contents, rfl⟩ := hpush
    refine mapped_reads pushCodec .push (fun _ => rfl) ?_
    intro content hc
    exact hfit _ (List.mem_map_of_mem hc)
  · have hresponse : log ∈ Set.range (List.map Frame.response) := by
      rw [Set.range_list_map]
      intro f hf
      cases f with
      | response content => exact ⟨content, rfl⟩
      | push content => exact absurd (hfor _ hf) ht
    obtain ⟨contents, rfl⟩ := hresponse
    refine mapped_reads responseCodec .response (fun _ => rfl) ?_
    intro content hc
    exact hfit _ (List.mem_map_of_mem hc)

theorem Inv.requests_read {s : State C H n} (hs : Inv type s) {c : C}
    (hq : ∀ q ∈ s.requests c, q.Fits) :
    requestEnds.loop.readFrames (s.up c).send.posts.flatten = s.requests c := by
  rw [hs.posted c, ← List.flatMap_def]
  exact Codec.readFrames_all hq

theorem Inv.requests_prefix {s : State C H n} (hs : Inv type s) {c : C}
    (hq : ∀ q ∈ s.requests c, q.Fits) :
    requestsOf c s.server.core.routed <+: s.requests c := by
  have hreceived := (hs.up c).received
  rwa [hs.requests_read hq, ← hs.routed c] at hreceived

/-- The server writes to a client only what it can read. -/
theorem Inv.kind {s : State C H n} (hs : Inv type s) {c : C} (hq : ∀ q ∈ s.requests c, q.Fits)
    {f : Frame} (hf : f ∈ framesOf c s.server.written) : For (type c) f := by
  have htyped : ∀ content, (c, content) ∈ s.server.core.routed → content.flag.type = type c := by
    intro content hm
    exact hs.typed c content ((hs.requests_prefix hq).subset ((mem_requestsOf c content _).mpr hm))
  have hentitled := hs.server.written _ (mem_framesOf.mp hf)
  cases f with
  | response content =>
    obtain ⟨asked, hm, hcall⟩ := hentitled
    have hnot := isCall_not_subClient hcall
    rwa [htyped asked hm] at hnot
  | push content =>
    obtain ⟨asked, hm, hsub⟩ := hentitled
    exact (htyped asked hm).symm.trans hsub

theorem Inv.frames_read {s : State C H n} (hs : Inv type s) {c : C}
    (hq : ∀ q ∈ s.requests c, q.Fits) (hf : ∀ f ∈ framesOf c s.server.written, Fits f) :
    (frameEnds (type c)).loop.readFrames (s.down c).send.posts.flatten =
      framesOf c s.server.written := by
  rw [hs.written c]
  exact clientLoop_reads (fun f hm => hs.kind hq hm) hf

def twoTypes (c : ℕ) : ClientType := if c = 0 then .subClient else .asyncRpcClient

def subscribeRequest : RequestContent := ⟨0, ⟨.serialize, .subClient⟩, [116], [], subscribeTopicFlag⟩

def callRequest : RequestContent := ⟨5, ⟨.nonSerialize, .asyncRpcClient⟩, [101], [], [1]⟩

/-- A connection is accepted and the first request on it, of 26 bytes, gets to the pool. -/
def requestArrives (c : ℕ) : List (Action ℕ Unit Empty 1) :=
  [.server (.core (.accept c ⟨7⟩)), .up c .runPosted, .up c (.send 26), .up c (.arrive 26),
    .read c (.transfer 12) [], .read c .complete [], .read c (.transfer 14) [], .read c .complete [],
    .read c .resume []]

/-- The worker runs the subscribe, the handler of the call answers twice, and the topic is published
to. -/
def twoClients : List (Action ℕ Unit Empty 1) :=
  [.server (.bindRaw [101] ()), .request 0 subscribeRequest, .request 1 callRequest,
    .request 1 callRequest] ++ requestArrives 0 ++ requestArrives 1 ++
  [.server (.core (.take WorkPool.soleWorker)), .server (.core (.execute WorkPool.soleWorker [])),
    .server (.core (.take WorkPool.soleWorker)), .server (.call WorkPool.soleWorker (some [])),
    .server (.setResponseRaw 0 [2]), .server (.setResponseRaw 0 [3]),
    .server (.publishRaw 0 [116] [4]), .server (.push 0 false)]

def answerArrives : List (Action ℕ Unit Empty 1) :=
  [.down 1 .runPosted, .down 1 .runPosted, .down 1 (.send 17), .down 1 (.written false),
    .down 1 (.send 9), .down 1 (.arrive 26), .down 1 (.read (.transfer 8)), .down 1 (.read .complete),
    .down 1 (.read (.transfer 9)), .down 1 (.read .complete), .down 1 (.read .resume)]

def firstAnswer : Frame := .response ⟨5, .ok, [], [2]⟩

def secondAnswer : Frame := .response ⟨5, .ok, [], [3]⟩

theorem callRequest_fits : ∀ q ∈ [callRequest, callRequest], q.Fits := by
  intro q hq
  obtain rfl : q = callRequest := by simpa using hq
  exact ⟨by decide, by decide, by decide⟩

theorem answers_fit : ∀ f ∈ [firstAnswer, secondAnswer], Fits f := by
  intro f hf
  obtain rfl | rfl : f = firstAnswer ∨ f = secondAnswer := by simpa using hf
  · exact ⟨by decide, by decide⟩
  · exact ⟨by decide, by decide⟩

end Czrpc.Network
