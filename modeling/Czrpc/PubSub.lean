import Czrpc.PipeDelivery
import Czrpc.PublisherOrder
import Czrpc.StreamRoundTrip
import Czrpc.Subscriptions

/-! Publishing from end to end: the threads that publish, the server's connection to a
`sub_client`, the way of the frames to the client's worker, and the handlers it calls. -/
namespace Czrpc.PubSub
open Execution Framing Protocol ServerWrites Publishers StreamRoundTrip
open Dispatch (Protobuf)

variable {C H F G : Type*} {M D : Type} {n : ℕ}

/-- `sub_router::route`. What a handler throws is caught, so that it does not matter here. -/
def route (r : SubRouter F G) (protocol : Bytes) (req : M) : Option (Item M) :=
  (r.routeMap.find protocol).map fun _ => (protocol, .message req)

def routeRaw (r : SubRouter F G) (protocol req : Bytes) : Option (Item M) :=
  (r.routeRawMap.find protocol).map fun _ => (protocol, .raw req)

/-- `sub_client::router_thread`: what it calls a handler with, if it does. -/
def routerThread (pb : Protobuf M D) (r : SubRouter F G) (content : PushContent) : Option (Item M) :=
  if content.mode = .serialize then
    match pb.deserialize content.messageName content.body with
    | .ok req => route r content.protocol req
    | .error _ => none
  else if content.mode = .nonSerialize then routeRaw r content.protocol content.body
  else none

theorem routerThread_of_bound {pb : Protobuf M D} {r : SubRouter F G} {content : PushContent}
    {item : Item M} (hd : decode pb content = some item) (hb : r.bound item.2.isRaw item.1 = true) :
    routerThread pb r content = some item := by
  unfold decode at hd
  unfold routerThread
  split_ifs at hd ⊢
  · cases hreq : pb.deserialize content.messageName content.body with
    | error e =>
      rw [hreq] at hd
      cases hd
    | ok req =>
      rw [hreq] at hd
      obtain rfl := Option.some.inj hd
      obtain ⟨func, hfunc⟩ : ∃ func, r.routeMap.find content.protocol = some func :=
        Option.isSome_iff_exists.mp hb
      simp only [route, hfunc, Option.map_some]
  · obtain rfl := Option.some.inj hd
    obtain ⟨func, hfunc⟩ : ∃ func, r.routeRawMap.find content.protocol = some func :=
      Option.isSome_iff_exists.mp hb
    simp only [routeRaw, hfunc, Option.map_some]

/-- `invoked` are the calls of the client's handlers. -/
structure State (C H F G : Type*) (M : Type) (n : ℕ) where
  pub : Publishers.State C H M n
  pipe : Pipe.State PushContent
  router : SubRouter F G
  invoked : List (Item M)

def initial : State C H F G M n := ⟨Publishers.initial, Pipe.initial, .empty, []⟩

inductive Action (C H F G : Type*) (M : Type) (n : ℕ)
  | server (a : ServerWrites.Action C H M n)
  | pipe (a : Pipe.Action)
  | bind (protocol : Bytes) (func : F)
  | bindRaw (protocol : Bytes) (func : G)
  | unbind (protocol : Bytes)
  | unbindRaw (protocol : Bytes)

def postAll (pipe : Pipe.State PushContent) (frames : List Frame) : Pipe.State PushContent :=
  frames.foldl (fun pipe frame => Pipe.post pipe frame.buffer) pipe

variable [DecidableEq C]

/-- The server's frames for the connection `c` go into its send queue, and what the client's
worker has taken from its pool goes to a handler. -/
def step (pb : Protobuf M D) (c : C) (s : State C H F G M n) :
    Action C H F G M n → Option (State C H F G M n)
  | .server a =>
    (Publishers.step pb c s.pub a).map fun pub =>
      let before := framesTo c s.pub.server.written
      { s with
        pub := pub
        pipe := postAll s.pipe ((framesTo c pub.server.written).drop before.length) }
  | .pipe a =>
    (Pipe.step subClientLoop s.pipe a).map fun pipe =>
      { s with
        pipe := pipe
        invoked := s.invoked ++
          (pipe.routed.drop s.pipe.routed.length).filterMap (routerThread pb s.router) }
  | .bind protocol func => some { s with router := s.router.bind protocol func }
  | .bindRaw protocol func => some { s with router := s.router.bindRaw protocol func }
  | .unbind protocol => some { s with router := s.router.unbind protocol }
  | .unbindRaw protocol => some { s with router := s.router.unbindRaw protocol }

def Bound (r : SubRouter F G) (call : ℕ × Item M) : Prop := r.bound call.2.2.isRaw call.2.1 = true

/-- Throughout, the client is connected, held under the topics that are published, and has a
handler for them. -/
def Served (pb : Protobuf M D) (c : C) (s : State C H F G M n) : Action C H F G M n → Prop
  | .server a => Publishers.Served pb c s.pub a ∧ ∀ call ∈ entered pb a, Bound s.router call
  | .pipe a => Pipe.Up a
  | .unbind protocol => ∀ call ∈ s.pub.calls, call.2.1 = protocol → call.2.2.isRaw = true
  | .unbindRaw protocol => ∀ call ∈ s.pub.calls, call.2.1 = protocol → call.2.2.isRaw = false
  | .bind _ _ | .bindRaw _ _ => True

def Sized (pb : Protobuf M D) : Action C H F G M n → Prop
  | .server a => Publishers.Sized pb a
  | _ => True

theorem postAll_posts (pipe : Pipe.State PushContent) (frames : List Frame) :
    (postAll pipe frames).send.posts = pipe.send.posts ++ frames.map Frame.buffer := by
  unfold postAll
  induction frames generalizing pipe with
  | nil => simp
  | cons frame frames ih =>
    rw [List.foldl_cons, ih]
    simp [Pipe.post]

theorem postAll_routed (pipe : Pipe.State PushContent) (frames : List Frame) :
    (postAll pipe frames).routed = pipe.routed := by
  unfold postAll
  induction frames generalizing pipe with
  | nil => rfl
  | cons frame frames ih => exact ih _

theorem postAll_inv {L : ReadLoop.Loop PushContent} {pipe : Pipe.State PushContent}
    (h : Pipe.Inv L pipe) (frames : List Frame) : Pipe.Inv L (postAll pipe frames) := by
  unfold postAll
  induction frames generalizing pipe with
  | nil => exact h
  | cons frame frames ih => exact ih (Pipe.post_inv h frame.buffer)

theorem written_step {pb : Protobuf M D} {s s' : ServerWrites.State C H n}
    {a : ServerWrites.Action C H M n} (hs : ServerWrites.Inv s)
    (h : ServerWrites.step pb s a = some s') : s.written <+: s'.written := by
  cases step_change hs h with
  | core _ _ hw =>
    rw [hw]
  | handlers _ _ _ hw =>
    rw [hw]
    exact List.prefix_append _ _
  | threw | publish | publishRaw | expired | ended => exact List.prefix_rfl
  | push => exact List.prefix_append _ _

/-- The way of the frames, without regard to what they hold. -/
structure WayInv (c : C) (s : State C H F G M n) : Prop where
  server : ServerWrites.Inv s.pub.server
  pipe : Pipe.Inv subClientLoop s.pipe
  posts : s.pipe.send.posts = (framesTo c s.pub.server.written).map Frame.buffer

theorem initial_way (c : C) : WayInv c (initial : State C H F G M n) :=
  ⟨ServerWrites.initial_inv, Pipe.initial_inv, rfl⟩

theorem step_way {pb : Protobuf M D} {c : C} {s t : State C H F G M n} {a : Action C H F G M n}
    (hs : WayInv c s) (hserved : Served pb c s a) (h : step pb c s a = some t) : WayInv c t := by
  cases a with
  | server a =>
    obtain ⟨pub, hpub, rfl⟩ := Option.map_eq_some_iff.mp h
    obtain ⟨server, hserver, rfl⟩ := Option.map_eq_some_iff.mp hpub
    obtain ⟨new, hnew⟩ := written_step hs.server hserver
    refine ⟨ServerWrites.step_inv hs.server hserver, postAll_inv hs.pipe _, ?_⟩
    simp only [postAll_posts, hs.posts, ← hnew, framesTo_append, List.drop_left, List.map_append]
  | pipe a =>
    obtain ⟨pipe, hpipe, rfl⟩ := Option.map_eq_some_iff.mp h
    exact ⟨hs.server, Pipe.step_inv hs.pipe hserved hpipe, (Pipe.step_posts hpipe).trans hs.posts⟩
  | bind | bindRaw | unbind | unbindRaw =>
    obtain rfl := Option.some.inj h
    exact ⟨hs.server, hs.pipe, hs.posts⟩

def Settled (s : State C H F G M n) : Prop := Pipe.Settled subClientLoop s.pipe

def Handled (pb : Protobuf M D) (s : State C H F G M n) : Prop :=
  s.invoked = s.pipe.routed.filterMap (routerThread pb s.router)

theorem pipe_handled {pb : Protobuf M D} {c : C} {s t : State C H F G M n} {a : Pipe.Action}
    (hs : Handled pb s) (h : step pb c s (.pipe a) = some t) :
    Handled pb t ∧ t.pub = s.pub ∧ t.router = s.router := by
  obtain ⟨pipe, hpipe, rfl⟩ := Option.map_eq_some_iff.mp h
  refine ⟨?_, rfl, rfl⟩
  unfold Handled at hs ⊢
  rcases Pipe.routed_step hpipe with hsame | ⟨x, hx⟩
  · simp [hsame, hs]
  · simp [hx, hs]

/-- From every state the way of the frames comes to rest by itself. -/
theorem exists_settled (pb : Protobuf M D) {c : C} {s : State C H F G M n} (hs : WayInv c s) :
    ∃ more t, (∀ a ∈ more, ∃ b, a = .pipe b ∧ Pipe.Up b) ∧ run (step pb c) s more = some t ∧
      Settled t ∧ WayInv c t := by
  have hgo : ∀ u : State C H F G M n, WayInv c u → ¬ Settled u →
      ∃ a t, (∃ b, a = .pipe b ∧ Pipe.Up b) ∧ step pb c u a = some t ∧ WayInv c t ∧
        Pipe.work t.pipe < Pipe.work u.pipe := by
    intro u hu hmoves
    simp only [Settled, Pipe.Settled, not_forall] at hmoves
    obtain ⟨b, hup, hb⟩ := hmoves
    obtain ⟨pipe, hpipe⟩ := Option.ne_none_iff_exists'.mp hb
    have hstep : step pb c u (.pipe b) = some { u with
        pipe := pipe
        invoked := u.invoked ++
          (pipe.routed.drop u.pipe.routed.length).filterMap (routerThread pb u.router) } := by
      simp [step, hpipe]
    exact ⟨_, _, ⟨b, rfl, hup⟩, hstep, step_way (a := .pipe b) hu hup hstep,
      Pipe.step_work hu.pipe hup hpipe⟩
  obtain ⟨more, t, hmore, hrun, hway, hsettled⟩ := exists_run_done hgo hs
  exact ⟨more, t, hmore, hrun, hsettled, hway⟩

theorem run_pipe {pb : Protobuf M D} {c : C} {s t : State C H F G M n}
    {more : List (Action C H F G M n)} (hmore : ∀ a ∈ more, ∃ b, a = .pipe b ∧ Pipe.Up b)
    (hr : run (step pb c) s more = some t) :
    Conforms (step pb c) (fun s a => Served pb c s a ∧ Sized pb a) s more ∧ t.pub = s.pub ∧
      t.router = s.router ∧ (Handled pb s → Handled pb t) := by
  induction more generalizing s with
  | nil =>
    obtain rfl : s = t := by simpa using hr
    exact ⟨trivial, rfl, rfl, id⟩
  | cons a more ih =>
    obtain ⟨u, hu, hrest⟩ := run_cons_eq_some.mp hr
    obtain ⟨b, rfl, hup⟩ := hmore a List.mem_cons_self
    obtain ⟨hc, hpub, hrouter, hhandled⟩ :=
      ih (fun a ha => hmore a (List.mem_cons_of_mem _ ha)) hrest
    obtain ⟨pipe, hpipe, rfl⟩ := Option.map_eq_some_iff.mp hu
    refine ⟨⟨⟨hup, trivial⟩, ?_⟩, hpub, hrouter, fun hs => hhandled (pipe_handled hs hu).1⟩
    intro v hv
    obtain rfl := Option.some.inj (hu.symm.trans hv)
    exact hc

end Czrpc.PubSub
