import Czrpc.PubSub

/-! What is published reaches the handlers of a client that is served throughout, once and in
the order of the posts. -/
namespace Czrpc.PubSub
open Execution Framing Protocol ServerWrites Publishers StreamRoundTrip
open Dispatch (Protobuf)

variable {C H F G : Type*} {M D : Type} {n : ℕ} [DecidableEq C]

/-- Every handler call so far is what the worker's frame was published with. -/
structure Inv (pb : Protobuf M D) (c : C) (s : State C H F G M n) : Prop where
  way : WayInv c s
  pub : Publishers.Inv pb c s.pub
  bound : ∀ call ∈ s.pub.calls, Bound s.router call
  invoked : s.pipe.routed.map (decode pb) = s.invoked.map some

theorem initial_inv (pb : Protobuf M D) (c : C) : Inv pb c (initial : State C H F G M n) where
  way := initial_way c
  pub := Publishers.initial_inv c
  bound call h := by cases h
  invoked := rfl

theorem WayInv.posts_flatten {c : C} {s : State C H F G M n} (hs : WayInv c s)
    {cs : List PushContent} (hcs : framesTo c s.pub.server.written = cs.map .push) :
    s.pipe.send.posts.flatten = cs.flatMap pushCodec.encode := by
  rw [hs.posts, hcs, List.map_map, List.flatMap_def]
  rfl

theorem WayInv.routed_beginning {c : C} {s : State C H F G M n} (hs : WayInv c s)
    {cs : List PushContent} (hcs : framesTo c s.pub.server.written = cs.map .push)
    (hfits : ∀ content ∈ cs, content.Fits) : s.pipe.routed <+: cs := by
  obtain ⟨hrouted, hwire⟩ := hs.pipe.beginning
  rw [hs.posts_flatten hcs] at hwire
  obtain ⟨k, -, htake, -⟩ := pushCodec.within_eq_take cs s.pipe.wire.length
  have hframes : pushCodec.readFrames s.pipe.wire = cs.take k :=
    (pushCodec.readFrames_beginning hfits hwire).trans htake
  have hloop : subClientLoop.readFrames s.pipe.wire = cs.take k := hframes
  rw [hloop] at hrouted
  exact hrouted.trans (List.take_prefix k cs)

theorem WayInv.routed_settled {c : C} {s : State C H F G M n} (hs : WayInv c s) (h : Settled s)
    {cs : List PushContent} (hcs : framesTo c s.pub.server.written = cs.map .push)
    (hfits : ∀ content ∈ cs, content.Fits) : s.pipe.routed = cs := by
  have hall := pushCodec.readFrames_encode hfits []
  have hnone : pushCodec.readFrames [] = [] := pushCodec.readFrames_head_cut pushCodec.headLen_pos
  rw [List.append_nil, ← hs.posts_flatten hcs, ← hs.pipe.settled_wire h, hnone,
    List.append_nil] at hall
  rw [hs.pipe.settled_routed h]
  exact hall

theorem Inv.routes {pb : Protobuf M D} {c : C} {s : State C H F G M n} (hs : Inv pb c s)
    {pipe : Pipe.State PushContent} {x : PushContent}
    (hway : WayInv c { s with pipe := pipe }) (hx : x ∈ pipe.routed) :
    ∃ item, decode pb x = some item ∧ routerThread pb s.router x = some item := by
  obtain ⟨cs, hcs, hfits, hitems⟩ := hs.pub.frames
  have hbeginning : pipe.routed <+: cs := hway.routed_beginning hcs hfits
  have hm : decode pb x ∈ s.pub.posts.map fun e => some e.2 := by
    rw [← hitems]
    exact List.mem_map_of_mem (hbeginning.subset hx)
  obtain ⟨call, hcall, hdecode⟩ := List.mem_map.mp hm
  exact ⟨call.2, hdecode.symm,
    routerThread_of_bound hdecode.symm (hs.bound call (hs.pub.posts hcall))⟩

theorem pipe_inv {pb : Protobuf M D} {c : C} {s t : State C H F G M n} {a : Pipe.Action}
    (hs : Inv pb c s) (hup : Pipe.Up a) (h : step pb c s (.pipe a) = some t) : Inv pb c t := by
  have hway := step_way (a := .pipe a) hs.way hup h
  obtain ⟨pipe, hpipe, rfl⟩ := Option.map_eq_some_iff.mp h
  refine ⟨hway, hs.pub, hs.bound, ?_⟩
  rcases Pipe.routed_step hpipe with hsame | ⟨x, hx⟩
  · simp only [hsame, List.drop_length, List.filterMap_nil, List.append_nil]
    exact hs.invoked
  · have hway' : WayInv c { s with pipe := pipe } := ⟨hway.server, hway.pipe, hway.posts⟩
    obtain ⟨item, hdecode, hroute⟩ := hs.routes hway' (x := x) (by simp [hx])
    simp only [hx, List.drop_left, List.map_append, hs.invoked, List.map_singleton, hdecode,
      List.filterMap_cons, hroute, List.filterMap_nil]

theorem Inv.router {pb : Protobuf M D} {c : C} {s : State C H F G M n} (hs : Inv pb c s)
    (op : Subscriptions.Op F G)
    (h : op.subscribes = false → ∀ call ∈ s.pub.calls, call.2.1 = op.topic → call.2.2.isRaw ≠ op.raw) :
    Inv pb c { s with router := op.update s.router } := by
  refine ⟨⟨hs.way.server, hs.way.pipe, hs.way.posts⟩, hs.pub, ?_, hs.invoked⟩
  intro call hcall
  have hbound := hs.bound call hcall
  unfold Bound at hbound ⊢
  rw [Subscriptions.bound_update, Subscriptions.written_callsIn_single]
  split_ifs with hop
  · by_contra hne
    exact h (by simpa using hne) call hcall hop.2.symm hop.1.symm
  · exact hbound

theorem step_inv {pb : Protobuf M D} (hlaw : pb.Lawful) {c : C} {s t : State C H F G M n}
    {a : Action C H F G M n} (hs : Inv pb c s) (hok : Served pb c s a ∧ Sized pb a)
    (h : step pb c s a = some t) : Inv pb c t := by
  obtain ⟨hserved, hsized⟩ := hok
  have hway := step_way hs.way hserved h
  cases a with
  | server a =>
    obtain ⟨pub, hpub, rfl⟩ := Option.map_eq_some_iff.mp h
    have hinv := Publishers.step_inv hlaw hs.pub hserved.1 hsized hpub
    obtain ⟨server, -, rfl⟩ := Option.map_eq_some_iff.mp hpub
    refine ⟨hway, hinv, ?_, ?_⟩
    · intro call hcall
      rcases List.mem_append.mp hcall with hcall | hcall
      · exact hs.bound call hcall
      · exact hserved.2 call (Option.mem_toList.mp hcall)
    · rw [postAll_routed]
      exact hs.invoked
  | pipe a => exact pipe_inv hs hserved h
  | bind protocol func =>
    obtain rfl := Option.some.inj h
    exact hs.router (.subscribe protocol func) (fun hno => by cases hno)
  | bindRaw protocol func =>
    obtain rfl := Option.some.inj h
    exact hs.router (.subscribeRaw protocol func) (fun hno => by cases hno)
  | unbind protocol =>
    obtain rfl := Option.some.inj h
    refine hs.router (.cancelSubscribe protocol) ?_
    intro _ call hcall htopic
    simp [hserved call hcall htopic, Subscriptions.Op.raw]
  | unbindRaw protocol =>
    obtain rfl := Option.some.inj h
    refine hs.router (.cancelSubscribeRaw protocol) ?_
    intro _ call hcall htopic
    simp [hserved call hcall htopic, Subscriptions.Op.raw]

theorem Inv.invoked_beginning {pb : Protobuf M D} {c : C} {s : State C H F G M n} (hs : Inv pb c s) :
    s.invoked <+: s.pub.posts.map Prod.snd := by
  obtain ⟨cs, hcs, hfits, hitems⟩ := hs.pub.frames
  have hrouted := (hs.way.routed_beginning hcs hfits).map (decode pb)
  rw [hs.invoked, hitems] at hrouted
  have hsome : (s.pub.posts.map fun e => some e.2) = (s.pub.posts.map Prod.snd).map some := by
    simp
  rw [hsome, List.prefix_map_iff_of_injective (Option.some_injective _)] at hrouted
  exact hrouted

theorem Inv.invoked_settled {pb : Protobuf M D} {c : C} {s : State C H F G M n} (hs : Inv pb c s)
    (h : Settled s) : s.invoked = s.pub.posts.map Prod.snd := by
  obtain ⟨cs, hcs, hfits, hitems⟩ := hs.pub.frames
  have hall := hs.invoked
  rw [hs.way.routed_settled h hcs hfits, hitems] at hall
  refine (List.map_injective_iff.mpr (Option.some_injective _)) ?_
  rw [← hall]
  simp

/-- In every run in which every string that is published is shorter than 4 GiB, the client's
handlers have been called with the first of what has been posted to its connection, in the same
order; with all of it once nothing is on its way any more, which comes about by itself; and
what is posted is what each thread has published in its order, apart from what it is about to
post. -/
theorem published_in_order {pb : Protobuf M D} (hlaw : pb.Lawful) {c : C}
    {as : List (Action C H F G M n)} {s : State C H F G M n}
    (hc : Conforms (step pb c) (fun s a => Served pb c s a ∧ Sized pb a) initial as)
    (hr : run (step pb c) initial as = some s) :
    s.invoked <+: s.pub.posts.map Prod.snd ∧
      (Settled s → s.invoked = s.pub.posts.map Prod.snd) ∧
      (∃ more t, (∀ a ∈ more, ∃ b, a = .pipe b ∧ Pipe.Up b) ∧ run (step pb c) s more = some t ∧
        Settled t ∧ t.invoked = s.pub.posts.map Prod.snd) ∧
      ∀ t, ofThread t s.pub.calls = ofThread t s.pub.posts ++ pending c s.pub t := by
  have hinv : Inv pb c s :=
    conforming_invariant (fun _ _ _ => step_inv hlaw) (initial_inv pb c) hc hr
  refine ⟨hinv.invoked_beginning, hinv.invoked_settled, ?_, hinv.pub.calls⟩
  obtain ⟨more, t, hmore, hrun, hsettled, -⟩ := exists_settled pb hinv.way
  obtain ⟨hallowed, hpub, -, -⟩ := run_pipe hmore hrun
  have hinv' : Inv pb c t := conforming_invariant (fun _ _ _ => step_inv hlaw) hinv hallowed hrun
  refine ⟨more, t, hmore, hrun, hsettled, ?_⟩
  rw [hinv'.invoked_settled hsettled, hpub]

instance (pb : Protobuf M D) (c : C) (s : Publishers.State C H M n) :
    (a : ServerWrites.Action C H M n) → Decidable (Publishers.Served pb c s a)
  | .core (.contentRead d content) =>
    inferInstanceAs (Decidable (d = c → content.flag.type = .subClient))
  | .publish _ topicName message =>
    inferInstanceAs (Decidable (∀ m ∈ message, pb.isInitialized m = true →
      s.server.core.topics.holds c topicName = true ∧
        (pb.createMessage (pb.fullName m)).isSome = true))
  | .publishRaw _ topicName _ =>
    inferInstanceAs (Decidable (s.server.core.topics.holds c topicName = true))
  | .push t expired =>
    inferInstanceAs (Decidable (∀ call ∈ s.server.publishing t, call.2.head? = some c →
      expired = false))
  | .core (.accept _ _) | .core (.headRead _) | .core (.headFailed _ _) | .core (.contentFailed _ _)
  | .core (.take _) | .core (.execute _ _) | .bind _ _ | .unbind _ | .bindRaw _ _ | .unbindRaw _
  | .call _ _ | .setResponse _ _ | .setResponseRaw _ _ | .endPublish _ => .isTrue trivial

instance (pb : Protobuf M D) (c : C) (s : State C H F G M n) :
    (a : Action C H F G M n) → Decidable (Served pb c s a)
  | .server a => inferInstanceAs (Decidable (Publishers.Served pb c s.pub a ∧
      ∀ call ∈ entered pb a, s.router.bound call.2.2.isRaw call.2.1 = true))
  | .pipe a => inferInstanceAs (Decidable (Pipe.Up a))
  | .unbind protocol => inferInstanceAs (Decidable (∀ call ∈ s.pub.calls, call.2.1 = protocol →
      call.2.2.isRaw = true))
  | .unbindRaw protocol => inferInstanceAs (Decidable (∀ call ∈ s.pub.calls,
      call.2.1 = protocol → call.2.2.isRaw = false))
  | .bind _ _ | .bindRaw _ _ => .isTrue trivial

instance (content : PushContent) : Decidable content.Fits :=
  inferInstanceAs (Decidable (_ ∧ _ ∧ _))

instance (pb : Protobuf M D) : (a : Action C H F G M n) → Decidable (Sized pb a)
  | .server (.publish _ topicName message) =>
    inferInstanceAs (Decidable (∀ m ∈ message, (messagePush pb topicName m).Fits))
  | .server (.publishRaw _ topicName message) =>
    inferInstanceAs (Decidable (publishRawContent topicName message).Fits)
  | .server (.core _) | .server (.bind _ _) | .server (.unbind _) | .server (.bindRaw _ _)
  | .server (.unbindRaw _) | .server (.call _ _) | .server (.setResponse _ _)
  | .server (.setResponseRaw _ _) | .server (.push _ _) | .server (.endPublish _) | .pipe _
  | .bind _ _ | .bindRaw _ _ | .unbind _ | .unbindRaw _ => .isTrue trivial

/-- Connection 0 is held under a topic, and its client has a handler for the strings that are
published on it. -/
def subscribed : List (Action ℕ Unit Unit Unit Empty 1) :=
  [.server (.core (.accept 0 ⟨7⟩)), .server (.core (.headRead 0)),
    .server (.core (.contentRead 0 ⟨0, ⟨.nonSerialize, .subClient⟩, [116], [], subscribeTopicFlag⟩)),
    .server (.core (.take WorkPool.soleWorker)), .server (.core (.execute WorkPool.soleWorker [])),
    .bindRaw [116] ()]

theorem noMessages_lawful : noMessages.Lawful where
  fullName_create _ prototype := prototype.elim
  create_nil := rfl
  parse_serialize prototype := prototype.elim

def twoPublishers : List (Action ℕ Unit Unit Unit Empty 1) :=
  subscribed ++ [.server (.publishRaw 0 [116] [9]), .server (.publishRaw 1 [116] []),
    .server (.push 1 false), .server (.push 0 false)]

theorem published_in_order_two_threads :
    ∃ (more : List (Action ℕ Unit Unit Unit Empty 1)) (t : State ℕ Unit Unit Unit Empty 1),
      run (step noMessages 0) initial (twoPublishers ++ more) = some t ∧
        t.invoked = [([116], .raw []), ([116], .raw [9])] := by
  have hok : Conforms (step noMessages 0) (fun s a => Served noMessages 0 s a ∧ Sized noMessages a)
      initial twoPublishers := by decide
  have hrun : (run (step noMessages 0) initial twoPublishers).map (fun s => s.pub.posts) =
      some [(1, [116], .raw []), (0, [116], .raw [9])] := by decide
  obtain ⟨s, hs, hposts⟩ := Option.map_eq_some_iff.mp hrun
  obtain ⟨-, -, ⟨more, t, -, hmore, -, hinvoked⟩, -⟩ := published_in_order noMessages_lawful hok hs
  refine ⟨more, t, run_trans hs hmore, ?_⟩
  rw [hinvoked, hposts]
  rfl

theorem push_truncated (topicName : Bytes) {data : Bytes} (h : data.length = 2 ^ 32) :
    (Frame.push (publishRawContent topicName data)).buffer =
      pushCodec.encode (publishRawContent topicName []) ++ data := by
  have hsize : sizeWord data = sizeWord [] := by
    rw [sizeWord, h]
    rfl
  simp [Frame.buffer, getPushBuffer, Codec.encode, pushCodec, PushHeader.ofContent,
    PushContent.toBytes, publishRawContent, hsize]

theorem WayInv.routed_truncated {c : C} {s : State C H F G M n} (hs : WayInv c s) (h : Settled s)
    {topicName data : Bytes} (ht : topicName.length < 2 ^ 32) (hd : data.length = 2 ^ 32)
    (hframes : framesTo c s.pub.server.written = [.push (publishRawContent topicName data)]) :
    ∃ rest, s.pipe.routed = publishRawContent topicName [] :: rest := by
  have hfits : (publishRawContent topicName []).Fits := ⟨ht, Nat.two_pow_pos 32, Nat.two_pow_pos 32⟩
  have hwire : s.pipe.wire = pushCodec.encode (publishRawContent topicName []) ++ data := by
    rw [hs.pipe.settled_wire h, hs.posts, hframes]
    simp [push_truncated topicName hd]
  refine ⟨pushCodec.readFrames data, ?_⟩
  rw [hs.pipe.settled_routed h, hwire]
  exact pushCodec.readFrames_cons (pushCodec.readFrame_encode hfits data)

theorem run_publishRaw (pb : Protobuf M D) {c : C} {s : State C H F G M n} {t : ℕ}
    {topicName : Bytes} (data : Bytes) (ht : s.pub.server.publishing t = none)
    (hconns : s.pub.server.core.topics.getConnectionByTopic topicName = [c]) :
    ∃ u, run (step pb c) s [.server (.publishRaw t topicName data), .server (.push t false)] = some u ∧
      u.pub.posts = s.pub.posts ++ [(t, topicName, .raw data)] ∧
      u.pub.server.written = s.pub.server.written ++ [(c, .push (publishRawContent topicName data))] ∧
      u.router = s.router ∧ u.invoked = s.invoked ∧ u.pipe.routed = s.pipe.routed := by
  let content := publishRawContent topicName data
  let entering : Publishers.State C H M n :=
    ⟨startCall s.pub.server t content, Function.update s.pub.current t (some (topicName, .raw data)),
      s.pub.calls ++ [(t, topicName, .raw data)], s.pub.posts⟩
  have hpublish : Publishers.step pb c s.pub (.publishRaw t topicName data) = some entering := by
    simp [Publishers.step, ServerWrites.step, publishImpl, ht, entering, startCall, setCall, entered,
      enter, posting, content]
  have hcall : entering.server.publishing t = some (content, [c]) := by
    simp [entering, startCall, setCall, content, publishRawContent, hconns]
  have hcurrent : entering.current t = some (topicName, .raw data) := Function.update_self ..
  have hpush : Publishers.step pb c entering (.push t false) =
      some ⟨asyncWrite (setCall entering.server t (some (content, []))) c (.push content),
        entering.current, entering.calls, entering.posts ++ [(t, topicName, .raw data)]⟩ := by
    simp [Publishers.step, ServerWrites.step, pushNext, hcall, hcurrent, setCall, entered, enter,
      posting]
  refine ⟨_, run_cons_eq_some.mpr ⟨_, congrArg (Option.map _) hpublish,
    run_cons_eq_some.mpr ⟨_, congrArg (Option.map _) hpush, rfl⟩⟩, rfl, rfl, rfl, rfl, ?_⟩
  simp only [postAll_routed]

theorem exists_published (data : Bytes) :
    ∃ (as : List (Action ℕ Unit Unit Unit Empty 1)) (s : State ℕ Unit Unit Unit Empty 1),
      Conforms (step noMessages 0) (Served noMessages 0) initial as ∧
        run (step noMessages 0) initial as = some s ∧ Settled s ∧ WayInv 0 s ∧ Handled noMessages s ∧
        s.router.bound true [116] = true ∧ s.pub.posts = [(0, [116], .raw data)] ∧
        framesTo 0 s.pub.server.written = [.push (publishRawContent [116] data)] := by
  have hserved : Conforms (step noMessages 0) (Served noMessages 0) initial subscribed := by decide
  have hsub : (run (step noMessages 0) initial subscribed).map (fun s =>
      ((s.pub.server.publishing 0, s.pub.server.core.topics.topicMap, s.pub.server.written),
        s.pub.posts, s.router.bound true [116], s.invoked, s.pipe.routed)) =
      some ((none, [([116], 0)], []), [], true, [], []) := rfl
  obtain ⟨s, hs, he⟩ := Option.map_eq_some_iff.mp hsub
  simp only [Prod.mk.injEq] at he
  obtain ⟨⟨hidle, htopics, hwritten⟩, hposts, hbound, hinvoked, hrouted⟩ := he
  have hholds : s.pub.server.core.topics.holds 0 [116] = true := by
    simp [TopicManager.holds, htopics]
  have hconns : s.pub.server.core.topics.getConnectionByTopic [116] = [0] := by
    simp [TopicManager.getConnectionByTopic, htopics]
  obtain ⟨u, hu, hposted, hframe, hrouter, hsame, hsameRouted⟩ :=
    run_publishRaw noMessages data hidle hconns
  have hpublish : Conforms (step noMessages 0) (Served noMessages 0) s
      [.server (.publishRaw 0 [116] data), .server (.push 0 false)] := by
    refine ⟨⟨hholds, ?_⟩, fun v hv => ⟨⟨fun call _ _ => rfl, ?_⟩, fun _ _ => trivial⟩⟩
    · rintro call ⟨rfl⟩
      exact hbound
    · intro call hcall
      cases hcall
  have hbefore := hserved.append hs hpublish
  have hway : WayInv 0 u :=
    conforming_invariant (fun _ _ _ => step_way) (initial_way 0) hbefore (run_trans hs hu)
  obtain ⟨more, t, hmore, hrun, hsettled, hway'⟩ := exists_settled noMessages hway
  obtain ⟨hafter, hpub, hrouter', hhandled⟩ := run_pipe hmore hrun
  refine ⟨_, t, hbefore.append (run_trans hs hu) (hafter.mono fun _ _ hok => hok.1),
    run_trans (run_trans hs hu) hrun, hsettled, hway', hhandled ?_, ?_, ?_, ?_⟩
  · simp [Handled, hsame, hsameRouted, hinvoked, hrouted]
  · rw [hrouter', hrouter]
    exact hbound
  · simp [hpub, hposted, hposts]
  · rw [hpub, hframe, hwritten]
    rfl

/-- The client is served throughout and everything has come to rest, but its handler has been
called with a string that was not published. -/
theorem publish_cut :
    ¬ ∀ (as : List (Action ℕ Unit Unit Unit Empty 1)) (s : State ℕ Unit Unit Unit Empty 1),
      Conforms (step noMessages 0) (Served noMessages 0) initial as →
        run (step noMessages 0) initial as = some s → Settled s →
          s.invoked = s.pub.posts.map Prod.snd := by
  intro h
  have hdata : (List.replicate (2 ^ 32) 0 : Bytes).length = 2 ^ 32 := List.length_replicate
  obtain ⟨as, s, hserved, hs, hsettled, hway, hhandled, hbound, hposts, hframes⟩ :=
    exists_published (List.replicate (2 ^ 32) 0)
  obtain ⟨rest, hrouted⟩ := hway.routed_truncated hsettled (by simp) hdata hframes
  have hfirst : routerThread noMessages s.router (publishRawContent [116] []) = some ([116], .raw []) :=
    routerThread_of_bound (decode_publishRaw [116] []) hbound
  have hinvoked := h as s hserved hs hsettled
  rw [hhandled, hrouted, List.filterMap_cons, hfirst, hposts, List.map_singleton] at hinvoked
  have hnil : ([] : Bytes) = List.replicate (2 ^ 32) 0 :=
    Payload.raw.inj (Prod.mk.inj (List.cons.inj hinvoked).1).2
  rw [← hnil] at hdata
  exact absurd hdata (by decide)

end Czrpc.PubSub
