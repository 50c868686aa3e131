import Czrpc.CallIds

/-! Every task of an `async_rpc_client` runs on a response to its own request or on a timeout,
as long as no id is given out again while a response under it can still come. -/
namespace Czrpc.AsyncPairing
open Execution Framing Protocol ServerWrites
open Dispatch (Protobuf)

variable {E H : Type*} {M D : Type} {n : ℕ}

variable [DecidableEq E] {cfg : AsyncClient.Config} {pb : Protobuf M D}

theorem Inv.serves {s : State E H n} (hs : Inv s) {a : ServerWrites.Action (ℕ ⊕ E) H M n}
    {tag : Option ℕ} {server : Answers.State (ℕ ⊕ E) H n (Option ℕ)}
    (h : Answers.step pb s.server a tag = some server)
    (hnew : ∀ k content, Answers.arriving a = some (.inl k, content) →
      ∃ r, tag = some r ∧ s.request r = some content) (wire : ℕ → List ℕ) :
    Inv { s with server := server, wire := wire } := by
  have hproduced : ∀ r content, Produced s r content →
      Produced { s with server := server, wire := wire } r content :=
    fun r content ⟨k, hk⟩ => ⟨k, Answers.step_frames hs.server h hk⟩
  refine ⟨hs.ids.mono rfl rfl rfl rfl rfl fun _ => id, hs.route, Answers.step_inv hs.server h, ?_, ?_⟩
  · intro k content tag' hm
    obtain ⟨server', -, rfl⟩ := Option.map_eq_some_iff.mp h
    rcases List.mem_append.mp hm with hm | hm
    · exact hs.received k content tag' hm
    · obtain ⟨request, hrequest, he⟩ := List.mem_map.mp hm
      obtain ⟨rfl, rfl⟩ := Prod.mk.inj he
      exact hnew k content (Option.mem_toList.mp hrequest)
  · refine ⟨?_, fun content task hr => hproduced _ _ (hs.routes.held content task hr), ?_,
      hs.routes.timeouts⟩
    · intro content hr
      obtain ⟨r, hrouting, hp⟩ := hs.routes.entered content hr
      exact ⟨r, hrouting, hproduced _ _ hp⟩
    · intro q hq
      exact (hs.routes.queued q hq).imp id (hproduced _ _)

omit [DecidableEq E] in
theorem Inv.client {s t : State E H n} (hs : Inv s) (hids : Ids t)
    (hroute : PendingCalls.RouteInv t.client.calls) (hserver : t.server = s.server)
    (howner : s.owner <+: t.owner) (hcontents : s.contents <+: t.contents)
    (hpc : t.client.calls.route = s.client.calls.route) (hrouting : t.routing = s.routing)
    (hqueued : t.client.calls.queued = s.client.calls.queued) (htimeouts : t.timeouts = s.timeouts) :
    Inv t := by
  have hproduced : ∀ r content, Produced t r content ↔ Produced s r content := by
    simp [Produced, State.frames, hserver]
  refine ⟨hids, hroute, hserver ▸ hs.server, ?_, ?_⟩
  · intro k content tag hm
    rw [hserver] at hm
    obtain ⟨r, htag, hrequest⟩ := hs.received k content tag hm
    exact ⟨r, htag, request_mono howner hcontents hrequest⟩
  · refine ⟨?_, ?_, ?_, htimeouts ▸ hs.routes.timeouts⟩
    · simpa only [hpc, hrouting, hproduced] using hs.routes.entered
    · simpa only [hpc, hproduced] using hs.routes.held
    · simpa only [hqueued, htimeouts, hproduced] using hs.routes.queued

omit [DecidableEq E] in
theorem asyncCall_inv {s : State E H n} (hs : Inv s) (mode : SerializeMode)
    (funcName messageName body : Bytes)
    (hfree : ∀ j, s.client.tasks.length = j + 2 ^ 32 → ¬ Pending s j) :
    Inv { s with
      client := { s.client with
        callId := s.client.callId + 1
        tasks := s.client.tasks ++ [⟨s.client.callId + 1, none⟩] }
      contents := s.contents ++
        [⟨s.client.callId + 1, ⟨mode, .asyncRpcClient⟩, funcName, messageName, body⟩] } :=
  hs.client (hs.ids.asyncCall mode funcName messageName body hfree) hs.route rfl List.prefix_rfl
    (List.prefix_append _ _) rfl rfl rfl rfl

theorem addBindFunc_inv {s t : State E H n} (hs : Inv s) {j : ℕ} {now : ℤ} (hfree : j ∉ s.owner)
    (h : step cfg pb s (.addBindFunc j now) = some t) : Inv t := by
  obtain ⟨client, hclient, rfl⟩ := Option.map_eq_some_iff.mp h
  have hroute := AsyncClient.step_route hs.route hclient
  simp only [AsyncClient.step] at hclient
  split at hclient
  · rename_i callId hj
    obtain rfl := Option.some.inj hclient
    exact hs.client (hs.ids.addBindFunc hj hfree now _) hroute rfl (List.prefix_append _ _)
      List.prefix_rfl rfl rfl rfl rfl
  · cases hclient

theorem connect_inv {s t : State E H n} (hs : Inv s) {i : Option ℕ}
    (h : step cfg pb s (.connect i) = some t) : Inv t := by
  obtain ⟨client, hclient, rfl⟩ := Option.map_eq_some_iff.mp h
  obtain ⟨hpc, hqueued⟩ := connecting_calls hclient
  have hsettles : settles (connecting i) = true := by cases i <;> rfl
  exact hs.client (hs.ids.client hsettles hclient rfl rfl) (AsyncClient.step_route hs.route hclient) rfl
    List.prefix_rfl List.prefix_rfl hpc rfl hqueued rfl

theorem deliver_inv {s t : State E H n} (hs : Inv s) {i : ℕ}
    (h : step cfg pb s (.deliver i) = some t) : Inv t := by
  obtain ⟨⟨content, r⟩, hnext, h⟩ := Option.bind_eq_some_iff.mp h
  obtain ⟨client, hclient, rfl⟩ := Option.map_eq_some_iff.mp h
  obtain ⟨hidle, hcalls⟩ := content_calls hclient
  have hproduced := next_produced hnext
  refine ⟨hs.ids.client (a := .complete (.content i false content)) rfl hclient rfl rfl,
    AsyncClient.step_route hs.route hclient, hs.server, hs.received, ?_⟩
  rcases hcalls with hcalls | ⟨-, hcalls⟩
  · refine ⟨?_, ?_, ?_, hs.routes.timeouts⟩
    · simp [hcalls, hidle]
    · simp [hcalls, hidle]
    · rw [hcalls]
      exact hs.routes.queued
  · refine ⟨?_, ?_, ?_, hs.routes.timeouts⟩
    · intro content' hentered
      rw [hcalls] at hentered
      obtain rfl := PendingCalls.RoutePc.entered.inj hentered
      exact ⟨r, rfl, hproduced⟩
    · simp [hcalls]
    · rw [hcalls]
      exact hs.routes.queued

theorem checkRequestTimeout_inv {s t : State E H n} (hs : Inv s) {now : ℤ}
    {uninitialized : UInt32 → UInt32}
    (h : step cfg pb s (.checkRequestTimeout now uninitialized) = some t) : Inv t := by
  have hclient : AsyncClient.step cfg s.client (.checkRequestTimeout now uninitialized) =
      some { s.client with
        calls := PendingCalls.checkRequestTimeout cfg.requestTimeout now uninitialized
          s.client.calls } := rfl
  have hids := hs.ids.client (t := { s with client := _ }) rfl hclient rfl rfl
  have hroute := AsyncClient.step_route hs.route hclient
  obtain rfl := Option.some.inj h
  refine ⟨hids.mono rfl rfl rfl rfl rfl fun _ => id, hroute, hs.server, hs.received,
    hs.routes.entered, hs.routes.held, ?_, ?_⟩
  · intro q hq
    simp only [PendingCalls.checkRequestTimeout_eq, List.drop_left] at hq ⊢
    rcases List.mem_append.mp hq with hq | hq
    · exact (hs.routes.queued q hq).imp (List.mem_append_left _) id
    · exact Or.inl (List.mem_append_right _ hq)
  · intro q hq
    simp only [PendingCalls.checkRequestTimeout_eq, List.drop_left] at hq
    rcases List.mem_append.mp hq with hq | hq
    · exact hs.routes.timeouts q hq
    · obtain ⟨e, -, rfl⟩ := List.mem_map.mp hq
      exact ⟨_, rfl⟩

theorem route_inv {s t : State E H n} (hs : Inv s)
    (hin : InTime s (.client .route : Action E H M n))
    (h : step cfg pb s (.client .route) = some t) : Inv t := by
  obtain ⟨client, hclient, rfl⟩ := Option.map_eq_some_iff.mp h
  have hids := hs.ids.client (a := .route) (t := { s with client := client }) rfl hclient rfl rfl
  refine ⟨hids, AsyncClient.step_route hs.route hclient, hs.server, hs.received, ?_⟩
  obtain ⟨calls, hcalls, rfl⟩ := Option.map_eq_some_iff.mp hclient
  obtain ⟨content, entry, hr, he, rfl⟩ | ⟨content, hr, rfl⟩ | ⟨content, task, hr, rfl⟩ |
    ⟨content, task, hr, rfl⟩ := PendingCalls.routeStep_cases hcalls
  · obtain ⟨r, hrouting, hproduced⟩ := hs.routes.entered content hr
    simp only [InTime, hr, hrouting] at hin
    have hown := hs.finds_own hproduced he hin
    refine ⟨by simp, ?_, hs.routes.queued, hs.routes.timeouts⟩
    rintro content' task' (hfound | herased)
    · obtain ⟨rfl, rfl⟩ := PendingCalls.RoutePc.found.inj hfound
      rw [hown]
      exact hproduced
    · cases herased
  · exact ⟨by simp, by simp, hs.routes.queued, hs.routes.timeouts⟩
  · refine ⟨by simp, ?_, hs.routes.queued, hs.routes.timeouts⟩
    rintro content' task' (hfound | herased)
    · cases hfound
    · obtain ⟨rfl, rfl⟩ := PendingCalls.RoutePc.erased.inj herased
      exact hs.routes.held content task (Or.inl hr)
  · refine ⟨by simp, by simp, ?_, hs.routes.timeouts⟩
    intro q hq
    rcases List.mem_append.mp hq with hq | hq
    · exact hs.routes.queued q hq
    · obtain rfl := List.mem_singleton.mp hq
      exact Or.inr (hs.routes.held content task (Or.inr hr))

theorem internal_inv {s t : State E H n} (hs : Inv s) {a : AsyncClient.Action} (hne : a ≠ .route)
    (h : step cfg pb s (.client a) = some t) : Inv t := by
  simp only [step] at h
  split_ifs at h with ha
  obtain ⟨client, hclient, rfl⟩ := Option.map_eq_some_iff.mp h
  have hcalls := internal_calls ha hne hclient
  have hsettles : settles a = true := by cases a <;> first | rfl | cases ha
  exact hs.client (hs.ids.client hsettles hclient rfl rfl) (AsyncClient.step_route hs.route hclient) rfl
    List.prefix_rfl List.prefix_rfl (by rw [hcalls]) rfl (by rw [hcalls]) rfl

theorem step_inv {s t : State E H n} {a : Action E H M n} (hs : Inv s)
    (hok : IdsFree s a ∧ InTime s a) (h : step cfg pb s a = some t) : Inv t := by
  cases a with
  | asyncCall mode funcName messageName body =>
    obtain rfl := Option.some.inj h
    exact asyncCall_inv hs mode funcName messageName body hok.1
  | addBindFunc j now => exact addBindFunc_inv hs hok.1 h
  | connect i => exact connect_inv hs h
  | deliver i => exact deliver_inv hs h
  | checkRequestTimeout now uninitialized => exact checkRequestTimeout_inv hs h
  | client a =>
    by_cases hroute : a = .route
    · subst a
      exact route_inv hs hok.2 h
    · exact internal_inv hs hroute h
  | transmit i =>
    obtain ⟨r, -, rfl⟩ := Option.map_eq_some_iff.mp h
    exact hs.client (hs.ids.mono rfl rfl rfl rfl rfl fun _ => id) hs.route rfl List.prefix_rfl
      List.prefix_rfl rfl rfl rfl rfl
  | receive k =>
    simp only [step] at h
    split at h
    · rename_i r rest hwire
      obtain ⟨content, hrequest, h⟩ := Option.bind_eq_some_iff.mp h
      obtain ⟨server, hserver, rfl⟩ := Option.map_eq_some_iff.mp h
      refine hs.serves hserver ?_ _
      rintro k' content' ⟨⟩
      exact ⟨r, rfl, hrequest⟩
    · cases h
  | server a =>
    simp only [step] at h
    split_ifs at h with hforeign
    obtain ⟨server, hserver, rfl⟩ := Option.map_eq_some_iff.mp h
    refine hs.serves hserver ?_ s.wire
    intro k content harriving
    unfold Answers.arriving at harriving
    split at harriving
    · obtain ⟨rfl, -⟩ := Prod.mk.inj (Option.some.inj harriving)
      cases hforeign
    · cases harriving

/-- In every run in which no call is issued while the one issued `2 ^ 32` calls earlier is
pending, `result` is called once for an `rpc_task`, and `route` looks no response up while a later
call is in the table under its id, a task is queued with what a sweep made for its entry or with a
response that the server produced for the request of its call. -/
theorem runs_own_response {as : List (Action E H M n)} {s : State E H n}
    (hc : Conforms (step cfg pb) (fun s a => IdsFree s a ∧ InTime s a) initial as)
    (hr : run (step cfg pb) initial as = some s) {q : ℕ × ResponseContent}
    (hq : q ∈ s.client.calls.queued) :
    (q ∈ s.timeouts ∧ ∃ uninitialized, q.2 = PendingCalls.timeoutContent uninitialized) ∨
      Produced s q.1 q.2 := by
  have hinv : Inv s := conforming_invariant (fun _ _ _ => step_inv) initial_inv hc hr
  rcases hinv.routes.queued q hq with htimeout | hproduced
  · exact Or.inl ⟨htimeout, hinv.routes.timeouts q htimeout⟩
  · exact Or.inr hproduced

omit [DecidableEq E] in
theorem pending_iff {s : State E H n} {j : ℕ} :
    Pending s j ↔ j ∉ s.owner ∨ ∃ e ∈ s.client.calls.taskMap.entries, s.owner[e.2.task]? = some j := by
  unfold Pending PendingCalls.Pending
  refine or_congr_right ⟨?_, ?_⟩
  · rintro ⟨r, hr, e, he, rfl⟩
    exact ⟨e, he, hr⟩
  · rintro ⟨e, he, hr⟩
    exact ⟨_, hr, e, he, rfl⟩

instance (s : State E H n) (j : ℕ) : Decidable (Pending s j) := decidable_of_iff' _ pending_iff

instance (s : State E H n) : (a : Action E H M n) → Decidable (IdsFree s a)
  | .asyncCall _ _ _ _ => decidable_of_iff
      (2 ^ 32 ≤ s.client.tasks.length → ¬ Pending s (s.client.tasks.length - 2 ^ 32)) (by
        constructor
        · intro h j hj
          have hfree := h (by omega)
          rwa [hj, Nat.add_sub_cancel] at hfree
        · intro h hle
          exact h _ (by omega))
  | .addBindFunc j _ => inferInstanceAs (Decidable (j ∉ s.owner))
  | .connect _ | .deliver _ | .checkRequestTimeout _ _ | .client _ | .transmit _ | .receive _
  | .server _ => .isTrue trivial

instance (s : State E H n) : (a : Action E H M n) → Decidable (InTime s a)
  | .client .route =>
    match hpc : s.client.calls.route, hr : s.routing with
    | .entered content, some r => decidable_of_iff
        (∀ e ∈ s.client.calls.taskMap.entries, e.1 = content.callId → e.2.task ≤ r)
        (by simp only [InTime, hpc, hr])
    | .entered _, none => .isTrue (by simp only [InTime, hpc, hr])
    | .idle, _ => .isTrue (by simp only [InTime, hpc])
    | .found _ _, _ => .isTrue (by simp only [InTime, hpc])
    | .erased _ _, _ => .isTrue (by simp only [InTime, hpc])
  | .client .run | .client .asyncCall | .client (.addBindFunc _ _) | .client (.asyncWrite _)
  | .client (.checkRequestTimeout _ _) | .client (.complete _) | .client .runPosted
  | .client (.writeDone _ _) | .asyncCall _ _ _ _ | .addBindFunc _ _ | .connect _ | .deliver _
  | .checkRequestTimeout _ _ | .transmit _ | .receive _ | .server _ => .isTrue trivial

def answeredOnce : List (Action Empty Unit Empty 1) :=
  [.connect none, .server (.core (.accept (.inl 1) ⟨7⟩)), .server (.bindRaw [101] ()),
    .asyncCall .nonSerialize [101] [] [5], .addBindFunc 0 0, .client (.asyncWrite 0),
    .client .runPosted, .transmit 0, .client (.writeDone 0 false),
    .server (.core (.headRead (.inl 1))), .receive 1, .server (.core (.take WorkPool.soleWorker)),
    .server (.call WorkPool.soleWorker (some [])), .server (.setResponseRaw 0 [6]),
    .client (.complete (.head 0 false)),
    .deliver 0, .client .route, .client .route, .client .route]

def answeredTwice : List (Action Empty Unit Empty 1) :=
  answeredOnce ++ [.server (.setResponseRaw 0 [7]), .client (.complete (.head 0 false)), .deliver 0,
    .client .route, .asyncCall .nonSerialize [101] [] [5], .addBindFunc 1 20,
    .checkRequestTimeout 30 id]

theorem runs_own_response_answered_twice :
    ∃ s, run (step ⟨false, 10⟩ noMessages) initial answeredTwice = some s ∧
      s.client.calls.queued = [(0, ⟨1, .ok, [], [6]⟩), (1, PendingCalls.timeoutContent 2)] ∧
      Produced s 0 ⟨1, .ok, [], [6]⟩ := by
  have hok : Conforms (step ⟨false, 10⟩ noMessages) (fun s a => IdsFree s a ∧ InTime s a) initial
      answeredTwice := by decide
  have hrun : (run (step ⟨false, 10⟩ noMessages) initial answeredTwice).map
      (fun s => s.client.calls.queued) =
        some [(0, ⟨1, .ok, [], [6]⟩), (1, PendingCalls.timeoutContent 2)] := by decide
  obtain ⟨s, hs, hqueued⟩ := Option.map_eq_some_iff.mp hrun
  refine ⟨s, hs, hqueued, ?_⟩
  have hm : (0, ⟨1, .ok, [], [6]⟩) ∈ s.client.calls.queued := by simp [hqueued]
  rcases runs_own_response hok hs hm with ⟨-, uninitialized, htimeout⟩ | hproduced
  · cases congrArg ResponseContent.code htimeout
  · exact hproduced

/-- `k` calls have been issued and registered, the table has these entries, and the client has
nothing else to do. -/
structure Resting (k : ℕ) (entries : List (UInt32 × PendingCalls.TaskWithTimepoint))
    (server : Answers.State (ℕ ⊕ E) H n (Option ℕ)) (s : State E H n) : Prop where
  chain : s.client.chain = IoChain.connected
  table : s.client.calls.taskMap.entries = entries
  pc : s.client.calls.route = .idle
  send : s.client.send = SendQueue.initial
  callId : s.client.callId = UInt32.ofNat k
  tasks : s.client.tasks.length = k
  registered : s.client.calls.registered.length = k
  owner : s.owner = List.range k
  server : s.server = server
  current : s.conns = 1 ∧ s.seen = 1
  timeouts : ∀ q ∈ s.timeouts, ∃ uninitialized, q.2 = PendingCalls.timeoutContent uninitialized

def oneCall (k : ℕ) (now : ℤ) : List (Action E H M n) :=
  [.asyncCall .nonSerialize [101] [] [], .addBindFunc k now, .client (.asyncWrite k),
    .client .runPosted, .client (.writeDone 0 false)]

theorem run_oneCall (cfg : AsyncClient.Config) (pb : Protobuf M D) {k : ℕ}
    {server : Answers.State (ℕ ⊕ E) H n (Option ℕ)} {s : State E H n}
    (hs : Resting k [] server s) (now : ℤ) :
    ∃ t, run (step cfg pb) s (oneCall k now) = some t ∧
      Resting (k + 1) [(callIdOf k, ⟨k, now⟩)] server t := by
  have hid : s.client.callId + 1 = callIdOf k := by
    rw [hs.callId, callIdOf, UInt32.ofNat_add]
    rfl
  have hget : ∀ x : AsyncClient.RpcTask, (s.client.tasks ++ [x])[k]? = some x := by
    intro x
    rw [← hs.tasks]
    simp
  have hset : ∀ x y : AsyncClient.RpcTask, (s.client.tasks ++ [x]).set k y = s.client.tasks ++ [y] := by
    intro x y
    rw [← hs.tasks]
    simp
  refine ⟨{ s with
    client := { s.client with
      calls := PendingCalls.addBindFunc s.client.calls (callIdOf k) now
      callId := callIdOf k
      tasks := s.client.tasks ++ [⟨callIdOf k, none⟩] }
    contents := s.contents ++ [⟨callIdOf k, ⟨.nonSerialize, .asyncRpcClient⟩, [101], [], []⟩]
    owner := s.owner ++ [k] }, ?_, ?_⟩
  · have hpc : (PendingCalls.addBindFunc s.client.calls (callIdOf k) now).route = .idle := hs.pc
    simp [oneCall, run_cons, step, AsyncClient.step, hid, hget, hset, internal, hs.send, hpc,
      SendQueue.post, SendQueue.initial, SendQueue.runPosted, SendQueue.asyncWriteImpl,
      SendQueue.complete, SendQueue.writeHandler, SendQueue.startNext]
  · refine ⟨hs.chain, ?_, hs.pc, hs.send, rfl, ?_, ?_, ?_, hs.server, hs.current, hs.timeouts⟩
    · simp [PendingCalls.addBindFunc, UnorderedMap.emplace, hs.table, hs.registered]
    · simp [hs.tasks]
    · simp [PendingCalls.addBindFunc, hs.registered]
    · rw [hs.owner, List.range_succ]

theorem conforms_oneCall {k : ℕ} {server : Answers.State (ℕ ⊕ E) H n (Option ℕ)} {s : State E H n}
    (hs : Resting k [] server s) (now : ℤ) : Conforms (step cfg pb) IdsFree s (oneCall k now) := by
  refine ⟨?_, ?_⟩
  · intro j hj
    rw [pending_iff, hs.owner, hs.table]
    have hlt : j < k := by rw [← hs.tasks]; omega
    simp [hlt]
  · intro t ht
    obtain rfl := Option.some.inj ht
    refine ⟨?_, fun t _ => conforms_of_forall ?_ t⟩
    · simp [IdsFree, hs.owner]
    · simp only [List.forall_mem_cons, IdsFree, implies_true, List.not_mem_nil, false_imp_iff, and_self]

theorem run_sweep (isResend : Bool) (pb : Protobuf M D) {k : ℕ}
    {server : Answers.State (ℕ ⊕ E) H n (Option ℕ)} {s : State E H n} {now : ℤ}
    (hs : Resting (k + 1) [(callIdOf k, ⟨k, now⟩)] server s) :
    ∃ t, step ⟨isResend, 10⟩ pb s (.checkRequestTimeout (now + 10) id) = some t ∧
      Resting (k + 1) [] server t := by
  refine ⟨_, rfl, hs.chain, ?_, hs.pc, hs.send, hs.callId, hs.tasks, hs.registered, hs.owner, hs.server,
    hs.current, ?_⟩
  · simp [PendingCalls.checkRequestTimeout_eq, UnorderedMap.restrict, hs.table, PendingCalls.expired]
  · intro q hq
    simp only [PendingCalls.checkRequestTimeout_eq, List.drop_left] at hq
    rcases List.mem_append.mp hq with hq | hq
    · exact hs.timeouts q hq
    · obtain ⟨e, -, rfl⟩ := List.mem_map.mp hq
      exact ⟨_, rfl⟩

theorem exists_resting (isResend : Bool) (pb : Protobuf M D)
    {server : Answers.State (ℕ ⊕ E) H n (Option ℕ)} {s : State E H n} {k : ℕ}
    (hs : Resting k [] server s) (m : ℕ) :
    ∃ as t, Conforms (step ⟨isResend, 10⟩ pb) IdsFree s as ∧
      run (step ⟨isResend, 10⟩ pb) s as = some t ∧ Resting (k + m) [] server t := by
  induction m with
  | zero => exact ⟨[], s, trivial, rfl, hs⟩
  | succ m ih =>
    obtain ⟨as, t, hc, hr, ht⟩ := ih
    let now : ℤ := 10 * (k + m)
    obtain ⟨u, hu, hcalled⟩ := run_oneCall ⟨isResend, 10⟩ pb ht now
    obtain ⟨v, hv, hrested⟩ := run_sweep isResend pb hcalled
    let sweep : Action E H M n := .checkRequestTimeout (now + 10) id
    refine ⟨as ++ (oneCall (k + m) now ++ [sweep]), v, ?_, ?_, hrested⟩
    · refine hc.append hr ((conforms_oneCall ht _).append hu ?_)
      exact ⟨trivial, fun _ _ => trivial⟩
    · exact run_trans hr (run_trans hu (run_cons_eq_some.mpr ⟨v, hv, rfl⟩))

theorem run_read (cfg : AsyncClient.Config) (pb : Protobuf M D) {s : State E H n} {r : ℕ}
    {content : ResponseContent} (hchain : s.client.chain = IoChain.connected)
    (hpc : s.client.calls.route = .idle) (hnext : s.next = some (content, r)) :
    run (step cfg pb) s [.client (.complete (.head 0 false)), .deliver 0] = some { s with
      client := { s.client with calls := { s.client.calls with route := .entered content } }
      seen := s.seen + 1
      routing := some r } := by
  have hread : ∀ client, State.next { s with client := client } = some (content, r) := fun _ => hnext
  simp [run_cons, step, internal, hread, AsyncClient.step, hpc, hchain, IoChain.connected, IoChain.step,
    IoChain.headHandler, IoChain.contentHandler, IoChain.asyncReadContent, IoChain.asyncReadHead,
    IoChain.asyncRead, AsyncClient.handleEvent]

theorem run_route (cfg : AsyncClient.Config) (pb : Protobuf M D) {s : State E H n}
    {content : ResponseContent} {entry : PendingCalls.TaskWithTimepoint}
    (hpc : s.client.calls.route = .entered content)
    (hfind : s.client.calls.taskMap.find content.callId = some entry) :
    run (step cfg pb) s [.client .route, .client .route, .client .route] = some { s with
      client := { s.client with
        calls := { s.client.calls with
          taskMap := s.client.calls.taskMap.erase content.callId
          queued := s.client.calls.queued ++ [(entry.task, content)]
          route := .idle } } } := by
  simp [run_cons, step, internal, AsyncClient.step, PendingCalls.routeStep, hpc, hfind]

/-- A handler answers the first request once more, and the client reads the answer. -/
def lateAnswer : List (Action E H M n) :=
  [.server (.setResponseRaw 0 [8])] ++ ([.client (.complete (.head 0 false)), .deliver 0] ++
    [.client .route, .client .route, .client .route])

theorem run_lateAnswer (cfg : AsyncClient.Config) (pb : Protobuf M D) {k r : ℕ} {callId : UInt32}
    {now : ℤ} {server : Answers.State (ℕ ⊕ E) H n (Option ℕ)} {s : State E H n} {first : Frame}
    (hs : Resting k [(callId, ⟨r, now⟩)] server s)
    (hresponses : server.server.responses = [(.inl 1, callId)]) (horigins : server.origins = [some 0])
    (hwritten : server.server.written = [(.inl 1, first)])
    (hanswered : server.answered = [some (some 0)]) :
    ∃ t, run (step cfg pb) s lateAnswer = some t ∧
      (r, ⟨callId, .ok, [], [8]⟩) ∈ t.client.calls.queued ∧ t.timeouts = s.timeouts ∧
      t.server.answered = [some (some 0), some (some 0)] := by
  let answer : ResponseContent := ⟨callId, .ok, [], [8]⟩
  let server' : Answers.State (ℕ ⊕ E) H n (Option ℕ) :=
    { server with
      server := { server.server with written := [(.inl 1, first), (.inl 1, .response answer)] }
      answered := [some (some 0), some (some 0)] }
  have hserver : Answers.step pb s.server (.setResponseRaw 0 [8]) none = some server' := by
    simp [Answers.step, ServerWrites.step, ServerWrites.answer, hs.server, hresponses, hwritten,
      Dispatch.output_setResponseRaw, Answers.arriving, Answers.waitingAfter, Answers.taking,
      Answers.runningAfter, Answers.answering, horigins, hanswered, server', answer]
  have hanswer : step cfg pb s (.server (.setResponseRaw 0 [8])) =
      some { s with server := server' } := by
    simp [step, foreign, hserver]
  have hnext : State.next { s with server := server' } = some (answer, 0) := by
    simp [State.next, State.frames, server', hs.current]
  have hfind : s.client.calls.taskMap.find callId = some ⟨r, now⟩ := by
    simp [UnorderedMap.find_eq_some_iff, hs.table]
  have hread := run_read cfg pb (s := { s with server := server' }) hs.chain hs.pc hnext
  have hroute := run_route cfg pb (s := { s with
    client := { s.client with calls := { s.client.calls with route := .entered answer } }
    server := server'
    seen := s.seen + 1
    routing := some 0 }) rfl hfind
  refine ⟨_, run_trans (run_cons_eq_some.mpr ⟨_, hanswer, rfl⟩) (run_trans hread hroute), ?_, rfl, rfl⟩
  exact List.mem_append_right _ List.mem_cons_self

/-- The second answer to the first call reaches the call issued `2 ^ 32` calls later. -/
theorem late_answer_misrouted :
    ¬ ∀ (as : List (Action Empty Unit Empty 1)) (s : State Empty Unit 1),
      Conforms (step ⟨false, 10⟩ noMessages) IdsFree initial as →
        run (step ⟨false, 10⟩ noMessages) initial as = some s →
          ∀ q ∈ s.client.calls.queued, q ∈ s.timeouts ∨ Produced s q.1 q.2 := by
  intro h
  have hfree : Conforms (step ⟨false, 10⟩ noMessages) IdsFree initial answeredOnce := by decide
  have hrun : (run (step ⟨false, 10⟩ noMessages) initial answeredOnce).map (fun s =>
      ((s.client, s.owner, s.conns, s.seen, s.timeouts), s.server.server.responses, s.server.origins,
        s.server.server.written, s.server.answered)) =
      some ((⟨IoChain.connected, ⟨.empty, [1], [(0, ⟨1, .ok, [], [6]⟩)], .idle⟩, SendQueue.initial, 1,
        [⟨1, none⟩]⟩, [0], 1, 1, []), [(.inl 1, 1)], [some 0],
        [(.inl 1, .response ⟨1, .ok, [], [6]⟩)], [some (some 0)]) := rfl
  obtain ⟨s, hs, he⟩ := Option.map_eq_some_iff.mp hrun
  simp only [Prod.mk.injEq] at he
  obtain ⟨⟨hclient, howner, hconns, hseen, htimeouts⟩, hresponses, horigins, hwritten, hanswered⟩ := he
  have hrest : Resting 1 [] s.server s := by
    refine ⟨?_, ?_, ?_, ?_, ?_, ?_, ?_, howner, rfl, ⟨hconns, hseen⟩, by simp [htimeouts]⟩ <;>
      rw [hclient] <;> rfl
  obtain ⟨m, hm⟩ : ∃ m, 1 + m = 2 ^ 32 := ⟨2 ^ 32 - 1, by omega⟩
  have hid : callIdOf (1 + m) = 1 := by
    have hzero : callIdOf (1 + m) = callIdOf 0 := callIdOf_eq_iff.mpr (by omega)
    exact hzero
  obtain ⟨as, t, hc, ht, hrested⟩ := exists_resting false noMessages hrest m
  obtain ⟨u, hu, hcalled⟩ := run_oneCall ⟨false, 10⟩ noMessages hrested (10 * (1 + m))
  rw [hid] at hcalled
  obtain ⟨v, hv, hqueued, hsame, htags⟩ := run_lateAnswer ⟨false, 10⟩ noMessages hcalled hresponses
    horigins hwritten hanswered
  have hallowed : Conforms (step ⟨false, 10⟩ noMessages) IdsFree u lateAnswer :=
    conforms_of_forall (by simp [lateAnswer, IdsFree]) u
  have hconforms := (hfree.append hs hc).append (run_trans hs ht)
    ((conforms_oneCall hrested _).append hu hallowed)
  rcases h _ v hconforms (run_trans (run_trans hs ht) (run_trans hu hv)) _ hqueued with
    htimeout | ⟨k, hframe⟩
  · rw [hsame] at htimeout
    obtain ⟨uninitialized, hcontent⟩ := hcalled.timeouts _ htimeout
    cases congrArg ResponseContent.code hcontent
  · have htag := (List.of_mem_zip hframe).2
    rw [htags] at htag
    simp at htag

end Czrpc.AsyncPairing
