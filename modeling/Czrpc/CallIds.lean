import Czrpc.AsyncPairing

/-! The ids under which an `async_rpc_client` registers its calls, and which call `route` finds
for a response. -/
namespace Czrpc.AsyncPairing
open Framing Protocol

variable {E H : Type*} {n : ℕ}

/-- The id of the `j`-th call, counted from 0. -/
def callIdOf (j : ℕ) : UInt32 := UInt32.ofNat (j + 1)

theorem callIdOf_eq_iff {i j : ℕ} : callIdOf i = callIdOf j ↔ i % 2 ^ 32 = j % 2 ^ 32 := by
  unfold callIdOf
  rw [← UInt32.toNat_inj, UInt32.toNat_ofNat', UInt32.toNat_ofNat']
  omega

/-- Calls are registered once, those of one id in the order of their issue, and when a call is
issued those before it with its id are no longer pending. -/
structure Ids (s : State E H n) : Prop where
  callId : s.client.callId = UInt32.ofNat s.contents.length
  contents : s.contents.map (fun content => content.callId) =
    (List.range s.contents.length).map callIdOf
  tasks : s.client.tasks.map (fun task => task.callId) = s.contents.map fun content => content.callId
  registered : s.client.calls.registered = s.owner.map callIdOf
  issued : ∀ j ∈ s.owner, j < s.contents.length
  once : s.owner.Nodup
  settled : ∀ i j : ℕ, i < j → j < s.contents.length → callIdOf i = callIdOf j → ¬ Pending s i
  order : ∀ r r' i j : ℕ, r < r' → s.owner[r]? = some i → s.owner[r']? = some j →
    callIdOf i = callIdOf j → i < j

theorem initial_ids : Ids (initial : State E H n) where
  callId := rfl
  contents := rfl
  tasks := rfl
  registered := rfl
  issued j h := by cases h
  once := List.nodup_nil
  settled i j hij hj := by cases hj
  order r r' i j hrr hr := by cases hr

theorem Ids.tasks_length {s : State E H n} (hs : Ids s) :
    s.client.tasks.length = s.contents.length := by
  simpa using congrArg List.length hs.tasks

theorem Ids.content_callId {s : State E H n} (hs : Ids s) {j : ℕ} {content : RequestContent}
    (h : s.contents[j]? = some content) : content.callId = callIdOf j := by
  have hj : (s.contents.map fun content => content.callId)[j]? = some content.callId := by simp [h]
  have hlt : j < s.contents.length := (List.getElem?_eq_some_iff.mp h).1
  rw [hs.contents] at hj
  simpa [hlt] using hj.symm

theorem Ids.task_callId {s : State E H n} (hs : Ids s) {j : ℕ} {task : AsyncClient.RpcTask}
    (h : s.client.tasks[j]? = some task) : task.callId = callIdOf j ∧ j < s.contents.length := by
  have hlt : j < s.contents.length := hs.tasks_length ▸ (List.getElem?_eq_some_iff.mp h).1
  have hj : (s.client.tasks.map fun task => task.callId)[j]? = some task.callId := by simp [h]
  rw [hs.tasks, hs.contents] at hj
  exact ⟨by simpa [hlt] using hj.symm, hlt⟩

theorem Ids.mono {s t : State E H n} (hs : Ids s) (hcallId : t.client.callId = s.client.callId)
    (hcontents : t.contents = s.contents)
    (htasks : t.client.tasks.map (fun task => task.callId) = s.client.tasks.map fun task => task.callId)
    (hregistered : t.client.calls.registered = s.client.calls.registered) (howner : t.owner = s.owner)
    (hpending : ∀ r, PendingCalls.Pending t.client.calls r → PendingCalls.Pending s.client.calls r) :
    Ids t := by
  refine ⟨?_, ?_, ?_, ?_, ?_, ?_, ?_, ?_⟩
  · rw [hcallId, hcontents, hs.callId]
  · rw [hcontents, hs.contents]
  · rw [htasks, hcontents, hs.tasks]
  · rw [hregistered, howner, hs.registered]
  · rw [howner, hcontents]
    exact hs.issued
  · rw [howner]
    exact hs.once
  · rw [hcontents]
    intro i j hij hj hid hp
    refine hs.settled i j hij hj hid ?_
    unfold Pending at hp ⊢
    rw [howner] at hp
    exact hp.imp id fun ⟨r, hr, hm⟩ => ⟨r, hr, hpending r hm⟩
  · rw [howner]
    exact hs.order

theorem Ids.asyncCall {s : State E H n} (hs : Ids s) (mode : SerializeMode)
    (funcName messageName body : Bytes)
    (hfree : ∀ j, s.client.tasks.length = j + 2 ^ 32 → ¬ Pending s j) :
    Ids { s with
      client := { s.client with
        callId := s.client.callId + 1
        tasks := s.client.tasks ++ [⟨s.client.callId + 1, none⟩] }
      contents := s.contents ++
        [⟨s.client.callId + 1, ⟨mode, .asyncRpcClient⟩, funcName, messageName, body⟩] } := by
  have hid : s.client.callId + 1 = callIdOf s.contents.length := by
    rw [hs.callId, callIdOf, UInt32.ofNat_add]
    rfl
  refine ⟨?_, ?_, ?_, hs.registered, ?_, hs.once, ?_, hs.order⟩
  · rw [List.length_append, List.length_singleton]
    exact hid
  · simp only [List.map_append, hs.contents, List.map_singleton, hid, List.length_append,
      List.length_singleton, List.range_succ]
  · simp only [List.map_append, hs.tasks, List.map_singleton]
  · intro j hj
    simp only [List.length_append, List.length_singleton]
    exact Nat.lt_succ_of_lt (hs.issued j hj)
  · intro i j hij hj hsame
    simp only [List.length_append, List.length_singleton] at hj
    change ¬ Pending s i
    rcases Nat.lt_succ_iff_lt_or_eq.mp hj with hj | rfl
    · exact hs.settled i j hij hj hsame
    · have hmod := callIdOf_eq_iff.mp hsame
      by_cases hlast : s.contents.length = i + 2 ^ 32
      · exact hfree i (hs.tasks_length.trans hlast)
      · refine hs.settled i (s.contents.length - 2 ^ 32) (by omega) (by omega) ?_
        rw [callIdOf_eq_iff]
        omega

theorem getElem?_concat {α : Type*} {l : List α} {x y : α} {r : ℕ} (h : (l ++ [x])[r]? = some y) :
    l[r]? = some y ∨ r = l.length ∧ y = x := by
  by_cases hr : r < l.length
  · rw [List.getElem?_append_left hr] at h
    exact Or.inl h
  · have hlt := (List.getElem?_eq_some_iff.mp h).1
    rw [List.length_append, List.length_singleton] at hlt
    obtain rfl : r = l.length := by omega
    exact Or.inr ⟨rfl, by simpa using h.symm⟩

theorem map_callId_set {tasks : List AsyncClient.RpcTask} {j : ℕ} {task : AsyncClient.RpcTask}
    (h : tasks[j]? = some task) (bound : Option ℕ) :
    (tasks.set j ⟨task.callId, bound⟩).map (fun task => task.callId) =
      tasks.map fun task => task.callId := by
  obtain ⟨hlt, rfl⟩ := List.getElem?_eq_some_iff.mp h
  have hlt' : j < (tasks.map fun task => task.callId).length := by simpa using hlt
  have hself := List.set_getElem_self hlt'
  rw [List.getElem_map] at hself
  rw [List.map_set, hself]

theorem Ids.addBindFunc {s : State E H n} (hs : Ids s) {j : ℕ} {task : AsyncClient.RpcTask}
    (hj : s.client.tasks[j]? = some task) (hfree : j ∉ s.owner) (now : ℤ) (bound : Option ℕ) :
    Ids { s with
      client := { s.client with
        calls := PendingCalls.addBindFunc s.client.calls task.callId now
        tasks := s.client.tasks.set j ⟨task.callId, bound⟩ }
      owner := s.owner ++ [j] } := by
  obtain ⟨hid, hlt⟩ := hs.task_callId hj
  refine ⟨hs.callId, hs.contents, ?_, ?_, ?_, ?_, ?_, ?_⟩
  · exact (map_callId_set hj bound).trans hs.tasks
  · simp only [PendingCalls.addBindFunc, hs.registered, List.map_append, List.map_singleton, hid]
  · intro i hi
    rcases List.mem_append.mp hi with hi | hi
    · exact hs.issued i hi
    · rw [List.mem_singleton.mp hi]
      exact hlt
  · exact hs.once.append (List.nodup_singleton j) (List.disjoint_singleton.mpr hfree)
  · intro i k hik hk hsame hp
    have hsettled := hs.settled i k hik hk hsame
    simp only [Pending, not_or, not_not, not_exists, not_and] at hsettled
    have hne : i ≠ j := fun h => hfree (h ▸ hsettled.1)
    rcases hp with hp | ⟨r, hr, e, he, rfl⟩
    · exact hp (List.mem_append_left _ hsettled.1)
    · have hold : s.owner[e.2.task]? = some i :=
        (getElem?_concat hr).resolve_right fun h => hne h.2
      rcases (s.client.calls.taskMap.mem_emplace _ _ _).mp he with he | ⟨-, rfl⟩
      · exact hsettled.2 e.2.task hold ⟨e, he, rfl⟩
      · have hlen : s.client.calls.registered.length < s.owner.length :=
          (List.getElem?_eq_some_iff.mp hold).1
        simp [hs.registered] at hlen
  · intro r r' i k hrr hr hr' hsame
    have hlt' : r' < s.owner.length + 1 := by
      simpa using (List.getElem?_eq_some_iff.mp hr').1
    have hold : s.owner[r]? = some i := by
      rw [← hr, List.getElem?_append_left (by omega)]
    rcases getElem?_concat hr' with hr' | ⟨-, rfl⟩
    · exact hs.order r r' i k hrr hold hr' hsame
    · have hi : i ∈ s.owner := List.mem_of_getElem? hold
      by_contra hle
      have hne : k ≠ i := fun h => hfree (h ▸ hi)
      have hsettled := hs.settled k i (by omega) (hs.issued i hi) hsame.symm
      exact hsettled (Or.inl hfree)

theorem calls_keep {requestTimeout : ℤ} {s t : PendingCalls.State} {b : PendingCalls.Action}
    (hb : ∀ callId now, b ≠ .addBindFunc callId now)
    (h : PendingCalls.step requestTimeout s b = some t) :
    t.registered = s.registered ∧ ∀ r, PendingCalls.Pending t r → PendingCalls.Pending s r := by
  cases b with
  | addBindFunc callId now => exact absurd rfl (hb callId now)
  | frame content =>
    simp only [PendingCalls.step] at h
    split_ifs at h
    obtain rfl := Option.some.inj h
    exact ⟨rfl, fun r hr => hr⟩
  | route =>
    obtain ⟨content, entry, -, -, rfl⟩ | ⟨content, -, rfl⟩ | ⟨content, task, -, rfl⟩ |
      ⟨content, task, -, rfl⟩ := PendingCalls.routeStep_cases h
    · exact ⟨rfl, fun r hr => hr⟩
    · exact ⟨rfl, fun r hr => hr⟩
    · refine ⟨rfl, ?_⟩
      rintro r ⟨e, he, ht⟩
      exact ⟨e, ((s.taskMap.mem_erase _ _).mp he).1, ht⟩
    · exact ⟨rfl, fun r hr => hr⟩
  | checkRequestTimeout now uninitialized =>
    obtain rfl := Option.some.inj h
    refine ⟨rfl, ?_⟩
    rintro r ⟨e, he, ht⟩
    exact ⟨e, (PendingCalls.mem_checkRequestTimeout.mp he).1, ht⟩
  | start =>
    simp only [PendingCalls.step] at h
    split_ifs at h
    obtain rfl := Option.some.inj h
    refine ⟨rfl, ?_⟩
    rintro r ⟨e, he, -⟩
    exact absurd he (s.taskMap.mem_clear e)

def settles : AsyncClient.Action → Bool
  | .asyncCall | .addBindFunc _ _ => false
  | _ => true

theorem tasks_keep {cfg : AsyncClient.Config} {s t : AsyncClient.State} {a : AsyncClient.Action}
    (ha : settles a = true) (h : AsyncClient.step cfg s a = some t) :
    t.callId = s.callId ∧
      t.tasks.map (fun task => task.callId) = s.tasks.map fun task => task.callId := by
  cases AsyncClient.step_effect h with
  | asyncCall | addBindFunc => cases ha
  | asyncWrite hj => exact ⟨rfl, map_callId_set hj none⟩
  | run | route | checkRequestTimeout | complete | runPosted | writeDone => exact ⟨rfl, rfl⟩

theorem table_keeps {cfg : AsyncClient.Config} {s t : AsyncClient.State} {a : AsyncClient.Action}
    (ha : settles a = true) (h : AsyncClient.step cfg s a = some t) :
    t.calls.registered = s.calls.registered ∧
      ∀ r, PendingCalls.Pending t.calls r → PendingCalls.Pending s.calls r := by
  rcases AsyncClient.step_calls h with he | ⟨b, hb, hstep⟩
  · rw [he]
    exact ⟨rfl, fun r hr => hr⟩
  · refine calls_keep ?_ hstep
    rintro callId now rfl
    cases hb
    cases ha

theorem Ids.client {cfg : AsyncClient.Config} {s t : State E H n} (hs : Ids s)
    {a : AsyncClient.Action} (ha : settles a = true)
    (h : AsyncClient.step cfg s.client a = some t.client) (hcontents : t.contents = s.contents)
    (howner : t.owner = s.owner) : Ids t := by
  obtain ⟨hcallId, htasks⟩ := tasks_keep ha h
  obtain ⟨hregistered, hpending⟩ := table_keeps ha h
  exact hs.mono hcallId hcontents htasks hregistered howner hpending

theorem connecting_calls {cfg : AsyncClient.Config} {s t : AsyncClient.State} {i : Option ℕ}
    (h : AsyncClient.step cfg s (connecting i) = some t) :
    t.calls.route = s.calls.route ∧ t.calls.queued = s.calls.queued := by
  have hstart : ∀ {calls : PendingCalls.State},
      PendingCalls.step cfg.requestTimeout s.calls .start = some calls →
        calls.route = s.calls.route ∧ calls.queued = s.calls.queued := by
    intro calls hcalls
    simp only [PendingCalls.step] at hcalls
    split_ifs at hcalls
    obtain rfl := Option.some.inj hcalls
    exact ⟨rfl, rfl⟩
  rcases AsyncClient.step_calls h with he | ⟨b, hb, hstep⟩
  · rw [he]
    exact ⟨rfl, rfl⟩
  · cases i with
    | none =>
      cases hb
      exact hstart hstep
    | some i =>
      cases hb
      exact hstart hstep

theorem content_calls {cfg : AsyncClient.Config} {s t : AsyncClient.State} {i : ℕ} {ec : Bool}
    {content : ResponseContent}
    (h : AsyncClient.step cfg s (.complete (.content i ec content)) = some t) :
    s.calls.route = .idle ∧ (t.calls = s.calls ∨
      ec = false ∧ t.calls = { s.calls with route := .entered content }) := by
  cases AsyncClient.step_effect h with
  | complete hidle hc =>
    refine ⟨hidle, ?_⟩
    simp only [IoChain.step] at hc
    split at hc
    · split_ifs at hc
      have hevent := congrArg Prod.snd (Option.some.inj hc)
      simp only [IoChain.contentHandler] at hevent
      split_ifs at hevent with hopen hec <;> subst hevent
      · exact Or.inl rfl
      · exact Or.inl rfl
      · exact Or.inr ⟨by simpa using hec, rfl⟩
    · cases hc

theorem internal_calls {cfg : AsyncClient.Config} {s t : AsyncClient.State} {a : AsyncClient.Action}
    (ha : internal a = true) (hne : a ≠ .route) (h : AsyncClient.step cfg s a = some t) :
    t.calls = s.calls := by
  rcases AsyncClient.step_calls h with he | ⟨b, hb, hstep⟩
  · exact he
  · cases hb with
    | run | addBindFunc | checkRequestTimeout | started => cases ha
    | route => exact absurd rfl hne
    | frame =>
      obtain rfl : _ = true := ha
      rcases (content_calls h).2 with he | ⟨hec, -⟩
      · exact he
      · cases hec

theorem request_mono {s t : State E H n} (howner : s.owner <+: t.owner)
    (hcontents : s.contents <+: t.contents) {r : ℕ} {content : RequestContent}
    (h : s.request r = some content) : t.request r = some content := by
  obtain ⟨j, hj, hcontent⟩ := Option.bind_eq_some_iff.mp h
  obtain ⟨hlt, rfl⟩ := List.getElem?_eq_some_iff.mp hj
  obtain ⟨hlt', rfl⟩ := List.getElem?_eq_some_iff.mp hcontent
  exact Option.bind_eq_some_iff.mpr ⟨_, List.prefix_iff_getElem?.mp howner r hlt,
    List.prefix_iff_getElem?.mp hcontents _ hlt'⟩

variable [DecidableEq E] in
theorem next_produced {s : State E H n} {content : ResponseContent} {r : ℕ}
    (h : s.next = some (content, r)) : Produced s r content := by
  unfold State.next at h
  split at h
  · rename_i c content' r' hframe
    obtain ⟨rfl, rfl⟩ := Prod.mk.inj (Option.some.inj h)
    obtain ⟨hm, hc⟩ := List.mem_filter.mp (List.mem_of_getElem? hframe)
    obtain rfl : c = .inl s.conns := by simpa using hc
    exact ⟨s.conns, hm⟩
  · cases h

/-- What `route` holds and what has been queued was produced for the call it goes to. -/
structure Routes (s : State E H n) : Prop where
  entered : ∀ content, s.client.calls.route = .entered content →
    ∃ r, s.routing = some r ∧ Produced s r content
  held : ∀ content task, s.client.calls.route = .found content task ∨
    s.client.calls.route = .erased content task → Produced s task content
  queued : ∀ q ∈ s.client.calls.queued, q ∈ s.timeouts ∨ Produced s q.1 q.2
  timeouts : ∀ q ∈ s.timeouts, ∃ uninitialized, q.2 = PendingCalls.timeoutContent uninitialized

structure Inv (s : State E H n) : Prop where
  ids : Ids s
  route : PendingCalls.RouteInv s.client.calls
  server : Answers.Inv s.server
  received : ∀ k content tag, ((.inl k, content), tag) ∈ s.server.received →
    ∃ r, tag = some r ∧ s.request r = some content
  routes : Routes s

theorem initial_routes : Routes (initial : State E H n) where
  entered content h := by cases h
  held content task h := by rcases h with h | h <;> cases h
  queued q h := by cases h
  timeouts q h := by cases h

theorem initial_inv : Inv (initial : State E H n) where
  ids := initial_ids
  route := PendingCalls.initial_route
  server := Answers.initial_inv
  received k content tag h := by cases h
  routes := initial_routes

theorem Inv.registered {s : State E H n} (hs : Inv s) {r : ℕ} {content : ResponseContent}
    (h : Produced s r content) :
    ∃ j, s.owner[r]? = some j ∧ callIdOf j = content.callId := by
  obtain ⟨k, hframe⟩ := h
  obtain ⟨tag, htag, request, hreceived, hid⟩ := List.forall₂_zip hs.server.answered hframe content rfl
  obtain rfl := Option.some.inj htag
  obtain ⟨r', hr', hrequest⟩ := hs.received k request _ hreceived
  obtain rfl := Option.some.inj hr'
  obtain ⟨j, howner, hcontent⟩ := Option.bind_eq_some_iff.mp hrequest
  exact ⟨j, howner, (hs.ids.content_callId hcontent).symm.trans hid⟩

/-- What `route` finds for a response in time is the call it is for. -/
theorem Inv.finds_own {s : State E H n} (hs : Inv s) {r : ℕ} {content : ResponseContent}
    {entry : PendingCalls.TaskWithTimepoint} (hproduced : Produced s r content)
    (hentry : (content.callId, entry) ∈ s.client.calls.taskMap.entries)
    (hlast : ∀ e ∈ s.client.calls.taskMap.entries, e.1 = content.callId → e.2.task ≤ r) :
    entry.task = r := by
  obtain ⟨j, hj, hid⟩ := hs.registered hproduced
  have howner := hs.route.known _ hentry
  simp only [hs.ids.registered, List.getElem?_map] at howner
  obtain ⟨i, hi, hsame⟩ := Option.map_eq_some_iff.mp howner
  rcases Nat.lt_or_eq_of_le (hlast _ hentry rfl) with hlt | heq
  · have hij := hs.ids.order _ _ i j hlt hi hj (hsame.trans hid.symm)
    have hissued := hs.ids.issued j (List.mem_of_getElem? hj)
    exact absurd (Or.inr ⟨_, hi, _, hentry, rfl⟩)
      (hs.ids.settled i j hij hissued (hsame.trans hid.symm))
  · exact heq

end Czrpc.AsyncPairing
