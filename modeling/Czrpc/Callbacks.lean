import Czrpc.AsyncClient
import Czrpc.Echo

/-! The callback of an asynchronous call. `rpc_task::result` wraps it into a task that makes a
`result` of the response and calls it; whatever throws on the way is caught and logged. -/
namespace Czrpc.Callbacks
open Execution Framing Protocol Dispatch Calls

variable {M D : Type}

abbrev Task (M : Type) := EStateM String (List (Result M))

def throwing {α : Type} : Except String α → Task M α
  | .ok a => pure a
  | .error e => throw e

/-- The callback `func` itself may throw. -/
def callFunc (func : Result M → Except String Unit) (ret : Result M) : Task M Unit := do
  modify fun calls => calls ++ [ret]
  throwing (func ret)

def runTask (pb : Protobuf M D) (func : Result M → Except String Unit) (content : ResponseContent) :
    Task M Unit :=
  tryCatch
    (if content.messageName ≠ [] then
      if content.code ≠ .ok then callFunc func ⟨content.code, content.callId, none, []⟩
      else do
        let message ← throwing (pb.deserialize content.messageName content.body)
        callFunc func ⟨content.code, content.callId, some message, []⟩
    else if content.code ≠ .ok then callFunc func ⟨content.code, content.callId, none, []⟩
    else callFunc func ⟨content.code, content.callId, none, content.body⟩)
    fun _ => pure ()

def invocations (pb : Protobuf M D) (func : Result M → Except String Unit)
    (content : ResponseContent) : List (Result M) :=
  match (runTask pb func content).run [] with
  | .ok _ calls => calls
  | .error _ calls => calls

theorem invocations_eq (pb : Protobuf M D) (func : Result M → Except String Unit)
    (content : ResponseContent) : invocations pb func content = (task pb content).toList := by
  have hcall : ∀ ret, (tryCatch (callFunc func ret) fun _ => pure () : Task M Unit).run [] =
      .ok () [ret] := by
    intro ret
    rw [callFunc]
    cases func ret <;> rfl
  unfold invocations runTask task
  split_ifs with hname hcode hcode
  · rw [hcall]
    rfl
  · cases pb.deserialize content.messageName content.body with
    | error e => rfl
    | ok message =>
      have hbind : (throwing (.ok message) >>= fun m => callFunc func
          ⟨content.code, content.callId, some m, []⟩ : Task M Unit) =
          callFunc func ⟨content.code, content.callId, some message, []⟩ := rfl
      rw [hbind, hcall]
      rfl
  · rw [hcall]
    rfl
  · rw [hcall]
    rfl

/-- The result holds what the response brings: the message, or the raw data. -/
def Carries (pb : Protobuf M D) (content : ResponseContent) (result : Result M) : Prop :=
  if content.messageName = [] then result.rawData = content.body
  else ∃ message, pb.deserialize content.messageName content.body = .ok message ∧
    result.message = some message

/-- The callback is called once, with an error or with what the response brings. -/
def Told (pb : Protobuf M D) (content : ResponseContent) (calls : List (Result M)) : Prop :=
  ∃ result, calls = [result] ∧ (result.errorCode = .ok → Carries pb content result)

/-- The user is told of a response if and only if it has an error code, or has no message
name, or its message can be read. -/
theorem told_iff (pb : Protobuf M D) (func : Result M → Except String Unit)
    (content : ResponseContent) :
    Told pb content (invocations pb func content) ↔
      content.code ≠ .ok ∨ content.messageName = [] ∨
        ∃ message, pb.deserialize content.messageName content.body = .ok message := by
  rw [invocations_eq]
  by_cases hname : content.messageName = []
  · simp only [hname, true_or, or_true, iff_true]
    by_cases hcode : content.code = .ok
    · refine ⟨⟨content.code, content.callId, none, content.body⟩, ?_, ?_⟩
      · simp [task, hname, hcode]
      · simp [Carries, hname]
    · refine ⟨⟨content.code, content.callId, none, []⟩, ?_, fun h => absurd h hcode⟩
      simp [task, hname, hcode]
  · by_cases hcode : content.code = .ok
    · cases hm : pb.deserialize content.messageName content.body with
      | error e => simp [Told, task, hname, hcode, hm]
      | ok message =>
        simp only [Except.ok.injEq, exists_eq', or_true, iff_true]
        refine ⟨⟨content.code, content.callId, some message, []⟩, ?_, ?_⟩
        · simp [task, hname, hcode, hm]
        · simp [Carries, hname, hm]
    · simp only [ne_eq, hcode, not_false_eq_true, true_or, iff_true]
      refine ⟨⟨content.code, content.callId, none, []⟩, ?_, fun h => absurd h hcode⟩
      simp [task, hname, hcode]

/-- A response whose message type the client does not know is not told at all. -/
theorem untold : ¬ ∀ (pb : Protobuf Bytes Unit) (func : Result Bytes → Except String Unit)
    (content : ResponseContent), Told pb content (invocations pb func content) := by
  intro h
  obtain ⟨result, hcalls, -⟩ := h Echo.textProtobuf (fun _ => .ok ()) ⟨1, .ok, [120], []⟩
  have hnone : invocations Echo.textProtobuf (fun _ => .ok ()) ⟨1, .ok, [120], []⟩ = [] := rfl
  rw [hnone] at hcalls
  cases hcalls

section CallId
open PendingCalls AsyncClient

/-- What the `r`-th call of `rpc_task::result` returns: the id that it has registered. -/
def returnedId (s : AsyncClient.State) (r : ℕ) : Option UInt32 := s.calls.registered[r]?

/-- Where a sweep leaves `call_id` uninitialised, the memory holds the id of the entry. -/
def MemoryHoldsId (requestTimeout : ℤ) (s : PendingCalls.State) : PendingCalls.Action → Prop
  | .checkRequestTimeout now uninitialized => ∀ e ∈ s.taskMap.entries,
      expired requestTimeout now e.2 = true → uninitialized e.1 = e.1
  | _ => True

def MemoryOk (cfg : Config) (s : AsyncClient.State) : AsyncClient.Action → Prop
  | .checkRequestTimeout now uninitialized =>
    MemoryHoldsId cfg.requestTimeout s.calls (.checkRequestTimeout now uninitialized)
  | _ => True

def Named (s : PendingCalls.State) : Prop := ∀ q ∈ s.queued, s.registered[q.1]? = some q.2.callId

theorem calls_named {requestTimeout : ℤ} {s t : PendingCalls.State} {b : PendingCalls.Action}
    (hroute : RouteInv s) (hs : Named s) (hok : MemoryHoldsId requestTimeout s b)
    (h : PendingCalls.step requestTimeout s b = some t) : Named t := by
  cases b with
  | addBindFunc callId now =>
    obtain rfl := Option.some.inj h
    intro q hq
    have hid := hs q hq
    simp only [addBindFunc]
    rwa [List.getElem?_append_left (List.getElem?_eq_some_iff.mp hid).1]
  | frame content =>
    simp only [PendingCalls.step] at h
    split_ifs at h
    obtain rfl := Option.some.inj h
    exact hs
  | route =>
    obtain ⟨content, entry, -, -, rfl⟩ | ⟨content, -, rfl⟩ | ⟨content, task, -, rfl⟩ |
      ⟨content, task, hr, rfl⟩ := routeStep_cases h
    · exact hs
    · exact hs
    · exact hs
    · intro q hq
      rcases List.mem_append.mp hq with hq | hq
      · exact hs q hq
      · obtain rfl := List.mem_singleton.mp hq
        exact hroute.held content task (Or.inr hr)
  | checkRequestTimeout now uninitialized =>
    obtain rfl := Option.some.inj h
    rw [checkRequestTimeout_eq]
    intro q hq
    rcases List.mem_append.mp hq with hq | hq
    · exact hs q hq
    · obtain ⟨e, he, rfl⟩ := List.mem_map.mp hq
      obtain ⟨hmem, hexpired⟩ := List.mem_filter.mp he
      have hid : uninitialized e.1 = e.1 := hok e hmem hexpired
      simpa [timeoutContent, hid] using hroute.known e hmem
  | start =>
    simp only [PendingCalls.step] at h
    split_ifs at h
    obtain rfl := Option.some.inj h
    exact hs

theorem step_named {cfg : Config} {s t : AsyncClient.State} {a : AsyncClient.Action}
    (hs : RouteInv s.calls ∧ Named s.calls) (hok : MemoryOk cfg s a)
    (h : AsyncClient.step cfg s a = some t) : RouteInv t.calls ∧ Named t.calls := by
  refine ⟨AsyncClient.step_route hs.1 h, ?_⟩
  rcases step_calls h with he | ⟨b, hb, hstep⟩
  · exact he ▸ hs.2
  · refine calls_named hs.1 hs.2 ?_ hstep
    cases hb <;> exact hok

theorem callId_of_mem_invocations {pb : Protobuf M D} {func : Result M → Except String Unit}
    {content : ResponseContent} {result : Result M} (h : result ∈ invocations pb func content) :
    result.callId = content.callId := by
  rw [invocations_eq, Option.mem_toList] at h
  unfold task at h
  split_ifs at h
  · rw [← Option.some.inj h]
  · split at h
    · rw [← Option.some.inj h]
    · cases h
  · rw [← Option.some.inj h]
  · rw [← Option.some.inj h]

/-- What reaches a callback names the call that it was passed for, unless it is a timeout; and
a timeout does so too in runs in which every sweep finds the right id in the memory that it
does not initialise. -/
theorem result_names_call (cfg : Config) (pb : Protobuf M D) (func : Result M → Except String Unit)
    {as : List AsyncClient.Action} {s : AsyncClient.State}
    (hr : run (AsyncClient.step cfg) AsyncClient.initial as = some s) {r : ℕ}
    {content : ResponseContent} (hq : (r, content) ∈ s.calls.queued) {result : Result M}
    (hresult : result ∈ invocations pb func content)
    (hok : content.code ≠ .requestTimeout ∨
      Conforms (AsyncClient.step cfg) (MemoryOk cfg) AsyncClient.initial as) :
    returnedId s r = some result.callId := by
  rw [callId_of_mem_invocations hresult, returnedId]
  rcases hok with hcode | hc
  · have hroute : RouteInv s.calls := run_invariant (I := fun s => RouteInv s.calls)
      (fun _ _ _ => AsyncClient.step_route) PendingCalls.initial_route hr
    obtain ⟨callId, hid, hcontent | ⟨uninitialized, hcontent⟩⟩ := hroute.answered _ hq
    · rw [hid, ← hcontent]
    · have hcontent : content = timeoutContent uninitialized := hcontent
      rw [hcontent] at hcode
      exact absurd rfl hcode
  · have hinit : Named AsyncClient.initial.calls := by
      intro q hq
      cases hq
    have hs : RouteInv s.calls ∧ Named s.calls :=
      conforming_invariant (I := fun s => RouteInv s.calls ∧ Named s.calls)
        (fun _ _ _ => step_named) ⟨PendingCalls.initial_route, hinit⟩ hc hr
    exact hs.2 _ hq

def answeredAndExpired (memory : UInt32) : List AsyncClient.Action :=
  [.run, .asyncCall, .addBindFunc 0 0, .asyncWrite 0, .asyncCall, .addBindFunc 1 0, .asyncWrite 1,
    .complete (.head 0 false), .complete (.content 0 false ⟨1, .ok, [], [104]⟩), .route, .route, .route,
    .checkRequestTimeout 10 fun _ => memory]

theorem result_names_answered_call :
    ∃ s, run (AsyncClient.step ⟨false, 10⟩) AsyncClient.initial (answeredAndExpired 5) = some s ∧
      returnedId s 0 = some 1 := by
  have hrun : (run (AsyncClient.step ⟨false, 10⟩) AsyncClient.initial (answeredAndExpired 5)).map
      (fun s => s.calls.queued) =
      some [(0, ⟨1, .ok, [], [104]⟩), (1, ⟨5, .requestTimeout, [], []⟩)] := by decide
  obtain ⟨s, hs, hqueued⟩ := Option.map_eq_some_iff.mp hrun
  have hq : (0, ⟨1, .ok, [], [104]⟩) ∈ s.calls.queued := by
    rw [hqueued]
    exact List.mem_cons_self
  have hresult : (⟨.ok, 1, none, [104]⟩ : Result Bytes) ∈
      invocations Echo.textProtobuf (fun _ => .ok ()) ⟨1, .ok, [], [104]⟩ := List.mem_singleton_self _
  exact ⟨s, hs, result_names_call _ Echo.textProtobuf _ hs hq hresult (Or.inl (by decide))⟩

/-- The callback of the second call, whose id is 2, gets whatever was in the memory. -/
theorem result_names_other_call : ¬ ∀ (cfg : Config) (as : List AsyncClient.Action)
    (s : AsyncClient.State) (r : ℕ) (content : ResponseContent) (result : Result Bytes),
    run (AsyncClient.step cfg) AsyncClient.initial as = some s → (r, content) ∈ s.calls.queued →
    result ∈ invocations Echo.textProtobuf (fun _ => .ok ()) content →
    returnedId s r = some result.callId := by
  intro h
  have hrun : (run (AsyncClient.step ⟨false, 10⟩) AsyncClient.initial (answeredAndExpired 5)).map
      (fun s => (s.calls.queued, returnedId s 1)) =
      some ([(0, ⟨1, .ok, [], [104]⟩), (1, ⟨5, .requestTimeout, [], []⟩)], some 2) := by decide
  obtain ⟨s, hs, he⟩ := Option.map_eq_some_iff.mp hrun
  obtain ⟨hqueued, hid⟩ := Prod.mk.inj he
  have hq : (1, ⟨5, .requestTimeout, [], []⟩) ∈ s.calls.queued := by
    rw [hqueued]
    exact List.mem_cons_of_mem _ List.mem_cons_self
  have hresult : (⟨.requestTimeout, 5, none, []⟩ : Result Bytes) ∈
      invocations Echo.textProtobuf (fun _ => .ok ()) ⟨5, .requestTimeout, [], []⟩ :=
    List.mem_singleton_self _
  have hnamed := h _ _ s 1 _ _ hs hq hresult
  rw [hid] at hnamed
  exact absurd hnamed (by decide)

end CallId

end Czrpc.Callbacks
