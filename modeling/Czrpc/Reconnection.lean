import Czrpc.Execution
import Czrpc.Subscriptions

/-! A `sub_client` with message subscriptions and the server it is connected to,
across losses of the connection. One user thread makes calls, the io thread writes
the requests and runs `start` after a reconnect, and the one worker of the server
processes the requests in the order in which they arrive. Requests travel whole,
resend is off, and a connection whose write has failed is lost. -/
namespace Czrpc.Reconnection
open Execution Framing Protocol LastWrite Subscriptions

/-- `inProgress` is the call that has written its request and not yet changed the
router. `conn` names the last connection and `up` tells whether it still carries
bytes; `starting` is a connect whose handler has not run. `inbox` are the requests
that the server has yet to process, with their connections. -/
structure State (F G : Type*) where
  router : SubRouter F G
  inProgress : Option (Op F G)
  send : SendQueue.State RequestContent
  retry : Retry
  conn : ℕ
  up : Bool
  starting : Bool
  inbox : List (ℕ × RequestContent)
  topics : TopicManager ℕ
  deriving DecidableEq

variable {F G : Type*}

def initial : State F G := ⟨.empty, none, SendQueue.initial, .idle, 0, true, false, [], .empty⟩

inductive Action (F G : Type*)
  | subscribe (topicName : Bytes) (func : F)
  | cancelSubscribe (topicName : Bytes)
  | update
  | runPosted
  | writeDone (i : ℕ) (ec : Bool)
  | lost
  | connected
  | start
  | retry
  | serve (expired : List ℕ)
  | serverHandleError (c : ℕ) (expired : List ℕ)

def call (s : State F G) (op : Op F G) : State F G :=
  { s with send := SendQueue.post s.send op.request, inProgress := some op }

/-- A request that has been written arrives, unless the connection is lost. -/
def deliver (s : State F G) (content : RequestContent) : State F G :=
  if s.up then { s with inbox := s.inbox ++ [(s.conn, content)] } else s

/-- `expired` are the connections that have no owner left; the worker and the error
handler own the one they act for. The io thread runs a handler only when it is not
inside `start`. -/
def step (s : State F G) : Action F G → Option (State F G)
  | .subscribe topicName func =>
    if s.inProgress.isNone then some (call s (.subscribe topicName func)) else none
  | .cancelSubscribe topicName =>
    if s.inProgress.isNone then some (call s (.cancelSubscribe topicName)) else none
  | .update =>
    match s.inProgress with
    | some op => some { s with router := op.update s.router, inProgress := none }
    | none => none
  | .runPosted =>
    if s.retry = .idle then
      (SendQueue.runPosted s.send).map fun send => { s with send := send }
    else none
  | .writeDone i ec =>
    if s.retry = .idle then
      match s.send.writing[i]? with
      | some content =>
        (SendQueue.complete s.send false i ec).map fun send =>
          if ec then { s with send := send, up := false } else deliver { s with send := send } content
      | none => none
    else none
  | .lost => some { s with up := false }
  | .connected =>
    if s.up = false ∧ s.starting = false ∧ s.retry = .idle then
      some { s with conn := s.conn + 1, up := true, starting := true }
    else none
  | .start =>
    if s.starting = true ∧ s.retry = .idle then
      some { s with starting := false, retry := .begun }
    else none
  | .retry =>
    (retryStep s.router s.send s.retry).map fun r => { s with send := r.1, retry := r.2 }
  | .serve expired =>
    match s.inbox with
    | (c, content) :: rest =>
      if c ∈ expired then none
      else some { s with
        inbox := rest
        topics := s.topics.routerThread (fun c => c ∉ expired) content c }
    | [] => none
  -- the server meets no error on a connection that is up
  | .serverHandleError c expired =>
    if c ∈ expired ∨ (s.up = true ∧ c = s.conn) then none
    else some { s with topics := s.topics.removeAllTopic (fun c => c ∉ expired) c }

def received (s : State F G) : List RequestContent := requestsOf s.conn s.inbox

/-- No call is in progress, the connection is up and started, nothing waits to be
sent, and the server has processed what it received on this connection. -/
def Quiescent (s : State F G) : Prop :=
  s.inProgress = none ∧ s.up = true ∧ s.starting = false ∧ s.retry = .idle ∧
    s.send.waiting = [] ∧ received s = []

def remaining : Retry → List Bytes
  | .idle | .begun => []
  | .copied topics | .posting topics => topics

/-- When `retry_subscribe` copies the table, a cancel in progress is of a topic that
is not bound, and a subscribe in progress is of a topic that is bound or has its
request still waiting; and no topic is cancelled between its copy and its request. -/
def CopyOk (s : State F G) : Action F G → Prop
  | .retry => s.retry = .begun → ∀ op ∈ s.inProgress,
      if op.subscribes then s.router.isBind op.topic = true ∨ op.request ∈ s.send.waiting
      else s.router.isBind op.topic = false
  | .cancelSubscribe topicName => topicName ∉ remaining s.retry
  | _ => True

structure WellFormed (s : State F G) : Prop where
  disciplined : SendQueue.Disciplined s.send
  messageMode : ∀ op ∈ s.inProgress, op.raw = false
  noRaw : s.router.routeRawMap.keys = []
  known : ∀ e ∈ s.inbox, e.1 ≤ s.conn
  fresh : ∀ c > s.conn, ∀ t, s.topics.holds c t = false
  startIdle : s.starting = true → s.retry = .idle

theorem initial_wellFormed : WellFormed (initial : State F G) where
  disciplined := rfl
  messageMode := by simp [initial]
  noRaw := rfl
  known := by simp [initial]
  fresh := by simp [initial]
  startIdle := by simp [initial]

inductive Effect (s : State F G) : Action F G → State F G → Prop
  | subscribe {t : Bytes} {func : F} (hn : s.inProgress = none) :
      Effect s (.subscribe t func) (call s (.subscribe t func))
  | cancelSubscribe {t : Bytes} (hn : s.inProgress = none) :
      Effect s (.cancelSubscribe t) (call s (.cancelSubscribe t))
  | update {op : Op F G} (hop : s.inProgress = some op) :
      Effect s .update { s with router := op.update s.router, inProgress := none }
  | runPosted {send : SendQueue.State RequestContent} (hr : SendQueue.runPosted s.send = some send) :
      Effect s .runPosted { s with send := send }
  | written {i : ℕ} {content : RequestContent} {send : SendQueue.State RequestContent}
      (hw : s.send.writing[i]? = some content)
      (hc : SendQueue.complete s.send false i false = some send) :
      Effect s (.writeDone i false) (deliver { s with send := send } content)
  | failed {i : ℕ} {send : SendQueue.State RequestContent}
      (hc : SendQueue.complete s.send false i true = some send) :
      Effect s (.writeDone i true) { s with send := send, up := false }
  | lost : Effect s .lost { s with up := false }
  | connected (hst : s.starting = false) (hre : s.retry = .idle) :
      Effect s .connected { s with conn := s.conn + 1, up := true, starting := true }
  | start (hst : s.starting = true) :
      Effect s .start { s with starting := false, retry := .begun }
  | retry {send : SendQueue.State RequestContent} {retry : Retry}
      (hr : retryStep s.router s.send s.retry = some (send, retry)) :
      Effect s .retry { s with send := send, retry := retry }
  | serve {expired : List ℕ} {c : ℕ} {content : RequestContent} {rest : List (ℕ × RequestContent)}
      (hi : s.inbox = (c, content) :: rest) (hc : c ∉ expired) :
      Effect s (.serve expired) { s with
        inbox := rest, topics := s.topics.routerThread (fun c => c ∉ expired) content c }
  | serverHandleError {c : ℕ} {expired : List ℕ} (hc : c ∉ expired)
      (hup : s.up = true → c ≠ s.conn) :
      Effect s (.serverHandleError c expired)
        { s with topics := s.topics.removeAllTopic (fun c => c ∉ expired) c }

theorem step_effect {s t : State F G} {a : Action F G} (h : step s a = some t) : Effect s a t := by
  cases a with
  | subscribe topicName func =>
    simp only [step] at h
    split_ifs at h with hn
    obtain rfl := Option.some.inj h
    exact .subscribe (Option.isNone_iff_eq_none.mp hn)
  | cancelSubscribe topicName =>
    simp only [step] at h
    split_ifs at h with hn
    obtain rfl := Option.some.inj h
    exact .cancelSubscribe (Option.isNone_iff_eq_none.mp hn)
  | update =>
    simp only [step] at h
    split at h
    · obtain rfl := Option.some.inj h
      exact .update ‹_›
    · cases h
  | runPosted =>
    simp only [step] at h
    split_ifs at h
    obtain ⟨send, hr, rfl⟩ := Option.map_eq_some_iff.mp h
    exact .runPosted hr
  | writeDone i ec =>
    simp only [step] at h
    split at h
    · split at h
      · rename_i content hw
        obtain ⟨send, hc, rfl⟩ := Option.map_eq_some_iff.mp h
        cases ec with
        | false => exact .written hw hc
        | true => exact .failed hc
      · cases h
    · cases h
  | lost =>
    obtain rfl := Option.some.inj h
    exact .lost
  | connected =>
    simp only [step] at h
    split_ifs at h with hc
    obtain rfl := Option.some.inj h
    exact .connected hc.2.1 hc.2.2
  | start =>
    simp only [step] at h
    split_ifs at h with hc
    obtain rfl := Option.some.inj h
    exact .start hc.1
  | retry =>
    obtain ⟨r, hr, rfl⟩ := Option.map_eq_some_iff.mp h
    exact .retry hr
  | serve expired =>
    simp only [step] at h
    split at h
    · rename_i c content rest hi
      split_ifs at h with hc
      obtain rfl := Option.some.inj h
      exact .serve hi hc
    · cases h
  | serverHandleError c expired =>
    simp only [step] at h
    split_ifs at h with hc
    obtain rfl := Option.some.inj h
    exact .serverHandleError (fun hm => hc (Or.inl hm)) (fun hup he => hc (Or.inr ⟨hup, he⟩))

theorem wellFormed_call {s : State F G} (hs : WellFormed s) {op : Op F G} (hop : op.raw = false) :
    WellFormed (call s op) where
  disciplined := hs.disciplined
  messageMode := by simpa [call] using hop
  noRaw := hs.noRaw
  known := hs.known
  fresh := hs.fresh
  startIdle := hs.startIdle

theorem wellFormed_deliver {s : State F G} (hs : WellFormed s) (content : RequestContent) :
    WellFormed (deliver s content) := by
  unfold deliver
  split_ifs
  · refine { hs with known := ?_ }
    intro e he
    rcases List.mem_append.mp he with he | he
    · exact hs.known e he
    · obtain rfl := List.mem_singleton.mp he
      exact Nat.le_refl _
  · exact hs

theorem disciplined_retryStep {s : State F G} (hs : SendQueue.Disciplined s.send)
    {send : SendQueue.State RequestContent} {retry : Retry}
    (h : retryStep s.router s.send s.retry = some (send, retry)) : SendQueue.Disciplined send := by
  unfold retryStep at h
  split at h <;> cases h <;> exact hs

theorem step_wellFormed {s t : State F G} {a : Action F G} (hs : WellFormed s)
    (h : step s a = some t) : WellFormed t := by
  cases step_effect h with
  | subscribe hn => exact wellFormed_call hs rfl
  | cancelSubscribe hn => exact wellFormed_call hs rfl
  | @update op hop =>
    have hraw := hs.messageMode op hop
    refine { hs with messageMode := by simp, noRaw := ?_ }
    cases op with
    | subscribe t func => exact hs.noRaw
    | cancelSubscribe t => exact hs.noRaw
    | subscribeRaw t func => cases hraw
    | cancelSubscribeRaw t => cases hraw
  | runPosted hr =>
    exact { hs with disciplined := SendQueue.disciplined_runPosted hs.disciplined hr }
  | @written i content send hw hc =>
    have hsend : WellFormed { s with send := send } :=
      { hs with disciplined := (SendQueue.complete_ok hs.disciplined hc).1 }
    exact wellFormed_deliver hsend content
  | failed hc =>
    exact { hs with disciplined := (SendQueue.complete_failed hs.disciplined hc).1 }
  | lost => exact { hs with }
  | connected hst hre =>
    exact { hs with
      known := fun e he => Nat.le_succ_of_le (hs.known e he)
      fresh := fun c hc => hs.fresh c (Nat.lt_of_succ_lt hc)
      startIdle := fun _ => hre }
  | start hst => exact { hs with startIdle := by simp }
  | retry hr =>
    refine { hs with disciplined := disciplined_retryStep hs.disciplined hr, startIdle := ?_ }
    intro hst
    rw [hs.startIdle hst] at hr
    cases hr
  | @serve expired c content rest hi hc =>
    have hle : c ≤ s.conn := hs.known (c, content) (by rw [hi]; exact List.mem_cons_self)
    refine { hs with known := ?_, fresh := ?_ }
    · intro e he
      exact hs.known e (by rw [hi]; exact List.mem_cons_of_mem _ he)
    · intro c' hc' t
      have hne : c' ≠ c := Nat.ne_of_gt (Nat.lt_of_le_of_lt hle hc')
      rw [TopicManager.holds_routerThread (by simpa using hc), if_neg hne]
      exact hs.fresh c' hc' t
  | serverHandleError hc hup =>
    refine { hs with fresh := ?_ }
    intro c' hc' t
    rw [TopicManager.holds_removeAllTopic (by simpa using hc), hs.fresh c' hc' t, Bool.false_and]

end Czrpc.Reconnection
