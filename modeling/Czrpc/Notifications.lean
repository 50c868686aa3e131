import Czrpc.StreamRoundTrip

/-! What a server tells its user about one connection: `client_connect_notify_` when the
connection is started and `client_disconnect_notify_` whenever its read loop calls
`handle_error`, both with the session id. The two callbacks are set. -/
namespace Czrpc.Notifications
open Execution Framing Protocol StreamRoundTrip

structure Endpoint where
  address : Bytes
  port : Bytes
  deriving DecidableEq, Repr

def sessionText (localEndpoint remoteEndpoint : Endpoint) : Bytes :=
  localEndpoint.address ++ [58] ++ localEndpoint.port ++ [35] ++ remoteEndpoint.address ++ [58] ++
    remoteEndpoint.port

inductive Notification
  | connect (sessionId : Bytes)
  | disconnect (sessionId : Bytes)
  deriving DecidableEq, Repr

/-- A connection that has been accepted is started once. If `start` throws, it does not come
to read anything. -/
inductive Stage
  | accepted
  | started (loop : ReadLoop.State RequestContent)
  | failed
  deriving DecidableEq, Repr

/-- `sessionId` is `session_id_`, and `notifications` are the calls of the callbacks. -/
structure State where
  stage : Stage
  sessionId : Bytes
  notifications : List Notification
  deriving DecidableEq, Repr

def initial : State := ⟨.accepted, [], []⟩

abbrev Endpoints := Option (Endpoint × Endpoint)

/-- `none` if it throws; otherwise the value that it returns and keeps. -/
def getSessionId (sessionId : Bytes) (isOpen : Bool) (endpoints : Endpoints) : Option Bytes :=
  if sessionId = [] then
    if isOpen then endpoints.map fun e => sessionText e.1 e.2 else some []
  else some sessionId

def notifyCallback (notification : Bytes → Notification) (s : State) (isOpen : Bool)
    (endpoints : Endpoints) : Option State :=
  (getSessionId s.sessionId isOpen endpoints).map fun sessionId =>
    { s with
      sessionId := sessionId
      notifications := s.notifications ++ if sessionId = [] then [] else [notification sessionId] }

def clientConnectNotifyCallback : State → Bool → Endpoints → Option State := notifyCallback .connect

def clientDisconnectNotifyCallback : State → Bool → Endpoints → Option State :=
  notifyCallback .disconnect

def start (s : State) (endpoints : Endpoints) (bs : Bytes) (ended : Bool) : State :=
  match clientConnectNotifyCallback s true endpoints with
  | some t => { t with stage := .started (ReadLoop.start bs ended) }
  | none => { s with stage := .failed }

def handleError (s : State) (isOpen : Bool) (endpoints : Endpoints) : State :=
  (clientDisconnectNotifyCallback s isOpen endpoints).getD s

inductive Action
  | start (endpoints : Endpoints) (bs : Bytes) (ended : Bool)
  | loop (a : ReadLoop.Action) (endpoints : Endpoints)
  deriving DecidableEq, Repr

def step (s : State) : Action → Option State
  | .start endpoints bs ended =>
    match s.stage with
    | .accepted => some (start s endpoints bs ended)
    | _ => none
  | .loop a endpoints =>
    match s.stage with
    | .started loop =>
      (ReadLoop.step connectionLoop loop a).map fun loop' =>
        let t := { s with stage := .started loop' }
        if loop'.events = loop.events ++ [.error] then handleError t loop'.isOpen endpoints else t
    | _ => none

/-- When the content handler goes on behind the head read that it arms, the content is there
and the socket is open. -/
def ContentOk (s : State) : Action → Prop
  | .loop .resume _ =>
    match s.stage with
    | .started loop => loop.pc ≠ .rearmed true ∧ loop.isOpen = true
    | _ => True
  | _ => True

instance (s : State) : (a : Action) → Decidable (ContentOk s a)
  | .loop .resume _ =>
    match h : s.stage with
    | .started loop => decidable_of_iff (loop.pc ≠ .rearmed true ∧ loop.isOpen = true)
        (by simp [ContentOk, h])
    | .accepted | .failed => .isTrue (by simp [ContentOk, h])
  | .start _ _ _ | .loop (.transfer _) _ | .loop .complete _ | .loop .disconnect _ => .isTrue trivial

/-- Where a connection stands whose content reads have all succeeded. The disconnect is told
when the head read fails, and then there is nothing left to fail. -/
inductive Phase (s : State) : Prop
  | accepted (hs : s.stage = .accepted) (hid : s.sessionId = []) (hn : s.notifications = [])
  | reading {loop : ReadLoop.State RequestContent} {id : Bytes} (hs : s.stage = .started loop)
      (hr : loop.reading ≠ none) (hid : s.sessionId = id) (hne : id ≠ [])
      (hn : s.notifications = [.connect id])
  | ended {loop : ReadLoop.State RequestContent} {id : Bytes} (hs : s.stage = .started loop)
      (hr : loop.reading = none) (hp : loop.pc = .idle)
      (hn : s.notifications = [.connect id, .disconnect id])
  | failed (hs : s.stage = .failed) (hn : s.notifications = [])

theorem sessionText_ne_nil (l r : Endpoint) : sessionText l r ≠ [] := by
  simp [sessionText]

theorem start_phase {s : State} (hid : s.sessionId = []) (hn : s.notifications = [])
    (endpoints : Endpoints) (bs : Bytes) (ended : Bool) : Phase (start s endpoints bs ended) := by
  unfold start clientConnectNotifyCallback notifyCallback getSessionId
  cases endpoints with
  | none =>
    simp only [hid, if_true, Option.map_none]
    exact .failed rfl hn
  | some e =>
    simp only [hid, if_true, Option.map_some, if_neg (sessionText_ne_nil e.1 e.2)]
    refine .reading rfl ?_ rfl (sessionText_ne_nil e.1 e.2) ?_
    · simp [ReadLoop.start]
    · simp [hn]

theorem handleError_eq {s : State} (hne : s.sessionId ≠ []) (isOpen : Bool) (endpoints : Endpoints) :
    handleError s isOpen endpoints =
      { s with notifications := s.notifications ++ [.disconnect s.sessionId] } := by
  simp [handleError, clientDisconnectNotifyCallback, notifyCallback, getSessionId, hne]

inductive Advance (loop loop' : ReadLoop.State RequestContent) : Prop
  | failed (he : loop'.events = loop.events ++ [.error]) (hr : loop.reading ≠ none)
      (hr' : loop'.reading = none) (hp' : loop'.pc = .idle)
  | kept (he : loop'.events ≠ loop.events ++ [.error]) (hr : loop'.reading = none ↔ loop.reading = none)
      (hp : loop.reading = none → loop.pc = .idle → loop'.pc = .idle)

theorem loop_advance {loop loop' : ReadLoop.State RequestContent} {a : ReadLoop.Action}
    (hok : a = .resume → loop.pc ≠ .rearmed true ∧ loop.isOpen = true)
    (h : ReadLoop.step connectionLoop loop a = some loop') : Advance loop loop' := by
  cases ReadLoop.step_effect h with
  | @transfer r k hr ho hk hs hl =>
    cases r with
    | head => exact .kept (by simp [ReadLoop.transfer]) Iff.rfl fun _ hp => hp
    | content => exact .kept (by simp [ReadLoop.transfer]) Iff.rfl fun _ hp => hp
  | headDone hr hp ho hl =>
    exact .kept (by simp [ReadLoop.readContent]) (by simp [ReadLoop.readContent, hr]) fun _ hp => hp
  | headFailed hr hp hf =>
    exact .failed (by simp) (by simp [hr]) (by simp) (by simp [hp])
  | contentDone hr hp hl =>
    exact .kept (by simp [ReadLoop.readHead]) (by simp [ReadLoop.readHead, hr]) (by simp [hr])
  | contentFailed hr hp hl hf =>
    exact .kept (by simp [ReadLoop.readHead]) (by simp [ReadLoop.readHead, hr]) (by simp [hr])
  | delivered hp ho => exact .kept (by simp) Iff.rfl fun _ _ => rfl
  | failed hp hf =>
    obtain ⟨hec, ho⟩ := hok rfl
    rcases hf with hclosed | rfl
    · rw [ho] at hclosed
      cases hclosed
    · exact absurd hp hec
  | disconnect ho => exact .kept (by simp [ReadLoop.disconnect]) Iff.rfl fun _ hp => hp

theorem loop_phase {s : State} {loop loop' : ReadLoop.State RequestContent} (hs : Phase s)
    (hstage : s.stage = .started loop) (h : Advance loop loop') (endpoints : Endpoints) :
    Phase (if loop'.events = loop.events ++ [.error] then
      handleError { s with stage := .started loop' } loop'.isOpen endpoints
      else { s with stage := .started loop' }) := by
  cases hs with
  | accepted hs => simp [hstage] at hs
  | failed hs => simp [hstage] at hs
  | @reading l id hs hr hid hne hn =>
    obtain rfl : loop = l := by simpa [hstage] using hs
    cases h with
    | failed he _ hr' hp' =>
      rw [if_pos he, handleError_eq (by rwa [hid])]
      have htold : s.notifications ++ [.disconnect s.sessionId] = [.connect id, .disconnect id] := by
        rw [hn, hid]
        rfl
      exact .ended rfl hr' hp' htold
    | kept he hr' _ =>
      rw [if_neg he]
      exact .reading rfl (fun hnone => hr (hr'.mp hnone)) hid hne hn
  | @ended l id hs hr hp hn =>
    obtain rfl : loop = l := by simpa [hstage] using hs
    cases h with
    | failed _ hreading => exact absurd hr hreading
    | kept he hr' hp' =>
      rw [if_neg he]
      exact .ended rfl (hr'.mpr hr) (hp' hr hp) hn

theorem step_phase {s t : State} {a : Action} (hs : Phase s) (hok : ContentOk s a)
    (h : step s a = some t) : Phase t := by
  cases a with
  | start endpoints bs ended =>
    simp only [step] at h
    split at h
    · rename_i hstage
      obtain rfl := Option.some.inj h
      cases hs with
      | accepted _ hid hn => exact start_phase hid hn endpoints bs ended
      | reading hs => simp [hstage] at hs
      | ended hs => simp [hstage] at hs
      | failed hs => simp [hstage] at hs
    · cases h
  | loop a endpoints =>
    simp only [step] at h
    split at h
    · rename_i loop hstage
      obtain ⟨loop', hstep, rfl⟩ := Option.map_eq_some_iff.mp h
      have hadvance : Advance loop loop' := by
        refine loop_advance ?_ hstep
        rintro rfl
        simpa [ContentOk, hstage] using hok
      exact loop_phase hs hstage hadvance endpoints
    · cases h

/-- In every run in which each content is read whole and its handler finds the socket open,
the user is told of the connect and then of the disconnect, of each once at most and with the
same id. -/
theorem notified_once {as : List Action} {s : State} (hc : Conforms step ContentOk initial as)
    (hr : run step initial as = some s) :
    ∃ id, s.notifications <+: [.connect id, .disconnect id] := by
  have hs : Phase s :=
    conforming_invariant (fun _ _ _ => step_phase) (.accepted rfl rfl rfl) hc hr
  cases hs with
  | accepted _ _ hn => exact ⟨[], by simp [hn]⟩
  | @reading loop id _ _ _ _ hn => exact ⟨id, by simp [hn]⟩
  | @ended loop id _ _ _ hn => exact ⟨id, by simp [hn]⟩
  | failed _ hn => exact ⟨[], by simp [hn]⟩

def oneToTwo : Endpoints := some (⟨[49], [49]⟩, ⟨[50], [50]⟩)

theorem notified_once_between_frames :
    ∃ s, run step initial ([.start oneToTwo (List.replicate 24 0) true] ++ ([.transfer 12, .complete,
        .transfer 12, .complete, .resume, .complete].map fun a => .loop a none)) = some s ∧
      s.notifications = [.connect [49, 58, 49, 35, 50, 58, 50], .disconnect [49, 58, 49, 35, 50, 58, 50]] ∧
      ∃ id, s.notifications <+: [.connect id, .disconnect id] := by
  have hrun : (run step initial ([.start oneToTwo (List.replicate 24 0) true] ++ ([.transfer 12,
      .complete, .transfer 12, .complete, .resume, .complete].map fun a => .loop a none))).map
      State.notifications =
      some [.connect [49, 58, 49, 35, 50, 58, 50], .disconnect [49, 58, 49, 35, 50, 58, 50]] := by decide
  obtain ⟨s, hs, hn⟩ := Option.map_eq_some_iff.mp hrun
  exact ⟨s, hs, hn, notified_once (by decide) hs⟩

/-- The stream ends behind a head: the content read fails, and so does the head read that its
handler has armed. -/
theorem notified_twice : ¬ ∀ (as : List Action) (s : State), run step initial as = some s →
    ∃ id, s.notifications <+: [.connect id, .disconnect id] := by
  intro h
  have hrun : (run step initial ([.start oneToTwo (List.replicate 12 0) true] ++ ([.transfer 12,
      .complete, .complete, .resume, .complete].map fun a => .loop a none))).map
      (fun s => s.notifications.length) = some 3 := by decide
  obtain ⟨s, hs, hn⟩ := Option.map_eq_some_iff.mp hrun
  obtain ⟨id, hprefix⟩ := h _ _ hs
  have hle := hprefix.length_le
  simp [hn] at hle

end Czrpc.Notifications
