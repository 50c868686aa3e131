import Czrpc.ReadDelivery
import Czrpc.SendHistory
import Czrpc.WorkPool

/-! The way of a frame from a `connection` of the server to the one worker of a client: the
send queue of the connection, the bytes on the wire, the client's read loop and its pool. -/
namespace Czrpc.Pipe
open Execution Framing WorkPool

variable {φ : Type*}

/-- `sent` is how much of the outstanding write is on the wire, `wire` are all the bytes that
have been put there, and `routed` are the frames that the worker is done with. -/
structure State (φ : Type*) where
  send : SendHistory.State Bytes
  sent : ℕ
  wire : Bytes
  client : ReadLoop.State φ
  pool : Pool 1 φ
  routed : List φ

def initial : State φ := ⟨SendHistory.initial, 0, [], ReadLoop.start [] false, WorkPool.empty, []⟩

inductive Action
  | runPosted
  | send (k : ℕ)
  | written (ec : Bool)
  | client (a : ReadLoop.Action)
  | take
  | finish
  deriving DecidableEq, Repr

def post (s : State φ) (buffer : Bytes) : State φ :=
  { s with send := { s.send with
      send := SendQueue.post s.send.send buffer
      posts := s.send.posts ++ [buffer] } }

def frames (events : List (ReadLoop.Event φ)) : List φ :=
  events.filterMap fun e =>
    match e with
    | .frame x => some x
    | .error => none

def putOnWire (s : State φ) (k : ℕ) : Option (State φ) :=
  match s.send.send.writing with
  | buffer :: _ =>
    let bytes := (buffer.drop s.sent).take k
    if 0 < k ∧ s.sent + k ≤ buffer.length then
      some { s with
        sent := s.sent + k
        wire := s.wire ++ bytes
        client := { s.client with stream := s.client.stream ++ bytes } }
    else none
  | [] => none

/-- Its handler runs, with success only if the whole buffer is on the wire. -/
def writeHandler (s : State φ) (ec : Bool) : Option (State φ) :=
  match s.send.send.writing with
  | buffer :: _ =>
    if ec = true ∨ s.sent = buffer.length then
      (SendHistory.step .connection s.send (.complete 0 ec)).map fun send =>
        { s with send := send, sent := 0 }
    else none
  | [] => none

theorem putOnWire_eq_some {s t : State φ} {k : ℕ} (h : putOnWire s k = some t) :
    ∃ buffer others, s.send.send.writing = buffer :: others ∧ 0 < k ∧ s.sent + k ≤ buffer.length ∧
      t = { s with
        sent := s.sent + k
        wire := s.wire ++ (buffer.drop s.sent).take k
        client := { s.client with stream := s.client.stream ++ (buffer.drop s.sent).take k } } := by
  unfold putOnWire at h
  split at h
  · rename_i buffer others hw
    split_ifs at h with hk
    exact ⟨buffer, others, hw, hk.1, hk.2, (Option.some.inj h).symm⟩
  · cases h

theorem writeHandler_eq_some {s t : State φ} {ec : Bool} (h : writeHandler s ec = some t) :
    ∃ buffer others send, s.send.send.writing = buffer :: others ∧
      (ec = true ∨ s.sent = buffer.length) ∧
      SendHistory.step .connection s.send (.complete 0 ec) = some send ∧
      t = { s with send := send, sent := 0 } := by
  unfold writeHandler at h
  split at h
  · rename_i buffer others hw
    split_ifs at h with hall
    obtain ⟨send, hsend, rfl⟩ := Option.map_eq_some_iff.mp h
    exact ⟨buffer, others, send, hw, hall, hsend, rfl⟩
  · cases h

/-- The client's read loop takes a step, and gives each frame it reports to the pool. -/
def clientStep (L : ReadLoop.Loop φ) (s : State φ) (a : ReadLoop.Action) : Option (State φ) :=
  (ReadLoop.step L s.client a).map fun client =>
    { s with
      client := client
      pool := ((frames client.events).drop (frames s.client.events).length).foldl addTask s.pool }

def step (L : ReadLoop.Loop φ) (s : State φ) : Action → Option (State φ)
  | .runPosted =>
    (SendHistory.step .connection s.send .runPosted).map fun send => { s with send := send }
  | .send k => putOnWire s k
  | .written ec => writeHandler s ec
  | .client a => clientStep L s a
  | .take => (WorkPool.take s.pool soleWorker).map fun pool => { s with pool := pool }
  | .finish =>
    (WorkPool.finish s.pool soleWorker).map fun done =>
      { s with pool := done.2, routed := s.routed ++ [done.1] }

/-- The connection stays up: no write fails and nobody closes the client's socket. -/
def Up : Action → Prop
  | .written ec => ec = false
  | .client a => a ≠ .disconnect
  | _ => True

instance : (a : Action) → Decidable (Up a)
  | .written ec => inferInstanceAs (Decidable (ec = false))
  | .client a => inferInstanceAs (Decidable (a ≠ .disconnect))
  | .runPosted | .send _ | .take | .finish => .isTrue trivial

variable {L : ReadLoop.Loop φ}

variable (L) in
/-- The loop has read from `bs` without an error, and more may come. -/
structure Flowing (bs : Bytes) (s : ReadLoop.State φ) : Prop where
  phase : ReadLoop.Phase L bs s
  isOpen : s.isOpen = true
  ended : s.ended = false
  reading : s.reading ≠ none

theorem Flowing.not_dry {bs : Bytes} {s : ReadLoop.State φ} (h : Flowing L bs s) :
    ¬ ReadLoop.Dry s := by
  obtain ⟨-, ho, he, -⟩ := h
  simp [ReadLoop.Dry, ho, he]

theorem start_flowing : Flowing L [] (ReadLoop.start [] false) :=
  ⟨ReadLoop.start_phase L [] false, rfl, rfl, by simp [ReadLoop.start]⟩

theorem Flowing.feed {bs : Bytes} {s : ReadLoop.State φ} (h : Flowing L bs s) (new : Bytes) :
    Flowing L (bs ++ new) { s with stream := s.stream ++ new } := by
  have hdry := h.not_dry
  obtain ⟨hp, ho, he, hr⟩ := h
  refine ⟨?_, ho, he, hr⟩
  cases hp with
  | head hr' hp' ho' he' hl hb =>
    refine .head hr' hp' ho' he' hl ?_
    simpa only [List.append_assoc] using hb.append new
  | content hr' hp' ho' he' hh hl hb =>
    refine .content hr' hp' ho' he' hh hl ?_
    simpa only [List.append_assoc] using hb.append new
  | rearmed hr' hp' ho' he' hh hc hl hb =>
    refine .rearmed hr' hp' ho' he' hh hc hl ?_
    simpa only [List.append_assoc] using hb.append new
  | cut _ _ hd | failing _ _ hd => exact absurd hd hdry
  | done hr' => exact absurd hr' hr

theorem step_flowing {bs : Bytes} {s t : ReadLoop.State φ} {a : ReadLoop.Action}
    (hs : Flowing L bs s) (ha : a ≠ .disconnect) (h : ReadLoop.step L s a = some t) :
    Flowing L bs t := by
  have hdry := hs.not_dry
  obtain ⟨hp, ho, he, hr⟩ := hs
  have hphase := ReadLoop.step_phase hp ha h
  have hended := (ReadLoop.step_ended h).trans he
  cases ReadLoop.step_effect h with
  | @transfer r k hr' =>
    refine ⟨hphase, ?_, hended, ?_⟩
    · cases r <;> exact ho
    · cases r <;> exact hr
  | headDone | contentDone =>
    exact ⟨hphase, ho, hended, by simp [ReadLoop.readContent, ReadLoop.readHead]⟩
  | headFailed _ _ hf => exact absurd (hf.imp_right And.right) hdry
  | contentFailed _ _ _ hf => exact absurd hf hdry
  | delivered => exact ⟨hphase, ho, hended, hr⟩
  | failed hp' hf =>
    cases hp with
    | rearmed _ hp'' =>
      rw [hp'] at hp''
      obtain rfl := ReadLoop.Pc.rearmed.inj hp''
      simp [ho] at hf
    | cut _ _ hd => exact absurd hd hdry
    | head _ hp'' | content _ hp'' | failing _ hp'' | done _ hp'' =>
      rw [hp'] at hp''
      cases hp''
  | disconnect => exact absurd rfl ha

theorem frames_map (ys : List φ) : frames (ys.map ReadLoop.Event.frame) = ys := by
  simp [frames, List.filterMap_map]

theorem frames_append (as bs : List (ReadLoop.Event φ)) : frames (as ++ bs) = frames as ++ frames bs :=
  List.filterMap_append

theorem Flowing.reads {bs : Bytes} {s : ReadLoop.State φ} (h : Flowing L bs s) :
    ∃ rest, L.readFrames bs = frames s.events ++ L.readFrames rest := by
  have hdry := h.not_dry
  obtain ⟨hp, ho, he, hr⟩ := h
  cases hp with
  | head _ _ _ he' _ hb | content _ _ _ he' _ _ hb | rearmed _ _ _ he' _ _ _ hb =>
    rw [he', frames_map]
    exact ⟨_, hb.readFrames_eq⟩
  | cut _ _ hd | failing _ _ hd => exact absurd hd hdry
  | done hr' => exact absurd hr' hr

theorem Flowing.settled {bs : Bytes} {s : ReadLoop.State φ} (h : Flowing L bs s)
    (hstop : ∀ a, a ≠ .disconnect → ReadLoop.step L s a = none) :
    frames s.events = L.readFrames bs := by
  have hdry := h.not_dry
  obtain ⟨hp, ho, he, hr⟩ := h
  have hread : ∀ r, s.reading = some r → s.pc = .idle →
      s.stream = [] ∧ (s.buffer r).length < ReadLoop.size L s r := by
    intro r hr hp
    have hshort : (s.buffer r).length < ReadLoop.size L s r := by
      by_contra hfull
      have hnone := hstop .complete (by simp)
      simp [ReadLoop.step, hr, hp, Nat.le_of_not_lt hfull] at hnone
    refine ⟨?_, hshort⟩
    by_contra hne
    have hlen : 1 ≤ s.stream.length := List.length_pos_iff.mpr hne
    have hnone := hstop (.transfer 1) (by simp)
    simp [ReadLoop.step, hr, ho, hlen, Nat.succ_le_of_lt hshort] at hnone
  cases hp with
  | head hr' hp' _ he' _ hb =>
    obtain ⟨hnil, hshort⟩ : s.stream = [] ∧ s.headBuf.length < L.headLen := hread _ hr' hp'
    have hframes := hb.readFrames_eq
    rw [hnil, List.append_nil, L.readFrames_head_cut hshort, List.append_nil] at hframes
    rw [he', frames_map, hframes]
  | content hr' hp' _ he' hh _ hb =>
    obtain ⟨hnil, hshort⟩ : s.stream = [] ∧ s.content.length < L.contentLen s.head :=
      hread _ hr' hp'
    have hframes := hb.readFrames_eq
    rw [hnil, List.append_nil, L.readFrames_content_cut hh hshort, List.append_nil] at hframes
    rw [he', frames_map, hframes]
  | rearmed _ hp' =>
    have hnone := hstop .resume (by simp)
    simp [ReadLoop.step, hp'] at hnone
  | cut _ _ hd | failing _ _ hd => exact absurd hd hdry
  | done hr' => exact absurd hr' hr

def State.front (s : State φ) : Bytes := s.send.send.queue.head?.getD []

variable (L) in
/-- The buffers written so far and the sent part of the front are on the wire, the loop flows
on it, and what it has reported is with the worker or done. -/
structure Inv (s : State φ) : Prop where
  history : SendHistory.Inv s.send
  wire : ∃ done : List Bytes, s.send.events = done.map .wrote ∧
    s.wire = done.flatten ++ s.front.take s.sent
  room : s.sent ≤ s.front.length
  flowing : Flowing L s.wire s.client
  tasks : frames s.client.events = s.routed ++ backlog s.pool

theorem initial_inv : Inv L initial where
  history := SendHistory.initial_inv
  wire := ⟨[], rfl, rfl⟩
  room := Nat.zero_le _
  flowing := start_flowing
  tasks := rfl

theorem Inv.queue_of_writing {s : State φ} (h : Inv L s) {buffer : Bytes} {others : List Bytes}
    (hw : s.send.send.writing = buffer :: others) :
    ∃ rest, s.send.send.queue = buffer :: rest := by
  have hd : s.send.send.writing = s.send.send.queue.take 1 := h.history.disciplined
  cases hq : s.send.send.queue with
  | nil => simp [hd, hq] at hw
  | cons front rest =>
    obtain ⟨rfl, -⟩ : front = buffer ∧ [] = others := by simpa [hd, hq] using hw
    exact ⟨rest, rfl⟩

theorem post_inv {s : State φ} (hs : Inv L s) (buffer : Bytes) : Inv L (post s buffer) := by
  have hstep : SendHistory.step .connection s.send (.post buffer) = some (post s buffer).send := rfl
  exact ⟨SendHistory.step_inv hs.history hstep, hs.wire, hs.room, hs.flowing, hs.tasks⟩

theorem runPosted_inv {s t : State φ} (hs : Inv L s) (h : step L s .runPosted = some t) :
    Inv L t := by
  obtain ⟨send, hsend, rfl⟩ := Option.map_eq_some_iff.mp h
  have hhistory := SendHistory.step_inv hs.history hsend
  cases SendHistory.step_effect hs.history.disciplined hsend with
  | @runPosted queue hr =>
    have hqueue := SendQueue.runPosted_queue hr
    obtain ⟨done, hdone, hwire⟩ := hs.wire
    have hroom := hs.room
    cases hq : s.send.send.queue with
    | nil =>
      have hzero : s.sent = 0 := by simpa [State.front, hq] using hroom
      refine ⟨hhistory, ⟨done, hdone, ?_⟩, ?_, hs.flowing, hs.tasks⟩
      · simpa [hzero] using hwire
      · simp [hzero]
    | cons front rest =>
      have hfront : queue.queue.head?.getD [] = s.front := by
        rw [hqueue, State.front, hq]
        rfl
      refine ⟨hhistory, ⟨done, hdone, ?_⟩, ?_, hs.flowing, hs.tasks⟩
      · simpa [State.front, hfront] using hwire
      · simpa [State.front, hfront] using hroom

theorem send_inv {s t : State φ} {k : ℕ} (hs : Inv L s) (h : putOnWire s k = some t) : Inv L t := by
  obtain ⟨buffer, others, hw, -, hroom, rfl⟩ := putOnWire_eq_some h
  obtain ⟨rest, hq⟩ := hs.queue_of_writing hw
  have hfront : s.front = buffer := by simp [State.front, hq]
  obtain ⟨done, hdone, hwire⟩ := hs.wire
  refine ⟨hs.history, ⟨done, hdone, ?_⟩, ?_, hs.flowing.feed _, hs.tasks⟩
  · change s.wire ++ (buffer.drop s.sent).take k = done.flatten ++ s.front.take (s.sent + k)
    rw [hwire, hfront, List.take_add, List.append_assoc]
  · change s.sent + k ≤ s.front.length
    rw [hfront]
    exact hroom

theorem written_inv {s t : State φ} (hs : Inv L s) (h : writeHandler s false = some t) :
    Inv L t := by
  obtain ⟨buffer, others, send, hw, hall, hsend, rfl⟩ := writeHandler_eq_some h
  simp only [Bool.false_eq_true, false_or] at hall
  obtain ⟨rest, hq⟩ := hs.queue_of_writing hw
  obtain ⟨done, hdone, hwire⟩ := hs.wire
  have hhistory := SendHistory.step_inv hs.history hsend
  cases SendHistory.step_effect hs.history.disciplined hsend with
  | @wrote i queue front hd hp hqueue =>
    obtain ⟨rfl, -⟩ := List.cons_eq_cons.mp (hq.symm.trans hqueue)
    have hfront : s.front = buffer := by simp [State.front, hq]
    refine ⟨hhistory, ⟨done ++ [buffer], by simp [hdone], ?_⟩, Nat.zero_le _, hs.flowing, hs.tasks⟩
    simp [hwire, hfront, hall]

theorem frames_step {s t : ReadLoop.State φ} {a : ReadLoop.Action}
    (h : ReadLoop.step L s a = some t) : frames s.events <+: frames t.events := by
  cases ReadLoop.step_effect h with
  | @transfer r => cases r <;> exact List.prefix_rfl
  | headDone | contentDone | contentFailed | disconnect => exact List.prefix_rfl
  | headFailed | failed =>
    rw [ReadLoop.handleError_events, frames_append]
    exact List.prefix_append _ _
  | delivered =>
    rw [frames_append]
    exact List.prefix_append _ _

theorem client_inv {s t : State φ} {a : ReadLoop.Action} (hs : Inv L s) (ha : a ≠ .disconnect)
    (h : clientStep L s a = some t) : Inv L t := by
  obtain ⟨client, hclient, rfl⟩ := Option.map_eq_some_iff.mp h
  refine ⟨hs.history, hs.wire, hs.room, step_flowing hs.flowing ha hclient, ?_⟩
  obtain ⟨new, hnew⟩ := frames_step hclient
  change frames client.events = s.routed ++ backlog (List.foldl addTask s.pool _)
  rw [backlog_foldl_addTask, ← hnew, List.drop_left, ← List.append_assoc, hs.tasks]

theorem take_inv {s t : State φ} (hs : Inv L s) (h : step L s .take = some t) : Inv L t := by
  obtain ⟨pool, hpool, rfl⟩ := Option.map_eq_some_iff.mp h
  exact ⟨hs.history, hs.wire, hs.room, hs.flowing, by rw [hs.tasks, backlog_take hpool]⟩

theorem finish_inv {s t : State φ} (hs : Inv L s) (h : step L s .finish = some t) : Inv L t := by
  obtain ⟨⟨task, pool⟩, hpool, rfl⟩ := Option.map_eq_some_iff.mp h
  refine ⟨hs.history, hs.wire, hs.room, hs.flowing, ?_⟩
  rw [hs.tasks, backlog_finish hpool, List.append_assoc, List.singleton_append]

theorem step_inv {s t : State φ} {a : Action} (hs : Inv L s) (ha : Up a)
    (h : step L s a = some t) : Inv L t := by
  cases a with
  | runPosted => exact runPosted_inv hs h
  | send k => exact send_inv hs h
  | written ec =>
    obtain rfl : ec = false := ha
    exact written_inv hs h
  | client a => exact client_inv hs ha h
  | take => exact take_inv hs h
  | finish => exact finish_inv hs h

end Czrpc.Pipe
