import Czrpc.CanonicalFrames
import Czrpc.Pipe

/-! One direction of a connection that may be lost at any moment: the send queue of the side that
writes, the bytes in flight, and the read loop of the side that reads. When the connection is lost
the bytes in flight are gone and none follow; the writer may go on to write into the void before a
write of it fails, and the reader finds the end of its stream wherever that is.

Of TCP it is assumed that the bytes arrive in order, that a write fails only on a connection that
is lost, and that nothing arrives on a connection that is. -/
namespace Czrpc.Link
open Execution Framing Pipe

variable {φ : Type*}

structure Ends (φ : Type*) where
  loop : ReadLoop.Loop φ
  sender : SendHistory.Sender

/-- `sent` is how much of the outstanding write has been taken from its buffer, `net` are the bytes
in flight and `wire` all that have arrived. -/
structure State (φ : Type*) where
  send : SendHistory.State Bytes
  sent : ℕ
  net : Bytes
  wire : Bytes
  lost : Bool
  reader : ReadLoop.State φ

def initial : State φ := ⟨SendHistory.initial, 0, [], [], false, ReadLoop.start [] false⟩

inductive Action
  | runPosted
  | send (k : ℕ)
  | written (ec : Bool)
  | arrive (k : ℕ)
  | lose
  | read (a : ReadLoop.Action)
  deriving DecidableEq, Repr

/-- `async_write_impl(buffer)` -/
def post (s : State φ) (buffer : Bytes) : State φ :=
  { s with send := { s.send with
      send := SendQueue.post s.send.send buffer
      posts := s.send.posts ++ [buffer] } }

def step (E : Ends φ) (s : State φ) : Action → Option (State φ)
  | .runPosted =>
    (SendHistory.step E.sender s.send .runPosted).map fun send => { s with send := send }
  | .send k =>
    match s.send.send.writing with
    | buffer :: _ =>
      if 0 < k ∧ s.sent + k ≤ buffer.length then
        -- a connection that is lost takes the bytes and drops them
        some { s with
          sent := s.sent + k
          net := if s.lost then s.net else s.net ++ (buffer.drop s.sent).take k }
      else none
    | [] => none
  | .written ec =>
    match s.send.send.writing with
    | buffer :: _ =>
      if ec = true ∧ s.lost = true ∨ ec = false ∧ s.sent = buffer.length then
        (SendHistory.step E.sender s.send (.complete 0 ec)).map fun send =>
          { s with send := send, sent := 0 }
      else none
    | [] => none
  | .arrive k =>
    if s.lost = false ∧ 0 < k ∧ k ≤ s.net.length then
      some { s with
        net := s.net.drop k
        wire := s.wire ++ s.net.take k
        reader := { s.reader with stream := s.reader.stream ++ s.net.take k } }
    else none
  | .lose => some { s with lost := true, net := [], reader := { s.reader with ended := true } }
  | .read a => (ReadLoop.step E.loop s.reader a).map fun reader => { s with reader := reader }

inductive Effect (E : Ends φ) (s : State φ) : Action → State φ → Prop
  | runPosted {send : SendHistory.State Bytes}
      (hs : SendHistory.step E.sender s.send .runPosted = some send) :
      Effect E s .runPosted { s with send := send }
  | send {k : ℕ} {buffer : Bytes} {others : List Bytes} (hw : s.send.send.writing = buffer :: others)
      (hk : 0 < k) (hroom : s.sent + k ≤ buffer.length) : Effect E s (.send k)
        { s with
          sent := s.sent + k
          net := if s.lost then s.net else s.net ++ (buffer.drop s.sent).take k }
  | wrote {buffer : Bytes} {others : List Bytes} {send : SendHistory.State Bytes}
      (hw : s.send.send.writing = buffer :: others) (hall : s.sent = buffer.length)
      (hs : SendHistory.step E.sender s.send (.complete 0 false) = some send) :
      Effect E s (.written false) { s with send := send, sent := 0 }
  | failed {send : SendHistory.State Bytes} (hl : s.lost = true)
      (hs : SendHistory.step E.sender s.send (.complete 0 true) = some send) :
      Effect E s (.written true) { s with send := send, sent := 0 }
  | arrive {k : ℕ} (hl : s.lost = false) (hk : 0 < k) (hn : k ≤ s.net.length) : Effect E s (.arrive k)
      { s with
        net := s.net.drop k
        wire := s.wire ++ s.net.take k
        reader := { s.reader with stream := s.reader.stream ++ s.net.take k } }
  | lose : Effect E s .lose
      { s with lost := true, net := [], reader := { s.reader with ended := true } }
  | read {a : ReadLoop.Action} {reader : ReadLoop.State φ}
      (hr : ReadLoop.step E.loop s.reader a = some reader) :
      Effect E s (.read a) { s with reader := reader }

theorem step_effect {E : Ends φ} {s t : State φ} {a : Action} (h : step E s a = some t) :
    Effect E s a t := by
  cases a with
  | runPosted =>
    obtain ⟨send, hs, rfl⟩ := Option.map_eq_some_iff.mp h
    exact .runPosted hs
  | send k =>
    simp only [step] at h
    split at h
    · rename_i buffer others hw
      obtain ⟨hk, h⟩ := Option.ite_none_right_eq_some.mp h
      obtain rfl := Option.some.inj h
      exact .send hw hk.1 hk.2
    · cases h
  | written ec =>
    simp only [step] at h
    split at h
    · rename_i buffer others hw
      obtain ⟨hec, h⟩ := Option.ite_none_right_eq_some.mp h
      obtain ⟨send, hs, rfl⟩ := Option.map_eq_some_iff.mp h
      rcases hec with ⟨rfl, hl⟩ | ⟨rfl, hall⟩
      · exact .failed hl hs
      · exact .wrote hw hall hs
    · cases h
  | arrive k =>
    simp only [step] at h
    obtain ⟨⟨hl, hk, hn⟩, h⟩ := Option.ite_none_right_eq_some.mp h
    obtain rfl := Option.some.inj h
    exact .arrive hl hk hn
  | lose =>
    obtain rfl := Option.some.inj h
    exact .lose
  | read a =>
    obtain ⟨reader, hr, rfl⟩ := Option.map_eq_some_iff.mp h
    exact .read hr

variable {L : ReadLoop.Loop φ}

variable (L) in
/-- Where the loop stands that reads the bytes `bs`: more may come, the end has come, or the socket
has been closed under it. -/
inductive Reading (bs : Bytes) (lost : Bool) (r : ReadLoop.State φ) : Prop
  | flowing (hl : lost = false) (h : Flowing L bs r) : Reading bs lost r
  | ending (hl : lost = true) (h : ReadLoop.Phase L bs r) (he : r.ended = true) : Reading bs lost r
  | closed (h : ReadLoop.Delivered (L.readFrames bs) r) (ho : r.isOpen = false) : Reading bs lost r

theorem flowing_ended {bs : Bytes} {r : ReadLoop.State φ} (h : Flowing L bs r) :
    ReadLoop.Phase L bs { r with ended := true } := by
  have hdry := h.not_dry
  cases h.phase with
  | head hr hp ho he hl hb => exact .head hr hp ho he hl hb
  | content hr hp ho he hh hl hb => exact .content hr hp ho he hh hl hb
  | rearmed hr hp ho he hh hc hl hb => exact .rearmed hr hp ho he hh hc hl hb
  | cut _ _ hd | failing _ _ hd => exact absurd hd hdry
  | done hr => exact absurd hr h.reading

theorem Reading.lose {bs : Bytes} {lost : Bool} {r : ReadLoop.State φ} (h : Reading L bs lost r) :
    Reading L bs true { r with ended := true } := by
  cases h with
  | flowing _ h => exact .ending rfl (flowing_ended h) rfl
  | ending _ h he =>
    have hsame : { r with ended := true } = r := by rw [← he]
    rw [hsame]
    exact .ending rfl h he
  | closed h ho => exact .closed h ho

theorem Reading.arrive {bs : Bytes} {r : ReadLoop.State φ} (h : Reading L bs false r) (new : Bytes) :
    Reading L (bs ++ new) false { r with stream := r.stream ++ new } := by
  cases h with
  | flowing hl h => exact .flowing hl (h.feed new)
  | ending hl => cases hl
  | closed h ho =>
    obtain ⟨zs, k, hp, he, hk⟩ := h
    exact .closed ⟨zs, k, hp.trans (L.readFrames_mono bs new), he, hk⟩ ho

theorem Reading.delivered {bs : Bytes} {lost : Bool} {r : ReadLoop.State φ}
    (h : Reading L bs lost r) : ReadLoop.Delivered (L.readFrames bs) r := by
  cases h with
  | flowing _ h => exact h.phase.delivered
  | ending _ h => exact h.delivered
  | closed h => exact h

theorem Reading.step {bs : Bytes} {lost : Bool} {r t : ReadLoop.State φ} {a : ReadLoop.Action}
    (h : Reading L bs lost r) (hs : ReadLoop.step L r a = some t) : Reading L bs lost t := by
  by_cases ha : a = .disconnect
  · subst a
    cases ReadLoop.step_effect hs with
    | disconnect => exact .closed h.delivered rfl
  · cases h with
    | flowing hl h => exact .flowing hl (step_flowing h ha hs)
    | ending hl h he =>
      exact .ending hl (ReadLoop.step_phase h ha hs) ((ReadLoop.step_ended hs).trans he)
    | closed h ho =>
      obtain ⟨hd, hclosed⟩ := ReadLoop.step_closed h ho hs
      exact .closed hd hclosed

theorem Reading.frames_prefix {bs : Bytes} {lost : Bool} {r : ReadLoop.State φ}
    (h : Reading L bs lost r) : frames r.events <+: L.readFrames bs := by
  obtain ⟨zs, k, hp, he, -⟩ := h.delivered
  have hnone : frames (List.replicate k (ReadLoop.Event.error : ReadLoop.Event φ)) = [] := by
    simp [frames]
  rw [he, frames_append, frames_map, hnone, List.append_nil]
  exact hp

def front (send : SendHistory.State Bytes) : Bytes := send.send.queue.head?.getD []

/-- `bytes` are the buffers that have been written, without a failure, and the part of the front
that has been sent. -/
def Transmitted (send : SendHistory.State Bytes) (sent : ℕ) (bytes : Bytes) : Prop :=
  ∃ done : List Bytes, send.events = done.map .wrote ∧
    bytes = done.flatten ++ (front send).take sent

theorem front_of_writing {send : SendHistory.State Bytes} (h : SendHistory.Inv send) {buffer : Bytes}
    {others : List Bytes} (hw : send.send.writing = buffer :: others) :
    front send = buffer ∧ ∃ rest, send.send.queue = buffer :: rest := by
  have hd : send.send.writing = send.send.queue.take 1 := h.disciplined
  cases hq : send.send.queue with
  | nil => simp [hd, hq] at hw
  | cons first rest =>
    obtain ⟨rfl, -⟩ : first = buffer ∧ [] = others := by simpa [hd, hq] using hw
    exact ⟨by simp [front, hq], rest, rfl⟩

theorem buffers_wrote (done : List Bytes) :
    (done.map SendHistory.Event.wrote).flatMap SendHistory.Event.buffers = done := by
  simp [List.flatMap_map, SendHistory.Event.buffers]

theorem Transmitted.posts {send : SendHistory.State Bytes} {sent : ℕ} {bytes : Bytes}
    (ht : Transmitted send sent bytes) (h : SendHistory.Inv send) : bytes <+: send.posts.flatten := by
  obtain ⟨done, hdone, hbytes⟩ := ht
  rw [hbytes, h.account, hdone, buffers_wrote, List.flatten_append, List.prefix_append_right_inj,
    front, SendQueue.State.waiting]
  cases send.send.queue with
  | nil => simp
  | cons first rest =>
    refine (List.take_prefix _ _).trans ?_
    simp

theorem take_front_runPosted {sender : SendHistory.Sender} {send t : SendHistory.State Bytes}
    {sent : ℕ} (h : SendHistory.Inv send) (hroom : sent ≤ (front send).length)
    (hs : SendHistory.step sender send .runPosted = some t) :
    (front t).take sent = (front send).take sent ∧ sent ≤ (front t).length ∧
      t.events = send.events ∧ t.posts = send.posts := by
  cases SendHistory.step_effect h.disciplined hs with
  | @runPosted queue hr =>
    have hqueue := SendQueue.runPosted_queue hr
    cases hq : send.send.queue with
    | nil =>
      obtain rfl : sent = 0 := by simpa [front, hq] using hroom
      exact ⟨by simp, Nat.zero_le _, rfl, rfl⟩
    | cons first rest =>
      have hfront : front { send with send := queue } = front send := by
        simp only [front, hqueue, hq]
        rfl
      rw [hfront]
      exact ⟨rfl, hroom, rfl, rfl⟩

variable {E : Ends φ}

variable (E) in
/-- As long as the connection is up, what has arrived and what is in flight is what has been sent;
what has arrived stays the beginning of what was posted, and the loop reads it. -/
structure Inv (s : State φ) : Prop where
  history : SendHistory.Inv s.send
  room : s.sent ≤ (front s.send).length
  flight : s.lost = false → Transmitted s.send s.sent (s.wire ++ s.net)
  arrived : s.wire <+: s.send.posts.flatten
  reading : Reading E.loop s.wire s.lost s.reader

theorem initial_inv : Inv E (initial : State φ) where
  history := SendHistory.initial_inv
  room := Nat.zero_le _
  flight _ := ⟨[], rfl, rfl⟩
  arrived := List.prefix_rfl
  reading := .flowing rfl start_flowing

theorem post_inv {s : State φ} (hs : Inv E s) (buffer : Bytes) : Inv E (post s buffer) := by
  have hstep : SendHistory.step E.sender s.send (.post buffer) = some (post s buffer).send := rfl
  refine ⟨SendHistory.step_inv hs.history hstep, hs.room, hs.flight, ?_, hs.reading⟩
  refine hs.arrived.trans ?_
  simp [post]

def postAll (s : State φ) (buffers : List Bytes) : State φ := buffers.foldl post s

theorem postAll_inv {s : State φ} (hs : Inv E s) (buffers : List Bytes) :
    Inv E (postAll s buffers) := by
  induction buffers generalizing s with
  | nil => exact hs
  | cons buffer buffers ih => exact ih (post_inv hs buffer)

@[simp] theorem postAll_posts (s : State φ) (buffers : List Bytes) :
    (postAll s buffers).send.posts = s.send.posts ++ buffers := by
  induction buffers generalizing s with
  | nil => simp [postAll]
  | cons buffer buffers ih =>
    have hfirst : (post s buffer).send.posts ++ buffers = s.send.posts ++ buffer :: buffers := by
      simp [post]
    exact (ih (post s buffer)).trans hfirst

theorem step_inv {s t : State φ} {a : Action} (hs : Inv E s) (h : step E s a = some t) :
    Inv E t := by
  cases step_effect h with
  | @runPosted send hsend =>
    obtain ⟨htake, hroom, hevents, hposts⟩ := take_front_runPosted hs.history hs.room hsend
    refine ⟨SendHistory.step_inv hs.history hsend, hroom, ?_, ?_, hs.reading⟩
    · intro hl
      obtain ⟨done, hdone, hbytes⟩ := hs.flight hl
      exact ⟨done, hevents.trans hdone, by rw [htake]; exact hbytes⟩
    · rw [hposts]
      exact hs.arrived
  | @send k buffer others hw hk hroom =>
    obtain ⟨hfront, -⟩ := front_of_writing hs.history hw
    refine ⟨hs.history, ?_, ?_, hs.arrived, hs.reading⟩
    · rw [hfront]
      exact hroom
    · intro hl
      obtain ⟨done, hdone, hbytes⟩ := hs.flight hl
      refine ⟨done, hdone, ?_⟩
      rw [hfront] at hbytes ⊢
      simp only [show s.lost = false from hl, Bool.false_eq_true, if_false]
      rw [← List.append_assoc, hbytes, List.take_add, List.append_assoc]
  | @wrote buffer others send hw hall hsend =>
    obtain ⟨hfront, -⟩ := front_of_writing hs.history hw
    have hhistory := SendHistory.step_inv hs.history hsend
    cases SendHistory.step_effect hs.history.disciplined hsend with
    | @wrote i queue first hd hp hq =>
      have hfirst : front s.send = first := by simp [front, hq]
      refine ⟨hhistory, Nat.zero_le _, ?_, hs.arrived, hs.reading⟩
      intro hl
      -- the buffer that was being sent is now one of those that are done
      obtain ⟨done, hdone, hbytes⟩ := hs.flight hl
      refine ⟨done ++ [buffer], by simp [hdone, ← hfirst, hfront], ?_⟩
      simp [hbytes, hfront, hall]
  | @failed send hl hsend =>
    have hhistory := SendHistory.step_inv hs.history hsend
    cases SendHistory.step_effect hs.history.disciplined hsend with
    | failed =>
      refine ⟨hhistory, Nat.zero_le _, ?_, hs.arrived, hs.reading⟩
      intro hup
      rw [hl] at hup
      cases hup
  | @arrive k hl hk hn =>
    have hsame : s.wire ++ s.net.take k ++ s.net.drop k = s.wire ++ s.net := by
      rw [List.append_assoc, List.take_append_drop]
    refine ⟨hs.history, hs.room, ?_, ?_, ?_⟩
    · intro hl
      rw [hsame]
      exact hs.flight hl
    · refine List.IsPrefix.trans ?_ ((hs.flight hl).posts hs.history)
      rw [← hsame]
      exact List.prefix_append _ _
    · have hreading := hs.reading
      rw [hl] at hreading ⊢
      exact hreading.arrive _
  | lose =>
    refine ⟨hs.history, hs.room, ?_, hs.arrived, hs.reading.lose⟩
    intro hup
    cases hup
  | read hr => exact ⟨hs.history, hs.room, hs.flight, hs.arrived, hs.reading.step hr⟩

theorem step_posts {s t : State φ} {a : Action} (hs : Inv E s) (h : step E s a = some t) :
    t.send.posts = s.send.posts := by
  cases step_effect h with
  | runPosted hsend => exact (take_front_runPosted hs.history hs.room hsend).2.2.2
  | wrote hw hall hsend | failed hl hsend =>
    cases SendHistory.step_effect hs.history.disciplined hsend
    rfl
  | send | arrive | lose | read => rfl

theorem step_reader {s t : State φ} {a : Action} (ha : ∀ b, a ≠ .read b) (h : step E s a = some t) :
    t.reader.events = s.reader.events ∧ t.reader.reading = s.reader.reading ∧
      t.reader.pc = s.reader.pc := by
  cases step_effect h with
  | runPosted | send | wrote | failed | arrive | lose => exact ⟨rfl, rfl, rfl⟩
  | read => exact absurd rfl (ha _)

/-- The reader reports the first of the frames in the posted bytes and nothing else, wherever the
connection was cut and whatever became of the writes. -/
theorem Inv.received {s : State φ} (hs : Inv E s) :
    frames s.reader.events <+: E.loop.readFrames s.send.posts.flatten := by
  obtain ⟨rest, hrest⟩ := hs.arrived
  rw [← hrest]
  exact hs.reading.frames_prefix.trans (E.loop.readFrames_mono s.wire rest)

end Czrpc.Link
