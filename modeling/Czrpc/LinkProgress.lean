import Czrpc.Link

/-! How a way of a connection comes to rest. The side that writes ends, whether the connection is lost
or not; and while it is up, the two sides and the bytes between them come to rest only when the reader
has all that was posted. -/
namespace Czrpc.Link
open Execution Framing Pipe

variable {φ : Type*} {E : Ends φ}

def Sends : Action → Prop
  | .runPosted | .send _ | .written _ => True
  | _ => False

instance : (a : Action) → Decidable (Sends a)
  | .runPosted | .send _ | .written _ => .isTrue trivial
  | .arrive _ | .lose | .read _ => .isFalse nofun

theorem runPosted_sizes {sender : SendHistory.Sender} {send t : SendHistory.State Bytes}
    (hd : SendHistory.Inv send) (h : SendHistory.step sender send .runPosted = some t) :
    t.send.waiting = send.send.waiting ∧ t.send.posted.length + 1 = send.send.posted.length ∧
      t.send.queue.length ≤ send.send.queue.length + 1 := by
  cases SendHistory.step_effect hd.disciplined h with
  | @runPosted queue hr =>
    refine ⟨SendQueue.waiting_runPosted hr, ?_, ?_⟩
    · unfold SendQueue.runPosted at hr
      split at hr
      · cases hr
      · rename_i buffer rest hp
        obtain rfl := Option.some.inj hr
        rw [hp]
        split <;> simp
    · rw [SendQueue.runPosted_queue hr, List.length_append, List.length_take]
      omega

def sendWork (s : State φ) : ℕ :=
  (s.send.send.waiting.flatten.length - s.sent) + 2 * s.send.send.posted.length +
    s.send.send.queue.length

theorem step_sendWork {s t : State φ} {a : Action} (hs : Inv E s) (ha : Sends a)
    (h : step E s a = some t) : sendWork t < sendWork s := by
  have hroom := hs.room
  cases step_effect h with
  | runPosted hsend =>
    obtain ⟨hwaiting, hposted, hone⟩ := runPosted_sizes hs.history hsend
    simp only [sendWork, hwaiting]
    omega
  | @send k buffer others hw hk hsent =>
    obtain ⟨-, rest, hq⟩ := front_of_writing hs.history hw
    have hlen : buffer.length ≤ s.send.send.waiting.flatten.length := by
      simp only [SendQueue.State.waiting, hq, List.cons_append, List.flatten_cons, List.length_append]
      omega
    simp only [sendWork]
    omega
  | @wrote buffer others send hw hall hsend =>
    cases SendHistory.step_effect hs.history.disciplined hsend with
    | @wrote i queue first hd hp hqueue =>
      have hfirst : front s.send = first := by simp [front, hqueue]
      rw [hfirst] at hroom
      simp only [sendWork, SendQueue.State.waiting, hp, hqueue, List.cons_append, List.flatten_cons,
        List.length_append, List.length_cons]
      omega
  | @failed send hl hsend =>
    obtain ⟨buffer, hget, -⟩ := Option.bind_eq_some_iff.mp hsend
    obtain ⟨others, hw⟩ : ∃ others, s.send.send.writing = buffer :: others := by
      cases hwriting : s.send.send.writing with
      | nil => simp [hwriting] at hget
      | cons first others =>
        obtain rfl : first = buffer := by simpa [hwriting] using hget
        exact ⟨others, rfl⟩
    obtain ⟨hfront, rest, hq⟩ := front_of_writing hs.history hw
    rw [hfront] at hroom
    cases SendHistory.step_effect hs.history.disciplined hsend with
    | @failed i queue hd hp hempty =>
      simp only [sendWork, SendQueue.State.waiting, hp, hempty, hq, List.cons_append,
        List.nil_append, List.flatten_cons, List.flatten_append, List.length_append,
        List.length_cons, List.length_nil]
      omega
  | arrive | lose | read => exact ha.elim

theorem step_sendWork_of_not_sends {s t : State φ} {a : Action} (ha : ¬ Sends a)
    (h : step E s a = some t) : sendWork t = sendWork s := by
  cases step_effect h with
  | runPosted | send | wrote | failed => exact absurd trivial ha
  | arrive | lose | read => rfl

theorem step_send_idle {s t : State φ} {a : Action} (hp : s.send.send.posted = [])
    (hw : s.send.send.writing = []) (h : step E s a = some t) : t.send.send = s.send.send := by
  cases step_effect h with
  | runPosted hsend => simp [SendHistory.step, SendQueue.runPosted, hp] at hsend
  | wrote _ _ hsend | failed _ hsend => simp [SendHistory.step, hw] at hsend
  | send | arrive | lose | read => rfl

theorem Inv.writer_idle {s : State φ} (hs : Inv E s) (h : ∀ a, Sends a → step E s a = none) :
    s.send.send.posted = [] ∧ s.send.send.writing = [] := by
  constructor
  · cases hp : s.send.send.posted with
    | nil => rfl
    | cons buffer rest =>
      have hnone := h .runPosted trivial
      simp [step, SendHistory.step, SendQueue.runPosted, hp] at hnone
  · cases hw : s.send.send.writing with
    | nil => rfl
    | cons buffer others =>
      obtain ⟨hfront, -⟩ := front_of_writing hs.history hw
      have hroom := hs.room
      rw [hfront] at hroom
      rcases Nat.lt_or_eq_of_le hroom with hlt | hall
      · have hnone := h (.send 1) trivial
        simp [step, hw, Nat.succ_le_of_lt hlt] at hnone
      · have hnone := h (.written false) trivial
        simp [step, hw, hall, SendHistory.step, SendHistory.complete_eq, SendQueue.complete] at hnone

/-- What goes on by itself as long as the connection is up. -/
def Own : Action → Prop
  | .lose | .read .disconnect => False
  | _ => True

instance : (a : Action) → Decidable (Own a)
  | .lose | .read .disconnect => .isFalse nofun
  | .runPosted | .send _ | .written _ | .arrive _ => .isTrue trivial
  | .read (.transfer _) | .read .complete | .read .resume => .isTrue trivial

theorem Sends.own {a : Action} (h : Sends a) : Own a := by
  cases a with
  | runPosted | send | written => trivial
  | arrive | lose | read => exact h.elim

structure Up (s : State φ) : Prop where
  lost : s.lost = false
  isOpen : s.reader.isOpen = true

theorem Inv.flowing {s : State φ} (hs : Inv E s) (hup : Up s) : Flowing E.loop s.wire s.reader := by
  cases hs.reading with
  | flowing _ h => exact h
  | ending hl =>
    rw [hup.lost] at hl
    cases hl
  | closed _ ho =>
    rw [hup.isOpen] at ho
    cases ho

theorem step_up {s t : State φ} {a : Action} (hs : Inv E s) (hup : Up s) (ha : Own a)
    (h : step E s a = some t) : Up t := by
  cases step_effect h with
  | runPosted | send | wrote | failed | arrive => exact ⟨hup.lost, hup.isOpen⟩
  | lose => exact ha.elim
  | @read a reader hr =>
    have hne : a ≠ .disconnect := by
      rintro rfl
      exact ha
    exact ⟨hup.lost, (step_flowing (hs.flowing hup) hne hr).isOpen⟩

variable (E) in
/-- Nothing moves any more by itself. -/
def Settled (s : State φ) : Prop := ∀ a, Own a → step E s a = none

theorem Inv.settled_wire {s : State φ} (hs : Inv E s) (hup : Up s) (h : Settled E s) :
    s.wire = s.send.posts.flatten := by
  have hd : s.send.send.writing = s.send.send.queue.take 1 := hs.history.disciplined
  have hidle := hs.writer_idle fun a ha => h a ha.own
  have hposted : s.send.send.posted = [] := hidle.1
  have hqueue : s.send.send.queue = [] := by
    rw [hidle.2] at hd
    cases hq : s.send.send.queue with
    | nil => rfl
    | cons buffer rest => simp [hq] at hd
  have hnet : s.net = [] := by
    cases hn : s.net with
    | nil => rfl
    | cons b rest =>
      have hnone := h (.arrive 1) trivial
      simp [step, hup.lost, hn] at hnone
  obtain ⟨done, hdone, hbytes⟩ := hs.flight hup.lost
  have haccount := hs.history.account
  rw [hdone, buffers_wrote, SendQueue.State.waiting, hqueue, hposted, List.append_nil,
    List.append_nil] at haccount
  rw [hnet, List.append_nil, front, hqueue] at hbytes
  rw [hbytes, haccount]
  simp

/-- It comes to rest only when the reader has reported all the frames in the posted bytes. -/
theorem Inv.settled {s : State φ} (hs : Inv E s) (hup : Up s) (h : Settled E s) :
    frames s.reader.events = E.loop.readFrames s.send.posts.flatten := by
  have hread : ∀ a, a ≠ .disconnect → ReadLoop.step E.loop s.reader a = none := by
    intro a ha
    have hown : Own (.read a) := by
      cases a with
      | disconnect => exact absurd rfl ha
      | transfer | complete | resume => trivial
    simpa [step] using h (.read a) hown
  rw [(hs.flowing hup).settled hread, hs.settled_wire hup h]

/-- What is left to do. A byte that has not been sent counts for more than one in flight, and that
for more than the work of the loop on it. -/
def work (s : State φ) : ℕ :=
  11 * (s.send.send.waiting.flatten.length - s.sent) + 2 * s.send.send.posted.length +
    s.send.send.queue.length + 10 * s.net.length + ReadLoop.work s.reader

theorem step_work {s t : State φ} {a : Action} (hs : Inv E s) (hup : Up s) (ha : Own a)
    (h : step E s a = some t) : work t < work s := by
  cases step_effect h with
  | runPosted hsend =>
    obtain ⟨hwaiting, hposted, hone⟩ := runPosted_sizes hs.history hsend
    simp only [work, hwaiting]
    omega
  | @send k buffer others hw hk hroom =>
    obtain ⟨-, rest, hq⟩ := front_of_writing hs.history hw
    have hlen : buffer.length ≤ s.send.send.waiting.flatten.length := by
      simp only [SendQueue.State.waiting, hq, List.cons_append, List.flatten_cons, List.length_append]
      omega
    have hbytes : ((buffer.drop s.sent).take k).length = k := by
      rw [List.length_take, List.length_drop]
      omega
    simp only [work, hup.lost, Bool.false_eq_true, if_false, List.length_append, hbytes]
    omega
  | @wrote buffer others send hw hall hsend =>
    obtain ⟨-, rest, hq⟩ := front_of_writing hs.history hw
    cases SendHistory.step_effect hs.history.disciplined hsend with
    | @wrote i queue first hd hp hqueue =>
      obtain ⟨rfl, -⟩ := List.cons_eq_cons.mp (hq.symm.trans hqueue)
      simp only [work, SendQueue.State.waiting, hp, hqueue, List.cons_append, List.flatten_cons,
        List.length_append, List.length_cons, hall]
      omega
  | failed hl =>
    rw [hup.lost] at hl
    cases hl
  | @arrive k hl hk hn =>
    have htake : (s.net.take k).length = k := by
      rw [List.length_take]
      omega
    have hfed : ReadLoop.work { s.reader with stream := s.reader.stream ++ s.net.take k } =
        ReadLoop.work s.reader + 9 * k := by
      simp only [ReadLoop.work, ReadLoop.handlersLeft, List.length_append, htake]
      omega
    simp only [work, hfed, List.length_drop]
    omega
  | lose => exact ha.elim
  | read hr =>
    have hwork := ReadLoop.step_work hr
    simp only [work]
    omega

end Czrpc.Link
