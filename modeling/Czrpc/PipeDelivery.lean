import Czrpc.Pipe

/-! On a connection that stays up everything that is posted arrives: the worker of the client
gets the frames that the posted bytes hold, in their order, and the way comes to rest only
when it has got them all. -/
namespace Czrpc.Pipe
open Execution Framing WorkPool

variable {φ : Type*} {L : ReadLoop.Loop φ}

variable (L) in
/-- Nothing moves any more by itself. -/
def Settled (s : State φ) : Prop := ∀ a, Up a → step L s a = none

/-- The frames that the worker has are the first of those on the wire, and the wire has the
beginning of what was posted. -/
theorem Inv.beginning {s : State φ} (hs : Inv L s) :
    s.routed <+: L.readFrames s.wire ∧ s.wire <+: s.send.posts.flatten := by
  constructor
  · obtain ⟨rest, hrest⟩ := hs.flowing.reads
    rw [hrest, hs.tasks, List.append_assoc]
    exact List.prefix_append _ _
  · obtain ⟨done, hdone, hwire⟩ := hs.wire
    have hposts := hs.history.account
    have hbuffers : (done.map SendHistory.Event.wrote).flatMap SendHistory.Event.buffers = done := by
      simp [List.flatMap_map, SendHistory.Event.buffers]
    rw [hdone, hbuffers] at hposts
    rw [hwire, hposts, List.flatten_append, List.prefix_append_right_inj, State.front,
      SendQueue.State.waiting]
    cases s.send.send.queue with
    | nil => simp
    | cons front rest =>
      refine (List.take_prefix _ _).trans ?_
      simp

theorem Inv.settled_wire {s : State φ} (hs : Inv L s) (h : Settled L s) :
    s.wire = s.send.posts.flatten := by
  have hd : s.send.send.writing = s.send.send.queue.take 1 := hs.history.disciplined
  have hposted : s.send.send.posted = [] := by
    cases hp : s.send.send.posted with
    | nil => rfl
    | cons buffer rest =>
      have hnone := h .runPosted trivial
      simp [step, SendHistory.step, SendQueue.runPosted, hp] at hnone
  have hqueue : s.send.send.queue = [] := by
    cases hq : s.send.send.queue with
    | nil => rfl
    | cons buffer rest =>
      have hw : s.send.send.writing = [buffer] := by simp [hd, hq]
      have hroom : s.sent ≤ buffer.length := by simpa [State.front, hq] using hs.room
      rcases Nat.lt_or_eq_of_le hroom with hlt | hall
      · have hnone := h (.send 1) trivial
        simp [step, putOnWire, hw, Nat.succ_le_of_lt hlt] at hnone
      · have hnone := h (.written false) rfl
        simp [step, writeHandler, hw, hall, SendHistory.step, SendHistory.complete] at hnone
  obtain ⟨done, hdone, hwire⟩ := hs.wire
  rw [hwire, hs.history.account, hdone]
  simp [State.front, SendQueue.State.waiting, hqueue, hposted, List.flatMap_map,
    SendHistory.Event.buffers]

theorem Inv.settled_routed {s : State φ} (hs : Inv L s) (h : Settled L s) :
    s.routed = L.readFrames s.wire := by
  have hclient : ∀ a, a ≠ .disconnect → ReadLoop.step L s.client a = none := by
    intro a ha
    simpa [step, clientStep] using h (.client a) ha
  have hbacklog : backlog s.pool = [] := by
    have htake := h .take trivial
    have hfinish := h .finish trivial
    simp only [step, Option.map_eq_none_iff] at htake hfinish
    unfold WorkPool.finish at hfinish
    unfold WorkPool.take at htake
    cases hrun : s.pool.running soleWorker with
    | some task => simp [hrun] at hfinish
    | none =>
      cases hq : s.pool.queue with
      | nil => simp [backlog, hrun, hq]
      | cons task rest => simp [hrun, hq] at htake
  rw [← hs.flowing.settled hclient, hs.tasks, hbacklog, List.append_nil]

/-- What is left to do on the way. A byte that is not yet on the wire counts for more than
the work of the loop on it, and that for more than the work of the pool. -/
def work (s : State φ) : ℕ :=
  30 * (s.send.send.waiting.flatten.length - s.sent) + 2 * s.send.send.posted.length +
    s.send.send.queue.length + 3 * ReadLoop.work s.client + 2 * s.pool.queue.length +
    (s.pool.running soleWorker).toList.length

theorem runPosted_work {s t : State φ} (hs : Inv L s) (h : step L s .runPosted = some t) :
    work t < work s := by
  obtain ⟨send, hsend, rfl⟩ := Option.map_eq_some_iff.mp h
  cases SendHistory.step_effect hs.history.disciplined hsend with
  | @runPosted queue hr =>
    have hwaiting := SendQueue.waiting_runPosted hr
    have hqueue := SendQueue.runPosted_queue hr
    have hposted : queue.posted.length + 1 = s.send.send.posted.length := by
      unfold SendQueue.runPosted at hr
      split at hr
      · cases hr
      · rename_i buffer rest hp
        obtain rfl := Option.some.inj hr
        rw [hp]
        split <;> simp
    have hone : queue.queue.length ≤ s.send.send.queue.length + 1 := by
      rw [hqueue, List.length_append, List.length_take]
      omega
    simp only [work, hwaiting]
    omega

theorem send_work {s t : State φ} {k : ℕ} (hs : Inv L s) (h : putOnWire s k = some t) :
    work t < work s := by
  obtain ⟨buffer, others, hw, hk, hroom, rfl⟩ := putOnWire_eq_some h
  obtain ⟨rest, hq⟩ := hs.queue_of_writing hw
  have hlen : buffer.length ≤ s.send.send.waiting.flatten.length := by
    simp only [SendQueue.State.waiting, hq, List.cons_append, List.flatten_cons, List.length_append]
    omega
  have hbytes : ((buffer.drop s.sent).take k).length = k := by
    rw [List.length_take, List.length_drop]
    omega
  have hfed : ReadLoop.work
      { s.client with stream := s.client.stream ++ (buffer.drop s.sent).take k } =
      ReadLoop.work s.client + 9 * k := by
    simp only [ReadLoop.work, ReadLoop.handlersLeft, List.length_append, hbytes]
    omega
  simp only [work, hfed]
  omega

theorem written_work {s t : State φ} (hs : Inv L s) (h : writeHandler s false = some t) :
    work t < work s := by
  obtain ⟨buffer, others, send, hw, hall, hsend, rfl⟩ := writeHandler_eq_some h
  simp only [Bool.false_eq_true, false_or] at hall
  obtain ⟨rest, hq⟩ := hs.queue_of_writing hw
  cases SendHistory.step_effect hs.history.disciplined hsend with
  | @wrote i queue front hd hp hqueue =>
    obtain ⟨rfl, -⟩ := List.cons_eq_cons.mp (hq.symm.trans hqueue)
    simp only [work, SendQueue.State.waiting, hp, hqueue, List.cons_append, List.flatten_cons,
      List.length_append, List.length_cons, hall]
    omega

theorem frames_step_length {s t : ReadLoop.State φ} {a : ReadLoop.Action}
    (h : ReadLoop.step L s a = some t) : (frames t.events).length ≤ (frames s.events).length + 1 := by
  cases ReadLoop.step_effect h with
  | @transfer r => cases r <;> exact Nat.le_succ _
  | headDone | contentDone | contentFailed | disconnect => exact Nat.le_succ _
  | headFailed | failed =>
    rw [ReadLoop.handleError_events, frames_append, List.length_append]
    exact Nat.le_succ _
  | delivered =>
    rw [frames_append, List.length_append]
    exact Nat.le_refl _

theorem client_work {s t : State φ} {a : ReadLoop.Action} (h : clientStep L s a = some t) :
    work t < work s := by
  obtain ⟨client, hclient, rfl⟩ := Option.map_eq_some_iff.mp h
  have hwork := ReadLoop.step_work hclient
  have hone := frames_step_length hclient
  simp only [work, foldl_addTask, List.length_append, List.length_drop]
  omega

theorem step_work {s t : State φ} {a : Action} (hs : Inv L s) (ha : Up a)
    (h : step L s a = some t) : work t < work s := by
  cases a with
  | runPosted => exact runPosted_work hs h
  | send k => exact send_work hs h
  | written ec =>
    obtain rfl : ec = false := ha
    exact written_work hs h
  | client a => exact client_work h
  | take =>
    obtain ⟨pool, hpool, rfl⟩ := Option.map_eq_some_iff.mp h
    obtain ⟨task, rest, hw, hq, rfl⟩ := take_eq_some hpool
    simp only [work, hq, hw, Function.update_self, Option.toList_none, Option.toList_some,
      List.length_nil, List.length_cons]
    omega
  | finish =>
    obtain ⟨⟨task, pool⟩, hpool, rfl⟩ := Option.map_eq_some_iff.mp h
    obtain ⟨hw, rfl⟩ := finish_eq_some hpool
    simp only [work, hw, Function.update_self, Option.toList_none, Option.toList_some,
      List.length_nil, List.length_singleton]
    omega

theorem step_posts {s t : State φ} {a : Action} (h : step L s a = some t) :
    t.send.posts = s.send.posts := by
  cases a with
  | runPosted =>
    obtain ⟨send, hsend, rfl⟩ := Option.map_eq_some_iff.mp h
    obtain ⟨queue, -, rfl⟩ := Option.map_eq_some_iff.mp hsend
    rfl
  | send k =>
    obtain ⟨buffer, others, -, -, -, rfl⟩ := putOnWire_eq_some h
    rfl
  | written ec =>
    obtain ⟨buffer, others, send, -, -, hsend, rfl⟩ := writeHandler_eq_some h
    obtain ⟨front, -, hsend⟩ := Option.bind_eq_some_iff.mp hsend
    obtain ⟨queue, -, rfl⟩ := Option.map_eq_some_iff.mp hsend
    rfl
  | client a =>
    obtain ⟨client, -, rfl⟩ := Option.map_eq_some_iff.mp h
    rfl
  | take =>
    obtain ⟨pool, -, rfl⟩ := Option.map_eq_some_iff.mp h
    rfl
  | finish =>
    obtain ⟨done, -, rfl⟩ := Option.map_eq_some_iff.mp h
    rfl

theorem routed_step {s t : State φ} {a : Action} (h : step L s a = some t) :
    t.routed = s.routed ∨ ∃ x, t.routed = s.routed ++ [x] := by
  cases a with
  | finish =>
    obtain ⟨done, -, rfl⟩ := Option.map_eq_some_iff.mp h
    exact Or.inr ⟨done.1, rfl⟩
  | runPosted | client | take =>
    obtain ⟨next, -, rfl⟩ := Option.map_eq_some_iff.mp h
    exact Or.inl rfl
  | send k =>
    obtain ⟨buffer, others, -, -, -, rfl⟩ := putOnWire_eq_some h
    exact Or.inl rfl
  | written ec =>
    obtain ⟨buffer, others, send, -, -, -, rfl⟩ := writeHandler_eq_some h
    exact Or.inl rfl

end Czrpc.Pipe
