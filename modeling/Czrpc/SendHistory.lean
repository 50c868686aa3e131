import Czrpc.Execution
import Czrpc.SendQueue

/-! What becomes of the buffers posted to a send queue without resend: each is written in
its turn, or dropped by the failure of a write in front of it. -/
namespace Czrpc.SendHistory
open Execution SendQueue

variable {β : Type*}

/-- The two classes with such a queue: `connection`, and `client_base` with resend off. -/
inductive Sender
  | connection
  | clientBase
  deriving DecidableEq, Repr

def complete (s : SendQueue.State β) : Sender → ℕ → Bool → Option (SendQueue.State β)
  | .connection, i, ec =>
    if i < s.writing.length then
      some (connectionWriteHandler { s with writing := s.writing.eraseIdx i } ec)
    else none
  | .clientBase, i, ec => SendQueue.complete s false i ec

theorem complete_eq (s : SendQueue.State β) (sender : Sender) (i : ℕ) (ec : Bool) :
    complete s sender i ec = SendQueue.complete s false i ec := by
  cases sender with
  | clientBase => rfl
  | connection => cases ec <;> rfl

/-- A write of a buffer has succeeded, or a write has failed with these buffers in the
queue. -/
inductive Event (β : Type*)
  | wrote (buffer : β)
  | failed (queued : List β)
  deriving DecidableEq, Repr

def Event.buffers : Event β → List β
  | .wrote buffer => [buffer]
  | .failed queued => queued

def Event.written : Event β → List β
  | .wrote buffer => [buffer]
  | .failed _ => []

/-- `posts` are all the buffers posted so far. -/
structure State (β : Type*) where
  send : SendQueue.State β
  posts : List β
  events : List (Event β)
  deriving DecidableEq, Repr

def initial : State β := ⟨SendQueue.initial, [], []⟩

inductive Action (β : Type*)
  | post (buffer : β)
  | runPosted
  | complete (i : ℕ) (ec : Bool)
  deriving DecidableEq, Repr

def step (sender : Sender) (s : State β) : Action β → Option (State β)
  | .post buffer => some { s with send := post s.send buffer, posts := s.posts ++ [buffer] }
  | .runPosted => (runPosted s.send).map fun send => { s with send := send }
  | .complete i ec =>
    (s.send.writing[i]?).bind fun buffer =>
      (complete s.send sender i ec).map fun send =>
        { s with
          send := send
          events := s.events ++ [if ec then .failed s.send.queue else .wrote buffer] }

inductive Effect (s : State β) : Action β → State β → Prop
  | post {buffer : β} :
      Effect s (.post buffer) { s with send := post s.send buffer, posts := s.posts ++ [buffer] }
  | runPosted {send : SendQueue.State β} (h : runPosted s.send = some send) :
      Effect s .runPosted { s with send := send }
  | wrote {i : ℕ} {send : SendQueue.State β} {buffer : β} (hd : Disciplined send)
      (hp : send.posted = s.send.posted) (hq : s.send.queue = buffer :: send.queue) :
      Effect s (.complete i false) { s with send := send, events := s.events ++ [.wrote buffer] }
  | failed {i : ℕ} {send : SendQueue.State β} (hd : Disciplined send)
      (hp : send.posted = s.send.posted) (hq : send.queue = []) :
      Effect s (.complete i true)
        { s with send := send, events := s.events ++ [.failed s.send.queue] }

theorem step_effect {sender : Sender} {s t : State β} {a : Action β} (hs : Disciplined s.send)
    (h : step sender s a = some t) : Effect s a t := by
  cases a with
  | post buffer =>
    obtain rfl := Option.some.inj h
    exact .post
  | runPosted =>
    obtain ⟨send, hsend, rfl⟩ := Option.map_eq_some_iff.mp h
    exact .runPosted hsend
  | complete i ec =>
    obtain ⟨buffer, hbuffer, h⟩ := Option.bind_eq_some_iff.mp h
    obtain ⟨send, hsend, rfl⟩ := Option.map_eq_some_iff.mp h
    rw [complete_eq] at hsend
    cases ec with
    | false =>
      obtain ⟨hd, hp, front, hfront, hq⟩ := complete_ok hs hsend
      obtain rfl : buffer = front := Option.some.inj (hbuffer.symm.trans hfront)
      exact .wrote hd hp hq
    | true =>
      obtain ⟨hd, hp, hq⟩ := complete_failed hs hsend
      exact .failed hd hp hq

/-- The queue is disciplined, and the events and what still waits account for every post. -/
structure Inv (s : State β) : Prop where
  disciplined : Disciplined s.send
  account : s.posts = s.events.flatMap Event.buffers ++ s.send.waiting

theorem initial_inv : Inv (initial : State β) := ⟨rfl, rfl⟩

theorem step_inv {sender : Sender} {s t : State β} {a : Action β} (hs : Inv s)
    (h : step sender s a = some t) : Inv t := by
  cases step_effect hs.disciplined h with
  | post => exact ⟨hs.disciplined, by simp [hs.account]⟩
  | runPosted hr =>
    exact ⟨disciplined_runPosted hs.disciplined hr, by simp [hs.account, waiting_runPosted hr]⟩
  | wrote hd hp hq =>
    refine ⟨hd, ?_⟩
    simp [hs.account, SendQueue.State.waiting, hp, hq, Event.buffers]
  | failed hd hp hq =>
    refine ⟨hd, ?_⟩
    simp [hs.account, SendQueue.State.waiting, hp, hq, Event.buffers]

theorem queue_kept {sender : Sender} {s t : State β} {a : Action β} (hs : Disciplined s.send)
    (ha : ∀ i ec, a ≠ .complete i ec) (h : step sender s a = some t) :
    s.send.queue <+: t.send.queue := by
  cases step_effect hs h with
  | post => exact List.prefix_rfl
  | runPosted hr =>
    rw [runPosted_queue hr]
    exact List.prefix_append _ _
  | wrote | failed => exact absurd rfl (ha _ _)

theorem written_sublist (events : List (Event β)) :
    (events.flatMap Event.written).Sublist (events.flatMap Event.buffers) := by
  induction events with
  | nil => exact List.Sublist.refl _
  | cons e events ih =>
    rw [List.flatMap_cons, List.flatMap_cons]
    refine List.Sublist.append ?_ ih
    cases e with
    | wrote buffer => exact List.Sublist.refl _
    | failed queued => exact List.nil_sublist _

theorem wrote_infix {posts rest : List β} {before after : List (Event β)} {mid : List β}
    (h : posts = (before ++ mid.map Event.wrote ++ after).flatMap Event.buffers ++ rest) :
    mid <:+: posts := by
  have hmid : (mid.map Event.wrote).flatMap Event.buffers = mid := by
    simp [List.flatMap_map, Event.buffers]
  refine ⟨before.flatMap Event.buffers, after.flatMap Event.buffers ++ rest, ?_⟩
  rw [h, List.flatMap_append, List.flatMap_append, hmid, List.append_assoc, List.append_assoc,
    List.append_assoc]

/-- After any posts and completions at most one write is outstanding, one is exactly if the
queue is not empty, it is for the front, and the front stays until the handler of its write
runs. What has been written is a subsequence of what has been posted, contiguous where no
failure comes between; a failure drops the buffers that are queued and no others. -/
theorem send_queue_disciplined (sender : Sender) {as : List (Action β)} {s : State β}
    (hr : run (step sender) initial as = some s) :
    s.send.writing.length ≤ 1 ∧ (s.send.writing ≠ [] ↔ s.send.queue ≠ []) ∧
      (∀ buffer ∈ s.send.writing, s.send.queue.head? = some buffer) ∧
      (∀ a t, step sender s a = some t → (∀ i ec, a ≠ .complete i ec) →
        s.send.queue <+: t.send.queue) ∧
      (∀ i t, step sender s (.complete i true) = some t →
        t.send.queue = [] ∧ t.send.posted = s.send.posted) ∧
      s.posts = s.events.flatMap Event.buffers ++ s.send.queue ++ s.send.posted ∧
      (s.events.flatMap Event.written).Sublist s.posts ∧
      ∀ before mid after, s.events = before ++ mid.map .wrote ++ after → mid <:+: s.posts := by
  have hinv : Inv s := run_invariant (fun _ _ _ => step_inv) initial_inv hr
  have hw : s.send.writing = s.send.queue.take 1 := hinv.disciplined
  have haccount : s.posts = s.events.flatMap Event.buffers ++ s.send.queue ++ s.send.posted := by
    rw [hinv.account, SendQueue.State.waiting, List.append_assoc]
  refine ⟨?_, ?_, ?_, ?_, ?_, haccount, ?_, ?_⟩
  · rw [hw]
    exact List.length_take_le 1 _
  · rw [hw]
    cases s.send.queue <;> simp
  · intro buffer hb
    rw [hw] at hb
    cases hq : s.send.queue with
    | nil => simp [hq] at hb
    | cons front rest =>
      obtain rfl : buffer = front := by simpa [hq] using hb
      rfl
  · intro a t h ha
    exact queue_kept hinv.disciplined ha h
  · intro i t h
    cases step_effect hinv.disciplined h with
    | failed hd hp hq => exact ⟨hq, hp⟩
  · rw [haccount, List.append_assoc]
    exact (written_sublist s.events).trans (List.sublist_append_left _ _)
  · intro before mid after he
    rw [hinv.account, he]
    exact wrote_infix rfl

theorem send_queue_disciplined_failure :
    ∃ s : State ℕ, run (step .connection) initial [.post 1, .runPosted, .post 2, .post 3,
        .runPosted, .runPosted, .complete 0 false, .post 4, .complete 0 true, .runPosted] = some s ∧
      s.events = [.wrote 1, .failed [2, 3]] ∧ s.send.writing = [4] ∧
      (s.events.flatMap Event.written).Sublist s.posts := by
  have hrun : (run (step .connection) (initial : State ℕ) [.post 1, .runPosted, .post 2, .post 3,
      .runPosted, .runPosted, .complete 0 false, .post 4, .complete 0 true, .runPosted]).map
        (fun s => (s.events, s.send.writing)) = some ([.wrote 1, .failed [2, 3]], [4]) := by decide
  obtain ⟨s, hs, he⟩ := Option.map_eq_some_iff.mp hrun
  obtain ⟨hevents, hwriting⟩ := Prod.mk.inj he
  exact ⟨s, hs, hevents, hwriting, (send_queue_disciplined .connection hs).2.2.2.2.2.2.1⟩

end Czrpc.SendHistory
