import Czrpc.Execution
import Czrpc.Framing

/-! The read loop on one connection: `read_head` and `read_content` of `connection`, and
`async_read_head` and `async_read_content` of `async_rpc_client` and `sub_client`. They
read a head into one member, copy it to another, read a content as long as the head says
into a third, and cut the content up. The content handler arms the next head read first,
so that bytes of the next head may arrive before the content is cut up.

Of boost::asio it is assumed that a read fills its buffer or fails, that handlers run one
at a time, and that a closed socket transfers nothing. A client is not stopped. -/
namespace Czrpc.ReadLoop
open Execution Framing

inductive Read
  | head
  | content
  deriving DecidableEq, Repr

/-- Whether the io thread is in the content handler, behind its call that arms the next
head read; `ec` is the error of the content read. -/
inductive Pc
  | idle
  | rearmed (ec : Bool)
  deriving DecidableEq, Repr

/-- What the loop reports: a request routed, a response routed, a push given to the pool;
or a call of `handle_error`. -/
inductive Event (φ : Type*)
  | frame (x : φ)
  | error
  deriving DecidableEq, Repr

/-- `stream` are the bytes on their way; `ended` says that none will follow them.
`headBuf` and `content` are the bytes that the last read has put into the buffer of the
head and of the content, and `head` is the copy of the head buffer. -/
structure State (φ : Type*) where
  stream : Bytes
  ended : Bool
  isOpen : Bool
  headBuf : Bytes
  head : Bytes
  content : Bytes
  reading : Option Read
  pc : Pc
  events : List (Event φ)
  deriving DecidableEq, Repr

/-- What the classes differ in: the format, and whether `handle_error` closes the socket. -/
structure Loop (φ : Type*) extends Format φ where
  closes : Bool

variable {φ : Type*}

def start (bs : Bytes) (ended : Bool) : State φ :=
  ⟨bs, ended, true, [], [], [], some .head, .idle, []⟩

def readHead (s : State φ) : State φ := { s with headBuf := [], reading := some .head }

def readContent (s : State φ) : State φ := { s with content := [], reading := some .content }

def disconnect (s : State φ) : State φ := { s with isOpen := false, stream := [] }

section Handlers
variable (L : Loop φ)

def handleError (s : State φ) : State φ :=
  let t := { s with events := s.events ++ [.error] }
  if L.closes then disconnect t else t

def headHandler (s : State φ) (ec : Bool) : State φ :=
  if !s.isOpen then handleError L s
  else if ec then handleError L s
  else readContent { s with head := s.headBuf }

def deliver (s : State φ) (ec : Bool) : State φ :=
  if !s.isOpen then handleError L s
  else if ec then handleError L s
  else { s with events := s.events ++ [.frame (L.decode s.head s.content)] }

def size (s : State φ) : Read → ℕ
  | .head => L.headLen
  | .content => L.contentLen s.head

def State.buffer (s : State φ) : Read → Bytes
  | .head => s.headBuf
  | .content => s.content

def handler (s : State φ) (r : Read) (ec : Bool) : State φ :=
  match r with
  | .head => headHandler L { s with reading := none } ec
  | .content => { readHead s with pc := .rearmed ec }

def transfer (s : State φ) (r : Read) (k : ℕ) : State φ :=
  match r with
  | .head => { s with headBuf := s.headBuf ++ s.stream.take k, stream := s.stream.drop k }
  | .content => { s with content := s.content ++ s.stream.take k, stream := s.stream.drop k }

inductive Action
  | transfer (k : ℕ)
  | complete
  | resume
  | disconnect
  deriving DecidableEq, Repr

/-- A read ends when its buffer is full, and fails when nothing can fill it any more. The
socket may be closed by another thread, as the server does when a request is invalid. -/
def step (s : State φ) : Action → Option (State φ)
  | .transfer k =>
    match s.reading with
    | some r =>
      if s.isOpen = true ∧ 0 < k ∧ k ≤ s.stream.length ∧ (s.buffer r).length + k ≤ size L s r then
        some (transfer s r k)
      else none
    | none => none
  | .complete =>
    match s.reading, s.pc with
    | some r, .idle =>
      -- a full buffer is handed over even if the socket has been closed since
      if size L s r ≤ (s.buffer r).length then some (handler L s r false)
      else if s.isOpen = false ∨ s.ended = true ∧ s.stream = [] then some (handler L s r true)
      else none
    | _, _ => none
  | .resume =>
    match s.pc with
    | .rearmed ec => some (deliver L { s with pc := .idle } ec)
    | .idle => none
  | .disconnect => if s.isOpen then some (disconnect s) else none

inductive Effect (s : State φ) : Action → State φ → Prop
  | transfer {r : Read} {k : ℕ} (hr : s.reading = some r) (ho : s.isOpen = true) (hk : 0 < k)
      (hs : k ≤ s.stream.length) (hl : (s.buffer r).length + k ≤ size L s r) :
      Effect s (.transfer k) (transfer s r k)
  | headDone (hr : s.reading = some .head) (hp : s.pc = .idle) (ho : s.isOpen = true)
      (hl : L.headLen ≤ s.headBuf.length) :
      Effect s .complete (readContent { s with head := s.headBuf, reading := none })
  | headFailed (hr : s.reading = some .head) (hp : s.pc = .idle)
      (hf : s.isOpen = false ∨ s.headBuf.length < L.headLen ∧ s.ended = true ∧ s.stream = []) :
      Effect s .complete (handleError L { s with reading := none })
  | contentDone (hr : s.reading = some .content) (hp : s.pc = .idle)
      (hl : L.contentLen s.head ≤ s.content.length) :
      Effect s .complete { readHead s with pc := .rearmed false }
  | contentFailed (hr : s.reading = some .content) (hp : s.pc = .idle)
      (hl : s.content.length < L.contentLen s.head)
      (hf : s.isOpen = false ∨ s.ended = true ∧ s.stream = []) :
      Effect s .complete { readHead s with pc := .rearmed true }
  | delivered (hp : s.pc = .rearmed false) (ho : s.isOpen = true) :
      Effect s .resume { s with
        pc := .idle
        events := s.events ++ [.frame (L.decode s.head s.content)] }
  | failed {ec : Bool} (hp : s.pc = .rearmed ec) (hf : s.isOpen = false ∨ ec = true) :
      Effect s .resume (handleError L { s with pc := .idle })
  | disconnect (ho : s.isOpen = true) : Effect s .disconnect (disconnect s)

variable {L}

theorem complete_effect {s t : State φ} (h : step L s .complete = some t) :
    Effect L s .complete t := by
  simp only [step] at h
  split at h
  · rename_i r hr hp
    split_ifs at h with hl hf
    · obtain rfl := Option.some.inj h
      cases r with
      | head =>
        cases ho : s.isOpen with
        | true =>
          have he := Effect.headDone (L := L) hr hp ho hl
          simpa [handler, headHandler, ho] using he
        | false =>
          have he := Effect.headFailed (L := L) hr hp (Or.inl ho)
          simpa [handler, headHandler, ho] using he
      | content => exact .contentDone hr hp hl
    · obtain rfl := Option.some.inj h
      cases r with
      | head =>
        have hlt : s.headBuf.length < L.headLen := Nat.lt_of_not_le hl
        have he := Effect.headFailed (L := L) hr hp (hf.imp_right fun h => ⟨hlt, h⟩)
        simpa [handler, headHandler] using he
      | content => exact .contentFailed hr hp (Nat.lt_of_not_le hl) hf
  · cases h

theorem step_effect {s t : State φ} {a : Action} (h : step L s a = some t) : Effect L s a t := by
  cases a with
  | transfer k =>
    simp only [step] at h
    split at h
    · rename_i r hr
      split_ifs at h with hc
      obtain rfl := Option.some.inj h
      obtain ⟨ho, hk, hs, hl⟩ := hc
      exact .transfer hr ho hk hs hl
    · cases h
  | complete => exact complete_effect h
  | resume =>
    simp only [step] at h
    split at h
    · rename_i ec hp
      obtain rfl := Option.some.inj h
      cases ho : s.isOpen with
      | true =>
        cases ec with
        | true =>
          have he := Effect.failed (L := L) hp (Or.inr rfl)
          simpa [deliver, ho] using he
        | false =>
          have he := Effect.delivered (L := L) hp ho
          simpa [deliver, ho] using he
      | false =>
        have he := Effect.failed (L := L) hp (Or.inl ho)
        simpa [deliver, ho] using he
    · cases h
  | disconnect =>
    simp only [step] at h
    split_ifs at h with ho
    obtain rfl := Option.some.inj h
    exact .disconnect ho

@[simp] theorem handleError_events (s : State φ) :
    (handleError L s).events = s.events ++ [.error] := by
  unfold handleError
  split <;> rfl

@[simp] theorem handleError_reading (s : State φ) : (handleError L s).reading = s.reading := by
  unfold handleError
  split <;> rfl

@[simp] theorem handleError_pc (s : State φ) : (handleError L s).pc = s.pc := by
  unfold handleError
  split <;> rfl

@[simp] theorem handleError_headBuf (s : State φ) : (handleError L s).headBuf = s.headBuf := by
  unfold handleError
  split <;> rfl

@[simp] theorem handleError_ended (s : State φ) : (handleError L s).ended = s.ended := by
  unfold handleError
  split <;> rfl

theorem handleError_isOpen (s : State φ) (h : s.isOpen = false) :
    (handleError L s).isOpen = false := by
  unfold handleError
  split
  · rfl
  · exact h

def handlersLeft (s : State φ) : ℕ :=
  match s.reading, s.pc with
  | some .head, .idle => 8 * s.headBuf.length + 1
  | some .head, .rearmed _ => 8 * s.headBuf.length + 2
  | some .content, .idle => 3
  | some .content, .rearmed _ => 4
  | none, .idle => 0
  | none, .rearmed _ => 1

/-- What is left to do: a byte to read counts for more than a byte in the head buffer,
and that for more than all the handlers of a frame. -/
def work (s : State φ) : ℕ :=
  9 * s.stream.length + (if s.isOpen then 1 else 0) + handlersLeft s

theorem work_start (bs : Bytes) (ended : Bool) : work (start bs ended : State φ) = 9 * bs.length + 2 :=
  rfl

theorem work_disconnect (s : State φ) : work (disconnect s) = handlersLeft s := by
  change 9 * 0 + 0 + handlersLeft s = handlersLeft s
  omega

theorem work_handleError (s : State φ) : work (handleError L s) ≤ work s := by
  unfold handleError
  split
  · rw [work_disconnect]
    exact Nat.le_add_left _ _
  · exact Nat.le_refl _

theorem step_work {s t : State φ} {a : Action} (h : step L s a = some t) : work t < work s := by
  have hpos := L.headLen_pos
  cases step_effect h with
  | @transfer r k hr ho hk hs hl =>
    cases r with
    | head =>
      cases hp : s.pc <;> simp [work, handlersLeft, transfer, hr, hp] <;> omega
    | content =>
      cases hp : s.pc <;> simp [work, handlersLeft, transfer, hr, hp] <;> omega
  | headDone hr hp ho hl =>
    simp [work, handlersLeft, readContent, hr, hp]
    omega
  | headFailed hr hp hf =>
    refine Nat.lt_of_le_of_lt (work_handleError _) ?_
    simp [work, handlersLeft, hr, hp]
  | contentDone hr hp hl => simp [work, handlersLeft, readHead, hr, hp]
  | contentFailed hr hp hl hf => simp [work, handlersLeft, readHead, hr, hp]
  | delivered hp ho =>
    cases hr : s.reading with
    | none => simp [work, handlersLeft, hr, hp]
    | some r => cases r <;> simp [work, handlersLeft, hr, hp]
  | failed hp hf =>
    refine Nat.lt_of_le_of_lt (work_handleError _) ?_
    cases hr : s.reading with
    | none => simp [work, handlersLeft, hr, hp]
    | some r => cases r <;> simp [work, handlersLeft, hr, hp]
  | disconnect ho =>
    rw [work_disconnect, work, if_pos ho]
    omega

theorem step_ended {s t : State φ} {a : Action} (h : step L s a = some t) : t.ended = s.ended := by
  cases step_effect h with
  | @transfer r k hr ho hk hs hl => cases r <;> rfl
  | headFailed hr hp hf => exact handleError_ended _
  | failed hp hf => exact handleError_ended _
  | headDone | contentDone | contentFailed | delivered | disconnect => rfl

end Handlers

end Czrpc.ReadLoop
