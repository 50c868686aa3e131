import Mathlib.Data.List.Basic
import Mathlib.Tactic.Common

/-! The send queue of `async_write_impl`, in `client_base` and in `connection`: any thread
posts a closure for its buffer to the io thread; the closure appends the buffer and
starts a write if the queue was empty; the handler of a write starts the next. -/
namespace Czrpc.SendQueue
variable {β : Type*}

/-- `posted` holds the buffers of posted closures that have not run, `queue` is
`send_queue_`, and `writing` lists the buffers of the `async_write` operations
whose handlers have not run. -/
structure State (β : Type*) where
  posted : List β
  queue : List β
  writing : List β
  deriving DecidableEq, Repr

def initial : State β := ⟨[], [], []⟩

/-- `async_write_impl(buffer)` on a calling thread. -/
def post (s : State β) (buffer : β) : State β := { s with posted := s.posted ++ [buffer] }

/-- `async_write_impl()`: write the front of the queue. It is called on a
non-empty queue only. -/
def asyncWriteImpl (s : State β) : State β :=
  match s.queue with
  | [] => s
  | buffer :: _ => { s with writing := s.writing ++ [buffer] }

def runPosted (s : State β) : Option (State β) :=
  match s.posted with
  | [] => none
  | buffer :: rest =>
      let t := { s with posted := rest, queue := s.queue ++ [buffer] }
      some (if s.queue.isEmpty then asyncWriteImpl t else t)

def startNext (s : State β) : State β := if s.queue.isEmpty then s else asyncWriteImpl s

/-- The handler of a write, with the error flag it gets and `is_resend_`. -/
def writeHandler (s : State β) (isResend ec : Bool) : State β :=
  if !ec then startNext { s with queue := s.queue.tail }
  else if isResend then startNext s
  else { s with queue := [] }

/-- The handler of a write of `connection`, which has no resend. -/
def connectionWriteHandler (s : State β) (ec : Bool) : State β :=
  if !ec then startNext { s with queue := s.queue.tail }
  else { s with queue := [] }

def complete (s : State β) (isResend : Bool) (i : ℕ) (ec : Bool) : Option (State β) :=
  if i < s.writing.length then
    some (writeHandler { s with writing := s.writing.eraseIdx i } isResend ec)
  else none

def State.waiting (s : State β) : List β := s.queue ++ s.posted

structure State.All (p : β → Prop) (s : State β) : Prop where
  posted : ∀ buffer ∈ s.posted, p buffer
  queue : ∀ buffer ∈ s.queue, p buffer
  writing : ∀ buffer ∈ s.writing, p buffer

@[simp] theorem asyncWriteImpl_posted (s : State β) : (asyncWriteImpl s).posted = s.posted := by
  unfold asyncWriteImpl
  split <;> rfl

@[simp] theorem asyncWriteImpl_queue (s : State β) : (asyncWriteImpl s).queue = s.queue := by
  unfold asyncWriteImpl
  split <;> rfl

@[simp] theorem startNext_posted (s : State β) : (startNext s).posted = s.posted := by
  unfold startNext
  split <;> simp

@[simp] theorem startNext_queue (s : State β) : (startNext s).queue = s.queue := by
  unfold startNext
  split <;> simp

theorem all_post {p : β → Prop} {s : State β} (hs : s.All p) {buffer : β} (hp : p buffer) :
    (post s buffer).All p :=
  { hs with posted := List.forall_mem_append.mpr ⟨hs.posted, List.forall_mem_singleton.mpr hp⟩ }

theorem all_asyncWriteImpl {p : β → Prop} {s : State β} (hs : s.All p) : (asyncWriteImpl s).All p := by
  unfold asyncWriteImpl
  split
  · exact hs
  · rename_i buffer rest hq
    have hp : p buffer := hs.queue buffer (by rw [hq]; exact List.mem_cons_self)
    have hwriting : ∀ b ∈ s.writing ++ [buffer], p b :=
      List.forall_mem_append.mpr ⟨hs.writing, List.forall_mem_singleton.mpr hp⟩
    exact { hs with writing := hwriting }

theorem all_startNext {p : β → Prop} {s : State β} (hs : s.All p) : (startNext s).All p := by
  unfold startNext
  split
  · exact hs
  · exact all_asyncWriteImpl hs

theorem all_runPosted {p : β → Prop} {s t : State β} (hs : s.All p) (h : runPosted s = some t) :
    t.All p := by
  unfold runPosted at h
  split at h
  · cases h
  · rename_i buffer rest hposted
    have hall : ∀ b ∈ buffer :: rest, p b := hposted ▸ hs.posted
    have hqueue : ∀ b ∈ s.queue ++ [buffer], p b :=
      List.forall_mem_append.mpr ⟨hs.queue, List.forall_mem_singleton.mpr (hall _ List.mem_cons_self)⟩
    have hmoved : State.All p { s with posted := rest, queue := s.queue ++ [buffer] } :=
      ⟨fun b hb => hall b (List.mem_cons_of_mem _ hb), hqueue, hs.writing⟩
    obtain rfl := Option.some.inj h
    split
    · exact all_asyncWriteImpl hmoved
    · exact hmoved

theorem all_complete {p : β → Prop} {s t : State β} (hs : s.All p) {isResend ec : Bool} {i : ℕ}
    (h : complete s isResend i ec = some t) : t.All p := by
  unfold complete at h
  split_ifs at h
  obtain rfl := Option.some.inj h
  have herased : State.All p { s with writing := s.writing.eraseIdx i } :=
    { hs with writing := fun b hb => hs.writing b (List.mem_of_mem_eraseIdx hb) }
  unfold writeHandler
  split_ifs
  · exact all_startNext { herased with queue := fun b hb => hs.queue b (List.mem_of_mem_tail hb) }
  · exact all_startNext herased
  · exact { herased with queue := fun b hb => absurd hb List.not_mem_nil }

@[simp] theorem waiting_post (s : State β) (buffer : β) :
    (post s buffer).waiting = s.waiting ++ [buffer] := by
  simp [State.waiting, post]

theorem waiting_runPosted {s t : State β} (h : runPosted s = some t) : t.waiting = s.waiting := by
  unfold runPosted at h
  split at h
  · cases h
  · rename_i buffer rest hp
    simp only [Option.some.injEq] at h
    subst t
    split <;> simp [State.waiting, hp]

theorem runPosted_queue {s t : State β} (h : runPosted s = some t) :
    t.queue = s.queue ++ s.posted.take 1 := by
  unfold runPosted at h
  split at h
  · cases h
  · rename_i buffer rest hp
    simp only [Option.some.injEq] at h
    subst t
    split <;> simp [hp]

theorem writeHandler_posted (s : State β) (isResend ec : Bool) :
    (writeHandler s isResend ec).posted = s.posted := by
  unfold writeHandler
  split_ifs <;> simp

theorem writeHandler_queue_suffix (s : State β) (isResend ec : Bool) :
    (writeHandler s isResend ec).queue <:+ s.queue := by
  unfold writeHandler
  split_ifs <;> simp [List.tail_suffix]

theorem waiting_complete {s t : State β} {isResend ec : Bool} {i : ℕ}
    (h : complete s isResend i ec = some t) : t.waiting <:+ s.waiting := by
  unfold complete at h
  split_ifs at h
  simp only [Option.some.injEq] at h
  subst t
  obtain ⟨dropped, hd⟩ := writeHandler_queue_suffix
    { s with writing := s.writing.eraseIdx i } isResend ec
  refine ⟨dropped, ?_⟩
  rw [State.waiting, State.waiting, writeHandler_posted, ← List.append_assoc, hd]

/-- With resend off there is a write in flight exactly while the queue holds
something, and it is for the front of the queue. -/
def Disciplined (s : State β) : Prop := s.writing = s.queue.take 1

theorem disciplined_runPosted {s t : State β} (hs : Disciplined s) (h : runPosted s = some t) :
    Disciplined t := by
  unfold Disciplined at hs ⊢
  unfold runPosted at h
  split at h
  · cases h
  · simp only [Option.some.injEq] at h
    subst t
    cases hq : s.queue <;> simp [asyncWriteImpl, hs, hq]

theorem disciplined_startNext {s : State β} (hs : s.writing = []) : Disciplined (startNext s) := by
  unfold Disciplined startNext asyncWriteImpl
  cases hq : s.queue <;> simp [hs, hq]

theorem complete_ok {s t : State β} (hs : Disciplined s) {isResend : Bool} {i : ℕ}
    (h : complete s isResend i false = some t) : Disciplined t ∧ t.posted = s.posted ∧
      ∃ buffer, s.writing[i]? = some buffer ∧ s.queue = buffer :: t.queue := by
  unfold Disciplined at hs
  unfold complete at h
  split_ifs at h with hi
  simp only [Option.some.injEq] at h
  subst t
  cases hq : s.queue with
  | nil => simp [hs, hq] at hi
  | cons buffer rest =>
    have hw : s.writing = [buffer] := by simp [hs, hq]
    obtain rfl : i = 0 := by simpa [hw] using hi
    exact ⟨disciplined_startNext (by simp [hw]), writeHandler_posted _ _ _, buffer, by simp [hw],
      by simp [writeHandler]⟩

theorem complete_resent {s t : State β} (hs : Disciplined s) {i : ℕ}
    (h : complete s true i true = some t) : t = s := by
  unfold Disciplined at hs
  unfold complete at h
  split_ifs at h with hi
  simp only [Option.some.injEq] at h
  subst t
  obtain ⟨posted, queue, writing⟩ := s
  cases queue with
  | nil => simp_all
  | cons buffer rest =>
    obtain rfl : writing = [buffer] := hs
    obtain rfl : i = 0 := by simpa using hi
    rfl

theorem complete_failed {s t : State β} (hs : Disciplined s) {i : ℕ}
    (h : complete s false i true = some t) :
    Disciplined t ∧ t.posted = s.posted ∧ t.queue = [] := by
  unfold Disciplined at hs
  unfold complete at h
  split_ifs at h with hi
  simp only [Option.some.injEq] at h
  subst t
  have hw : s.writing.length ≤ 1 := by
    rw [hs]
    exact List.length_take_le 1 _
  refine ⟨?_, writeHandler_posted _ _ _, rfl⟩
  have : s.writing.eraseIdx i = [] := by
    apply List.eq_nil_of_length_eq_zero
    rw [List.length_eraseIdx_of_lt hi]
    omega
  simpa [Disciplined, writeHandler] using this

end Czrpc.SendQueue
