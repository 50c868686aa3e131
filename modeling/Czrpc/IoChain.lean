import Czrpc.Execution

/-! The chain of asynchronous operations on a client's socket. `async_rpc_client`
and `sub_client` have the same `async_read_head`, `async_read_content`,
`reconnect`, `start` and `handle_error`; they differ in what they do with a
complete frame and at the start of a connection, which is reported here as an
event. The client is not stopped, so the test of `is_stoped_` never returns.

Of boost::asio it is assumed that every initiated operation runs its handler
once, that handlers run one at a time, and that closing the socket makes the
pending operations complete with an error. -/
namespace Czrpc.IoChain

inductive ReadKind
  | head
  | content
  deriving DecidableEq, Repr

/-- An `async_read` whose handler has not run. Once it is aborted it can only
complete with an error. -/
structure ReadOp where
  kind : ReadKind
  aborted : Bool
  deriving DecidableEq, Repr

/-- The socket and the operations initiated on it whose handlers have not run. An
entry of `connects` is one `async_connect`, and tells whether it is aborted. -/
structure State where
  isOpen : Bool
  isConnected : Bool
  reads : List ReadOp
  connects : List Bool
  deriving DecidableEq, Repr

inductive ConnectResult
  | ok
  | alreadyConnected
  | failed
  deriving DecidableEq, Repr

/-- The io thread runs the handler of an outstanding operation. A content read
that succeeds has filled the buffer with a frame. -/
inductive Completion (φ : Type*)
  | head (i : ℕ) (ec : Bool)
  | content (i : ℕ) (ec : Bool) (frame : φ)
  | connect (i : ℕ) (result : ConnectResult)
  deriving DecidableEq, Repr

inductive Event (φ : Type*)
  | none
  | frame (x : φ)
  | started
  deriving DecidableEq, Repr

def asyncRead (s : State) (kind : ReadKind) : State :=
  { s with reads := s.reads ++ [⟨kind, !s.isOpen⟩] }

def asyncReadHead (s : State) : State := asyncRead s .head

def asyncReadContent (s : State) : State := asyncRead s .content

def closeSocket (s : State) : State :=
  { s with
    isOpen := false
    reads := s.reads.map fun op => { op with aborted := true }
    connects := s.connects.map fun _ => true }

def disconnect (s : State) : State :=
  if s.isOpen then closeSocket { s with isConnected := false } else { s with isConnected := false }

/-- `async_connect` over the endpoint iterator closes the socket and opens it
for the first endpoint. -/
def reconnect (s : State) : State :=
  { closeSocket s with isOpen := true, connects := (closeSocket s).connects ++ [false] }

def handleError (s : State) : State := reconnect (disconnect s)

def headHandler (s : State) (ec : Bool) : State :=
  if !s.isOpen then handleError s
  else if ec then handleError s
  else asyncReadContent s

/-- The content handler re-arms the head read before it looks at the error. -/
def contentHandler {φ : Type*} (s : State) (ec : Bool) (frame : φ) : State × Event φ :=
  if !(asyncReadHead s).isOpen then (handleError (asyncReadHead s), .none)
  else if ec then (handleError (asyncReadHead s), .none)
  else (asyncReadHead s, .frame frame)

def connectHandler {φ : Type*} (s : State) : ConnectResult → State × Event φ
  | .ok => (asyncReadHead s, .started)
  | .alreadyConnected => (s, .none)
  | .failed => (reconnect s, .none)

def step {φ : Type*} (s : State) : Completion φ → Option (State × Event φ)
  | .head i ec =>
    match s.reads[i]? with
    | some ⟨.head, aborted⟩ =>
      if aborted && !ec then none
      else some (headHandler { s with reads := s.reads.eraseIdx i } ec, .none)
    | _ => none
  | .content i ec frame =>
    match s.reads[i]? with
    | some ⟨.content, aborted⟩ =>
      if aborted && !ec then none
      else some (contentHandler { s with reads := s.reads.eraseIdx i } ec frame)
    | _ => none
  | .connect i result =>
    match s.connects[i]? with
    | some aborted =>
      if aborted && result = .ok then none
      else some (connectHandler { s with connects := s.connects.eraseIdx i } result)
    | none => none

def initial : State := ⟨false, false, [], []⟩

def connected : State := ⟨true, true, [⟨.head, false⟩], []⟩

/-- No two reads and no two connects are outstanding. -/
def Single (s : State) : Prop := s.reads.length ≤ 1 ∧ s.connects.length ≤ 1

def ContentOk {φ : Type*} : Completion φ → Prop
  | .content _ ec _ => ec = false
  | _ => True

instance {φ : Type*} : (c : Completion φ) → Decidable (ContentOk c)
  | .head _ _ => .isTrue trivial
  | .content _ ec _ => inferInstanceAs (Decidable (ec = false))
  | .connect _ _ => .isTrue trivial

def inFlight (s : State) : ℕ := s.reads.length + s.connects.length

@[simp] theorem asyncRead_inFlight (s : State) (kind : ReadKind) :
    inFlight (asyncRead s kind) = inFlight s + 1 := by
  simp only [inFlight, asyncRead, List.length_append, List.length_singleton]
  omega

@[simp] theorem reconnect_inFlight (s : State) : inFlight (reconnect s) = inFlight s + 1 := by
  simp only [inFlight, reconnect, closeSocket, List.length_append, List.length_singleton,
    List.length_map]
  omega

@[simp] theorem disconnect_inFlight (s : State) : inFlight (disconnect s) = inFlight s := by
  unfold disconnect
  split <;> simp [inFlight, closeSocket]

@[simp] theorem handleError_inFlight (s : State) : inFlight (handleError s) = inFlight s + 1 := by
  simp [handleError]

theorem headHandler_inFlight (s : State) (ec : Bool) :
    inFlight (headHandler s ec) = inFlight s + 1 := by
  unfold headHandler asyncReadContent
  split_ifs <;> simp

theorem contentHandler_inFlight {φ : Type*} (s : State) (ec : Bool) (frame : φ) :
    inFlight (contentHandler s ec frame).1 =
      inFlight s + if s.isOpen = true ∧ ec = false then 1 else 2 := by
  unfold contentHandler asyncReadHead
  cases ho : s.isOpen <;> cases ec <;> simp [asyncRead, ho] <;> simp [inFlight] <;> omega

theorem connectHandler_inFlight {φ : Type*} (s : State) (result : ConnectResult) :
    inFlight (@connectHandler φ s result).1 ≤ inFlight s + 1 := by
  cases result <;> simp [connectHandler, asyncReadHead]

/-- What a completion can do: it takes an operation out of flight and runs the
handler of that operation. An aborted one has completed with an error. -/
theorem step_cases {φ : Type*} {s t : State} {c : Completion φ} {e : Event φ}
    (h : step s c = some (t, e)) :
    (∃ i ec, ∃ op : ReadOp, c = .head i ec ∧ s.reads[i]? = some op ∧ op.kind = .head ∧
      (op.aborted = true → ec = true) ∧
      t = headHandler { s with reads := s.reads.eraseIdx i } ec ∧ e = .none) ∨
    (∃ i ec frame, ∃ op : ReadOp, c = .content i ec frame ∧ s.reads[i]? = some op ∧
      op.kind = .content ∧ (op.aborted = true → ec = true) ∧
      (t, e) = contentHandler { s with reads := s.reads.eraseIdx i } ec frame) ∨
    (∃ i result, ∃ aborted : Bool, c = .connect i result ∧ s.connects[i]? = some aborted ∧
      (aborted = true → result ≠ .ok) ∧
      (t, e) = connectHandler { s with connects := s.connects.eraseIdx i } result) := by
  cases c with
  | head i ec =>
    simp only [step] at h
    split at h
    · rename_i aborted hr
      split_ifs at h with ha
      simp only [Option.some.injEq, Prod.mk.injEq] at h
      exact Or.inl ⟨i, ec, _, rfl, hr, rfl, by simpa using ha, h.1.symm, h.2.symm⟩
    · cases h
  | content i ec frame =>
    simp only [step] at h
    split at h
    · rename_i aborted hr
      split_ifs at h with ha
      simp only [Option.some.injEq] at h
      exact Or.inr (Or.inl ⟨i, ec, frame, _, rfl, hr, rfl, by simpa using ha, h.symm⟩)
    · cases h
  | connect i result =>
    simp only [step] at h
    split at h
    · rename_i aborted hr
      split_ifs at h with ha
      simp only [Option.some.injEq] at h
      exact Or.inr (Or.inr ⟨i, result, aborted, rfl, hr, by simpa using ha, h.symm⟩)
    · cases h

theorem content_of_frame {φ : Type*} {s t : State} {c : Completion φ} {frame : φ}
    (h : step s c = some (t, .frame frame)) : ∃ i, c = .content i false frame := by
  obtain ⟨i, ec, op, -, -, -, -, -, he⟩ | ⟨i, ec, frame', op, rfl, -, -, -, he⟩ |
    ⟨i, result, aborted, -, -, -, he⟩ := step_cases h
  · cases he
  · unfold contentHandler at he
    split_ifs at he with hopen hec
    · cases he
    · cases he
    · obtain ⟨-, he⟩ := Prod.mk.inj he
      obtain rfl := Event.frame.inj he
      exact ⟨i, by simp [hec]⟩
  · cases result <;> cases he

theorem inFlight_erase_read {s : State} {i : ℕ} {op : ReadOp} (h : s.reads[i]? = some op) :
    inFlight { s with reads := s.reads.eraseIdx i } + 1 = inFlight s := by
  have hi : i < s.reads.length := (List.getElem?_eq_some_iff.mp h).1
  simp only [inFlight, List.length_eraseIdx_of_lt hi]
  omega

theorem inFlight_erase_connect {s : State} {i : ℕ} {aborted : Bool}
    (h : s.connects[i]? = some aborted) :
    inFlight { s with connects := s.connects.eraseIdx i } + 1 = inFlight s := by
  have hi : i < s.connects.length := (List.getElem?_eq_some_iff.mp h).1
  simp only [inFlight, List.length_eraseIdx_of_lt hi]
  omega

theorem headHandler_isOpen (s : State) (ec : Bool) : (headHandler s ec).isOpen = true := by
  unfold headHandler
  cases ho : s.isOpen <;> cases ec <;> simp [handleError, reconnect, asyncReadContent, asyncRead, ho]

theorem contentHandler_isOpen {φ : Type*} (s : State) (ec : Bool) (frame : φ) :
    (contentHandler s ec frame).1.isOpen = true := by
  unfold contentHandler
  cases ho : s.isOpen <;> cases ec <;> simp [handleError, reconnect, asyncReadHead, asyncRead, ho]

theorem connectHandler_isOpen {φ : Type*} (s : State) (result : ConnectResult)
    (h : s.isOpen = true) : (@connectHandler φ s result).1.isOpen = true := by
  cases result <;> simp [connectHandler, asyncReadHead, asyncRead, reconnect, h]

/-- What the chain keeps as long as no content read fails. -/
structure Inv (s : State) : Prop where
  one : inFlight s ≤ 1
  isOpen : inFlight s = 1 → s.isOpen = true

theorem initial_inv : Inv initial := ⟨by decide, by decide⟩

theorem connected_inv : Inv connected := ⟨by decide, by decide⟩

theorem Inv.single {s : State} (h : Inv s) : Single s := by
  have := h.one
  unfold inFlight at this
  exact ⟨by omega, by omega⟩

theorem step_inv {φ : Type*} {s t : State} {c : Completion φ} {e : Event φ} (hs : Inv s)
    (hok : ContentOk c) (h : step s c = some (t, e)) : Inv t := by
  have hone := hs.one
  obtain ⟨i, ec, op, rfl, hr, -, -, rfl, -⟩ | ⟨i, ec, frame, op, rfl, hr, -, -, ht⟩ |
    ⟨i, result, aborted, rfl, hr, -, ht⟩ := step_cases h
  · have he := inFlight_erase_read hr
    refine ⟨?_, fun _ => headHandler_isOpen _ _⟩
    rw [headHandler_inFlight]
    omega
  · obtain rfl : ec = false := hok
    have he := inFlight_erase_read hr
    have ht' := congrArg Prod.fst ht
    simp only at ht'
    subst t
    refine ⟨?_, fun _ => contentHandler_isOpen _ _ _⟩
    rw [contentHandler_inFlight, if_pos ⟨hs.isOpen (by omega), rfl⟩]
    omega
  · have he := inFlight_erase_connect hr
    have ht' := congrArg Prod.fst ht
    simp only at ht'
    subst t
    refine ⟨?_, fun _ => connectHandler_isOpen _ _ (hs.isOpen (by omega))⟩
    have hc := @connectHandler_inFlight φ { s with connects := s.connects.eraseIdx i } result
    omega

/-- What an action of a client can do to its chain: it runs the handler of a completion
that is `ok`, starts the chain at `run()`, or leaves the operations alone. -/
inductive Moves {φ : Type*} (ok : Completion φ → Prop) (s : State) : State → Prop
  | completed {c : Completion φ} {t : State} {event : Event φ} (hok : ok c)
      (h : step s c = some (t, event)) : Moves ok s t
  | started : Moves ok s connected
  | kept (isConnected : Bool) : Moves ok s { s with isConnected := isConnected }

theorem Moves.inv {φ : Type*} {s t : State} (h : Moves (φ := φ) ContentOk s t) (hs : Inv s) : Inv t := by
  cases h with
  | completed hok h => exact step_inv hs hok h
  | started => exact connected_inv
  | kept isConnected => exact ⟨hs.one, hs.isOpen⟩

/-- A content read that fails while it is the operation in flight leaves an
aborted head read beside the new connect; the handler of that read initiates a
second connect over the first. -/
theorem content_failure_overlaps {φ : Type*} {s : State} {aborted : Bool} (hs : Inv s)
    (hr : s.reads = [⟨.content, aborted⟩]) (frame : φ) :
    ∃ t u, step s (.content 0 true frame) = some (t, .none) ∧
      step t (.head 0 true : Completion φ) = some (u, .none) ∧ u.connects.length = 2 := by
  have hone := hs.one
  have hpos : 1 ≤ inFlight s := by simp [inFlight, hr]
  have hopen : s.isOpen = true := hs.isOpen (by omega)
  obtain ⟨isOpen, isConnected, reads, connects⟩ := s
  simp only at hr hopen
  subst hr hopen
  have hc : connects = [] := by
    apply List.eq_nil_of_length_eq_zero
    simp only [inFlight, List.length_singleton] at hone
    omega
  subst hc
  exact ⟨⟨true, false, [⟨.head, true⟩], [false]⟩, ⟨true, false, [], [true, false]⟩,
    by cases aborted <;> rfl, rfl, rfl⟩

end Czrpc.IoChain
