import Czrpc.AsyncClient
import Czrpc.Subscriptions

/-! The client `sub_client` as a whole: users on any thread, `run`, and the io
thread with its read and connect chain and its send queue. -/
namespace Czrpc.SubClient
open Execution Framing Protocol Subscriptions

/-- `inProgress` holds the calls that have written their request and not yet
changed the router. `retry_subscribe` runs on the thread of `run` once and on the
io thread at every later start. `pushes` are the tasks given to the pool. -/
structure State (F G : Type*) where
  chain : IoChain.State
  router : SubRouter F G
  inProgress : List (Op F G)
  send : SendQueue.State RequestContent
  runRetry : Retry
  ioRetry : Retry
  pushes : List PushContent
  deriving DecidableEq

variable {F G : Type*}

def initial : State F G :=
  ⟨IoChain.initial, .empty, [], SendQueue.initial, .idle, .idle, []⟩

inductive Action (F G : Type*)
  | run
  | call (op : Op F G)
  | update (j : ℕ)
  | runRetry
  | ioRetry
  | complete (c : IoChain.Completion PushContent)
  | runPosted
  | writeDone (i : ℕ) (ec : Bool)

def handleEvent (s : State F G) : IoChain.Event PushContent → State F G
  | .none => s
  | .frame content => { s with pushes := s.pushes ++ [content] }
  | .started => { s with ioRetry := .begun }

/-- The io thread runs a handler only when it is not inside `start`. -/
def step (isResend : Bool) (s : State F G) : Action F G → Option (State F G)
  | .run =>
    if s.chain = IoChain.initial then
      some { s with chain := IoChain.connected, runRetry := .begun }
    else none
  | .call op =>
    some { s with send := SendQueue.post s.send op.request, inProgress := s.inProgress ++ [op] }
  | .update j =>
    match s.inProgress[j]? with
    | some op => some { s with router := op.update s.router, inProgress := s.inProgress.eraseIdx j }
    | none => none
  | .runRetry =>
    (retryStep s.router s.send s.runRetry).map fun r => { s with send := r.1, runRetry := r.2 }
  | .ioRetry =>
    (retryStep s.router s.send s.ioRetry).map fun r => { s with send := r.1, ioRetry := r.2 }
  | .complete c =>
    if s.ioRetry = .idle then
      (IoChain.step s.chain c).map fun r => handleEvent { s with chain := r.1 } r.2
    else none
  | .runPosted =>
    if s.ioRetry = .idle then
      (SendQueue.runPosted s.send).map fun send => { s with send := send }
    else none
  | .writeDone i ec =>
    if s.ioRetry = .idle then
      (SendQueue.complete s.send isResend i ec).map fun send =>
        { s with
          send := send
          chain := { s.chain with isConnected := s.chain.isConnected && !ec } }
    else none

/-- No content read ends with an error. -/
def ContentOk (_ : State F G) : Action F G → Prop
  | .complete c => IoChain.ContentOk c
  | _ => True

instance (s : State F G) : (a : Action F G) → Decidable (ContentOk s a)
  | .complete c => inferInstanceAs (Decidable (IoChain.ContentOk c))
  | .run | .call _ | .update _ | .runRetry | .ioRetry | .runPosted | .writeDone _ _ =>
    .isTrue trivial

inductive Effect (isResend : Bool) (s : State F G) : Action F G → State F G → Prop
  | run : Effect isResend s .run { s with chain := IoChain.connected, runRetry := .begun }
  | call {op : Op F G} : Effect isResend s (.call op)
      { s with send := SendQueue.post s.send op.request, inProgress := s.inProgress ++ [op] }
  | update {j : ℕ} {op : Op F G} (hop : s.inProgress[j]? = some op) : Effect isResend s (.update j)
      { s with router := op.update s.router, inProgress := s.inProgress.eraseIdx j }
  | runRetry {send : SendQueue.State RequestContent} {retry : Retry}
      (hr : retryStep s.router s.send s.runRetry = some (send, retry)) :
      Effect isResend s .runRetry { s with send := send, runRetry := retry }
  | ioRetry {send : SendQueue.State RequestContent} {retry : Retry}
      (hr : retryStep s.router s.send s.ioRetry = some (send, retry)) :
      Effect isResend s .ioRetry { s with send := send, ioRetry := retry }
  | complete {c : IoChain.Completion PushContent} {chain : IoChain.State}
      {event : IoChain.Event PushContent} (hc : IoChain.step s.chain c = some (chain, event)) :
      Effect isResend s (.complete c) (handleEvent { s with chain := chain } event)
  | runPosted {send : SendQueue.State RequestContent} (hr : SendQueue.runPosted s.send = some send) :
      Effect isResend s .runPosted { s with send := send }
  | writeDone {i : ℕ} {ec : Bool} {send : SendQueue.State RequestContent}
      (hc : SendQueue.complete s.send isResend i ec = some send) :
      Effect isResend s (.writeDone i ec) { s with
        send := send, chain := { s.chain with isConnected := s.chain.isConnected && !ec } }

theorem step_effect {isResend : Bool} {s t : State F G} {a : Action F G}
    (h : step isResend s a = some t) : Effect isResend s a t := by
  cases a with
  | run =>
    simp only [step] at h
    split_ifs at h
    obtain rfl := Option.some.inj h
    exact .run
  | call op =>
    obtain rfl := Option.some.inj h
    exact .call
  | update j =>
    simp only [step] at h
    split at h
    · obtain rfl := Option.some.inj h
      exact .update ‹_›
    · cases h
  | runRetry =>
    obtain ⟨r, hr, rfl⟩ := Option.map_eq_some_iff.mp h
    exact .runRetry hr
  | ioRetry =>
    obtain ⟨r, hr, rfl⟩ := Option.map_eq_some_iff.mp h
    exact .ioRetry hr
  | complete c =>
    simp only [step] at h
    split_ifs at h
    obtain ⟨r, hr, rfl⟩ := Option.map_eq_some_iff.mp h
    exact .complete hr
  | runPosted =>
    simp only [step] at h
    split_ifs at h
    obtain ⟨send, hr, rfl⟩ := Option.map_eq_some_iff.mp h
    exact .runPosted hr
  | writeDone i ec =>
    simp only [step] at h
    split_ifs at h
    obtain ⟨send, hc, rfl⟩ := Option.map_eq_some_iff.mp h
    exact .writeDone hc

theorem handleEvent_chain (s : State F G) (event : IoChain.Event PushContent) :
    (handleEvent s event).chain = s.chain := by
  cases event <;> rfl

theorem step_chain {isResend : Bool} {s t : State F G} {a : Action F G} (hok : ContentOk s a)
    (h : step isResend s a = some t) :
    IoChain.Moves (φ := PushContent) IoChain.ContentOk s.chain t.chain := by
  cases step_effect h with
  | run => exact .started
  | complete hc =>
    rw [handleEvent_chain]
    exact .completed hok hc
  | writeDone hc => exact .kept _
  | _ => exact .kept s.chain.isConnected

/-- In every run of either client in which no content read ends with an error, no
two reads and no two connects are outstanding at once. -/
theorem single_chain (cfg : AsyncClient.Config) {as : List AsyncClient.Action}
    {s : AsyncClient.State}
    (hca : Conforms (AsyncClient.step cfg) AsyncClient.ContentOk AsyncClient.initial as)
    (hra : Execution.run (AsyncClient.step cfg) AsyncClient.initial as = some s)
    (isResend : Bool) {bs : List (Action F G)} {t : State F G}
    (hcs : Conforms (step isResend) ContentOk initial bs)
    (hrs : Execution.run (step isResend) initial bs = some t) :
    IoChain.Single s.chain ∧ IoChain.Single t.chain := by
  constructor
  · have hinv : IoChain.Inv s.chain := conforming_invariant (I := fun s => IoChain.Inv s.chain)
      (fun _ _ _ hs hok h => (AsyncClient.step_chain hok h).inv hs) IoChain.initial_inv hca hra
    exact hinv.single
  · have hinv : IoChain.Inv t.chain := conforming_invariant (I := fun s => IoChain.Inv s.chain)
      (fun _ _ _ hs hok h => (step_chain hok h).inv hs) IoChain.initial_inv hcs hrs
    exact hinv.single

theorem single_chain_reconnected :
    ∃ s t, Execution.run (AsyncClient.step ⟨false, 10⟩) AsyncClient.initial [.run,
        .complete (.head 0 false), .complete (.content 0 false ⟨1, .ok, [], []⟩), .route,
        .complete (.head 0 true), .complete (.connect 0 .failed), .complete (.connect 0 .ok)] = some s ∧
      Execution.run (step false) (initial : State Unit Unit) [.run, .complete (.head 0 false),
        .complete (.content 0 false ⟨.serialize, [], [], []⟩), .complete (.head 0 true),
        .complete (.connect 0 .failed), .complete (.connect 0 .ok)] = some t ∧
      IoChain.Single s.chain ∧ IoChain.Single t.chain := by
  have hsome : (Execution.run (AsyncClient.step ⟨false, 10⟩) AsyncClient.initial [.run,
      .complete (.head 0 false), .complete (.content 0 false ⟨1, .ok, [], []⟩), .route,
      .complete (.head 0 true), .complete (.connect 0 .failed),
      .complete (.connect 0 .ok)]).isSome = true := by decide
  have tsome : (Execution.run (step false) (initial : State Unit Unit) [.run,
      .complete (.head 0 false), .complete (.content 0 false ⟨.serialize, [], [], []⟩),
      .complete (.head 0 true), .complete (.connect 0 .failed),
      .complete (.connect 0 .ok)]).isSome = true := by decide
  obtain ⟨s, hs⟩ := Option.isSome_iff_exists.mp hsome
  obtain ⟨t, ht⟩ := Option.isSome_iff_exists.mp tsome
  exact ⟨s, t, hs, ht, single_chain ⟨false, 10⟩ (by decide) hs false (by decide) ht⟩

/-- A content read that fails leaves the head read it re-armed, and the failure of
that one starts a second connect, in either client. -/
theorem two_connects_outstanding :
    (¬ ∀ (cfg : AsyncClient.Config) (as : List AsyncClient.Action) (s : AsyncClient.State),
      Execution.run (AsyncClient.step cfg) AsyncClient.initial as = some s → IoChain.Single s.chain) ∧
    ¬ ∀ (isResend : Bool) (as : List (Action Unit Unit)) (s : State Unit Unit),
      Execution.run (step isResend) initial as = some s → IoChain.Single s.chain := by
  constructor
  · intro h
    have hrun : (Execution.run (AsyncClient.step ⟨false, 10⟩) AsyncClient.initial [.run,
        .complete (.head 0 false), .complete (.content 0 true ⟨1, .ok, [], []⟩),
        .complete (.head 0 true)]).map (fun s => s.chain.connects) = some [true, false] := by decide
    obtain ⟨s, hs, hc⟩ := Option.map_eq_some_iff.mp hrun
    have hle := (h _ _ _ hs).2
    rw [hc] at hle
    exact absurd hle (by decide)
  · intro h
    have hrun : (Execution.run (step false) (initial : State Unit Unit) [.run,
        .complete (.head 0 false), .complete (.content 0 true ⟨.serialize, [], [], []⟩),
        .complete (.head 0 true)]).map (fun s => s.chain.connects) = some [true, false] := by decide
    obtain ⟨s, hs, hc⟩ := Option.map_eq_some_iff.mp hrun
    have hle := (h _ _ _ hs).2
    rw [hc] at hle
    exact absurd hle (by decide)

end Czrpc.SubClient
