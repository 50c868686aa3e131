import Czrpc.Execution
import Czrpc.Protocol
import Mathlib.Logic.Function.Basic

/-! The client `rpc_client` shared by `N` threads, its request timer, and the
connections it makes to a server. A thread step is one access to what the threads
share: the two tests of `is_connected_` in `try_connect`, the locks, the socket, the
timer. Of TCP it is assumed that a connection that has failed or been closed carries
no more bytes, and that `boost::asio::connect` replaces the old connection. -/
namespace Czrpc.SyncClient
open Execution Framing Protocol

/-- A connection. `toServer` and `toClient` are the bytes on their way; `sent` are
the requests written to it, and `parsed` the requests that the server has read from
it, each with the response of its handler once there is one. -/
structure Conn where
  alive : Bool
  toServer : Bytes
  toClient : Bytes
  sent : List RequestContent
  parsed : List (RequestContent × Option ResponseContent)
  deriving DecidableEq, Repr

structure Sent where
  conn : ℕ
  index : ℕ
  content : RequestContent
  deriving DecidableEq, Repr

abbrev HeadBuf := {head : Bytes // head.length = responseCodec.headLen}

/-- Where a thread stands in `call` or `call_raw`. -/
inductive Pc
  | idle
  | testing (content : RequestContent)
  | locking (content : RequestContent)
  | retesting (content : RequestContent)
  | connecting (content : RequestContent)
  | connected (content : RequestContent)
  | ready (content : RequestContent)
  | writing (content : RequestContent)
  | writeFailed
  | arming (q : Sent)
  | readingHead (q : Sent) (buf : Bytes)
  | readingContent (q : Sent) (head : HeadBuf) (buf : Bytes)
  | readFailed (q : Sent)
  | closing (q : Sent)
  | leaving (result : Option (Sent × ResponseContent))
  deriving DecidableEq, Repr

/-- `expired` counts the handlers of expired waits that the timer thread has yet to
run, and `closing` tells that it stands between the two steps of `disconnect`. -/
structure Timer where
  armed : Bool
  expired : ℕ
  closing : Bool
  deriving DecidableEq, Repr

/-- `socket` is the connection that `socket_` is connected to, and `next` names the
next one. `returned` are the requests that were answered, with what was returned. -/
structure State (N : ℕ) where
  threads : Fin N → Pc
  connMutex : Option (Fin N)
  mutex : Option (Fin N)
  isConnected : Bool
  socket : Option ℕ
  conns : ℕ → Conn
  next : ℕ
  timer : Timer
  returned : List (Sent × ResponseContent)

variable {N : ℕ}

def initial : State N :=
  ⟨fun _ => .idle, none, none, false, none, fun _ => ⟨false, [], [], [], []⟩, 0, ⟨false, 0, false⟩, []⟩

inductive Action (N : ℕ)
  | call (i : Fin N) (content : RequestContent)
  | test (i : Fin N)
  | lockConn (i : Fin N)
  | retest (i : Fin N)
  | connect (i : Fin N)
  | connectRetry (i : Fin N)
  | connectFailed (i : Fin N)
  | setConnected (i : Fin N)
  | lock (i : Fin N)
  | write (i : Fin N)
  | writeFailed (i : Fin N) (n : ℕ)
  | clear (i : Fin N)
  | arm (i : Fin N)
  | read (i : Fin N) (n : ℕ)
  | readFailed (i : Fin N)
  | close (i : Fin N)
  | leave (i : Fin N)
  | expire
  | fire
  | timerClose
  | lose (c : ℕ)
  | parse (c : ℕ)
  | answer (c k : ℕ) (code : RpcErrorCode) (messageName body : Bytes)

def setThread (s : State N) (i : Fin N) (pc : Pc) : State N :=
  { s with threads := Function.update s.threads i pc }

def setConn (s : State N) (c : ℕ) (conn : Conn) : State N :=
  { s with conns := Function.update s.conns c conn }

def lose (s : State N) (c : ℕ) : State N := setConn s c { s.conns c with alive := false }

def closeSocket (s : State N) : State N :=
  match s.socket with
  | some c => { lose s c with socket := none }
  | none => s

def connect (s : State N) : State N :=
  { setConn (closeSocket s) s.next ⟨true, [], [], [], []⟩ with socket := some s.next, next := s.next + 1 }

/-- The whole request is written. A connection that is lost takes it and drops it. -/
def Conn.write (conn : Conn) (content : RequestContent) : Conn :=
  { conn with
    toServer :=
      if conn.alive then
        conn.toServer ++ getRequestBuffer (RequestHeader.ofContent content) content
      else conn.toServer
    sent := conn.sent ++ [content] }

/-- A write that fails has still delivered some bytes of the request. -/
def Conn.writeFailed (conn : Conn) (content : RequestContent) (n : ℕ) : Conn :=
  { conn with
    alive := false
    toServer :=
      if conn.alive then
        conn.toServer ++ (getRequestBuffer (RequestHeader.ofContent content) content).take n
      else conn.toServer }

/-- The handler of the `k`-th request answers; it does so once at most. -/
def Conn.answer (conn : Conn) (k : ℕ) (code : RpcErrorCode) (messageName body : Bytes) : Option Conn :=
  match conn.parsed[k]? with
  | some (content, none) =>
    some { conn with
      parsed := conn.parsed.set k (content, some ⟨content.callId, code, messageName, body⟩)
      toClient :=
        if conn.alive then
          conn.toClient ++ getResponseBuffer
            (ResponseHeader.ofContent ⟨content.callId, code, messageName, body⟩)
            ⟨content.callId, code, messageName, body⟩
        else conn.toClient }
  | _ => none

def Pc.received : Pc → Bytes → Option Pc
  | .readingHead q buf, bytes =>
    if (buf ++ bytes).length < responseCodec.headLen then some (.readingHead q (buf ++ bytes))
    else if h : (buf ++ bytes).length = responseCodec.headLen then
      some (.readingContent q ⟨buf ++ bytes, h⟩ [])
    else none
  | .readingContent q head buf, bytes =>
    if (buf ++ bytes).length < responseCodec.contentLen head then
      some (.readingContent q head (buf ++ bytes))
    else if (buf ++ bytes).length = responseCodec.contentLen head then
      some (.leaving (some (q, responseCodec.decode head (buf ++ bytes))))
    else none
  | _, _ => none

/-- A read takes `n` bytes of the connection that the socket is connected to. -/
def read (s : State N) (i : Fin N) (n : ℕ) : Option (State N) :=
  match s.socket with
  | some c =>
    if 0 < n ∧ n ≤ (s.conns c).toClient.length then
      ((s.threads i).received ((s.conns c).toClient.take n)).map fun pc =>
        setThread (setConn s c { s.conns c with toClient := (s.conns c).toClient.drop n }) i pc
    else none
  | none => none

def step (requestTimeout : ℕ) (s : State N) : Action N → Option (State N)
  | .call i content =>
    match s.threads i with
    | .idle => some (setThread s i (.testing content))
    | _ => none
  | .test i =>
    match s.threads i with
    | .testing content =>
      some (setThread s i (if s.isConnected then .ready content else .locking content))
    | _ => none
  | .lockConn i =>
    match s.threads i, s.connMutex with
    | .locking content, none => some { setThread s i (.retesting content) with connMutex := some i }
    | _, _ => none
  | .retest i =>
    match s.threads i with
    | .retesting content =>
      some (if s.isConnected then { setThread s i (.ready content) with connMutex := none }
        else setThread s i (.connecting content))
    | _ => none
  | .connect i =>
    match s.threads i with
    | .connecting content => some (setThread (connect s) i (.connected content))
    | _ => none
  -- an attempt of `boost::asio::connect` has failed, which leaves the socket connected to nothing
  | .connectRetry i =>
    match s.threads i with
    | .connecting _ => some (closeSocket s)
    | _ => none
  | .connectFailed i =>
    match s.threads i with
    | .connecting _ => some { setThread (closeSocket s) i .idle with connMutex := none }
    | _ => none
  | .setConnected i =>
    match s.threads i with
    | .connected content =>
      some { setThread s i (.ready content) with isConnected := true, connMutex := none }
    | _ => none
  | .lock i =>
    match s.threads i, s.mutex with
    | .ready content, none => some { setThread s i (.writing content) with mutex := some i }
    | _, _ => none
  | .write i =>
    match s.threads i, s.socket with
    | .writing content, some c =>
      some (setThread (setConn s c ((s.conns c).write content)) i
        (.arming ⟨c, (s.conns c).sent.length, content⟩))
    | _, _ => none
  | .writeFailed i n =>
    match s.threads i, s.socket with
    | .writing content, some c =>
      some (setThread (setConn s c ((s.conns c).writeFailed content n)) i .writeFailed)
    | .writing _, none => some (setThread s i .writeFailed)
    | _, _ => none
  -- a failed write leaves the socket open, a failed read closes it in a later step
  | .clear i =>
    match s.threads i with
    | .writeFailed => some { setThread s i (.leaving none) with isConnected := false }
    | .readFailed q => some { setThread s i (.closing q) with isConnected := false }
    | _ => none
  | .arm i =>
    match s.threads i with
    | .arming q =>
      some { setThread s i (.readingHead q []) with
        timer := { s.timer with armed := s.timer.armed || requestTimeout ≠ 0 } }
    | _ => none
  | .read i n => read s i n
  | .readFailed i =>
    match s.threads i with
    | .readingHead q _ | .readingContent q _ _ => some (setThread s i (.readFailed q))
    | _ => none
  | .close i =>
    match s.threads i with
    | .closing _ => some (setThread (closeSocket s) i (.leaving none))
    | _ => none
  | .leave i =>
    match s.threads i with
    | .leaving result =>
      some { setThread s i .idle with
        mutex := none
        timer := { s.timer with armed := false }
        returned := s.returned ++ result.toList }
    | _ => none
  | .expire =>
    if s.timer.armed then
      some { s with timer := { s.timer with armed := false, expired := s.timer.expired + 1 } }
    else none
  -- `disconnect` clears the flag, and closes the socket in a step of its own
  | .fire =>
    if 0 < s.timer.expired ∧ s.timer.closing = false then
      some { s with
        isConnected := false
        timer := { s.timer with expired := s.timer.expired - 1, closing := true } }
    else none
  | .timerClose =>
    if s.timer.closing then
      some { closeSocket s with timer := { s.timer with closing := false } }
    else none
  | .lose c => some (lose s c)
  | .parse c =>
    match requestCodec.readFrame (s.conns c).toServer with
    | some (content, rest) =>
      some (setConn s c { s.conns c with
        toServer := rest, parsed := (s.conns c).parsed ++ [(content, none)] })
    | none => none
  | .answer c k code messageName body =>
    ((s.conns c).answer k code messageName body).map (setConn s c)

inductive Effect (requestTimeout : ℕ) (s : State N) : Action N → State N → Prop
  | call {i : Fin N} {content : RequestContent} (hi : s.threads i = .idle) :
      Effect requestTimeout s (.call i content) (setThread s i (.testing content))
  | testReady {i : Fin N} {content : RequestContent} (hi : s.threads i = .testing content) :
      Effect requestTimeout s (.test i) (setThread s i (.ready content))
  | testLocking {i : Fin N} {content : RequestContent} (hi : s.threads i = .testing content) :
      Effect requestTimeout s (.test i) (setThread s i (.locking content))
  | lockConn {i : Fin N} {content : RequestContent} (hi : s.threads i = .locking content) :
      Effect requestTimeout s (.lockConn i)
        { setThread s i (.retesting content) with connMutex := some i }
  | retestReady {i : Fin N} {content : RequestContent} (hi : s.threads i = .retesting content) :
      Effect requestTimeout s (.retest i) { setThread s i (.ready content) with connMutex := none }
  | retestConnecting {i : Fin N} {content : RequestContent} (hi : s.threads i = .retesting content)
      (hc : s.isConnected = false) :
      Effect requestTimeout s (.retest i) (setThread s i (.connecting content))
  | connect {i : Fin N} {content : RequestContent} (hi : s.threads i = .connecting content) :
      Effect requestTimeout s (.connect i) (setThread (connect s) i (.connected content))
  | connectRetry {i : Fin N} : Effect requestTimeout s (.connectRetry i) (closeSocket s)
  | connectFailed {i : Fin N} {content : RequestContent} (hi : s.threads i = .connecting content) :
      Effect requestTimeout s (.connectFailed i)
        { setThread (closeSocket s) i .idle with connMutex := none }
  | setConnected {i : Fin N} {content : RequestContent} (hi : s.threads i = .connected content) :
      Effect requestTimeout s (.setConnected i)
        { setThread s i (.ready content) with isConnected := true, connMutex := none }
  | lock {i : Fin N} {content : RequestContent} (hi : s.threads i = .ready content)
      (hm : s.mutex = none) :
      Effect requestTimeout s (.lock i) { setThread s i (.writing content) with mutex := some i }
  | write {i : Fin N} {content : RequestContent} {c : ℕ} (hi : s.threads i = .writing content)
      (hc : s.socket = some c) :
      Effect requestTimeout s (.write i) (setThread (setConn s c ((s.conns c).write content)) i
        (.arming ⟨c, (s.conns c).sent.length, content⟩))
  | writeFailed {i : Fin N} {content : RequestContent} {c n : ℕ}
      (hi : s.threads i = .writing content) (hc : s.socket = some c) :
      Effect requestTimeout s (.writeFailed i n)
        (setThread (setConn s c ((s.conns c).writeFailed content n)) i .writeFailed)
  | writeClosed {i : Fin N} {content : RequestContent} {n : ℕ} (hi : s.threads i = .writing content) :
      Effect requestTimeout s (.writeFailed i n) (setThread s i .writeFailed)
  | clearWrite {i : Fin N} (hi : s.threads i = .writeFailed) :
      Effect requestTimeout s (.clear i)
        { setThread s i (.leaving none) with isConnected := false }
  | clearRead {i : Fin N} {q : Sent} (hi : s.threads i = .readFailed q) :
      Effect requestTimeout s (.clear i) { setThread s i (.closing q) with isConnected := false }
  | arm {i : Fin N} {q : Sent} {timer : Timer} (hi : s.threads i = .arming q) :
      Effect requestTimeout s (.arm i) { setThread s i (.readingHead q []) with timer := timer }
  | read {i : Fin N} {n c : ℕ} {pc : Pc} (hc : s.socket = some c)
      (hn : 0 < n ∧ n ≤ (s.conns c).toClient.length)
      (hpc : (s.threads i).received ((s.conns c).toClient.take n) = some pc) :
      Effect requestTimeout s (.read i n) (setThread (setConn s c
        { s.conns c with toClient := (s.conns c).toClient.drop n }) i pc)
  | readFailed {i : Fin N} {q : Sent}
      (hi : (∃ buf, s.threads i = .readingHead q buf) ∨
        ∃ head buf, s.threads i = .readingContent q head buf) :
      Effect requestTimeout s (.readFailed i) (setThread s i (.readFailed q))
  | close {i : Fin N} {q : Sent} (hi : s.threads i = .closing q) :
      Effect requestTimeout s (.close i) (setThread (closeSocket s) i (.leaving none))
  | leave {i : Fin N} {result : Option (Sent × ResponseContent)} {timer : Timer}
      (hi : s.threads i = .leaving result) :
      Effect requestTimeout s (.leave i) { setThread s i .idle with
        mutex := none, timer := timer, returned := s.returned ++ result.toList }
  | expire {timer : Timer} : Effect requestTimeout s .expire { s with timer := timer }
  | fire {timer : Timer} :
      Effect requestTimeout s .fire { s with isConnected := false, timer := timer }
  | timerClose {timer : Timer} :
      Effect requestTimeout s .timerClose { closeSocket s with timer := timer }
  | lose {c : ℕ} : Effect requestTimeout s (.lose c) (lose s c)
  | parse {c : ℕ} {content : RequestContent} {rest : Bytes}
      (hf : requestCodec.readFrame (s.conns c).toServer = some (content, rest)) :
      Effect requestTimeout s (.parse c) (setConn s c { s.conns c with
        toServer := rest, parsed := (s.conns c).parsed ++ [(content, none)] })
  | answer {c k : ℕ} {code : RpcErrorCode} {messageName body : Bytes} {conn : Conn}
      (ha : (s.conns c).answer k code messageName body = some conn) :
      Effect requestTimeout s (.answer c k code messageName body) (setConn s c conn)

theorem step_effect {requestTimeout : ℕ} {s t : State N} {a : Action N}
    (h : step requestTimeout s a = some t) : Effect requestTimeout s a t := by
  cases a with
  | call i content =>
    simp only [step] at h
    split at h
    · obtain rfl := Option.some.inj h
      exact .call ‹_›
    · cases h
  | test i =>
    simp only [step] at h
    split at h
    · obtain rfl := Option.some.inj h
      split_ifs
      · exact .testReady ‹_›
      · exact .testLocking ‹_›
    · cases h
  | lockConn i =>
    simp only [step] at h
    split at h
    · obtain rfl := Option.some.inj h
      exact .lockConn ‹_›
    · cases h
  | retest i =>
    simp only [step] at h
    split at h
    · obtain rfl := Option.some.inj h
      split_ifs with hc
      · exact .retestReady ‹_›
      · exact .retestConnecting ‹_› (by simpa using hc)
    · cases h
  | connect i =>
    simp only [step] at h
    split at h
    · obtain rfl := Option.some.inj h
      exact .connect ‹_›
    · cases h
  | connectRetry i =>
    simp only [step] at h
    split at h
    · obtain rfl := Option.some.inj h
      exact .connectRetry
    · cases h
  | connectFailed i =>
    simp only [step] at h
    split at h
    · obtain rfl := Option.some.inj h
      exact .connectFailed ‹_›
    · cases h
  | setConnected i =>
    simp only [step] at h
    split at h
    · obtain rfl := Option.some.inj h
      exact .setConnected ‹_›
    · cases h
  | lock i =>
    simp only [step] at h
    split at h
    · obtain rfl := Option.some.inj h
      exact .lock ‹_› ‹_›
    · cases h
  | write i =>
    simp only [step] at h
    split at h
    · obtain rfl := Option.some.inj h
      exact .write ‹_› ‹_›
    · cases h
  | writeFailed i n =>
    simp only [step] at h
    split at h
    · obtain rfl := Option.some.inj h
      exact .writeFailed ‹_› ‹_›
    · obtain rfl := Option.some.inj h
      exact .writeClosed ‹_›
    · cases h
  | clear i =>
    simp only [step] at h
    split at h
    · obtain rfl := Option.some.inj h
      exact .clearWrite ‹_›
    · obtain rfl := Option.some.inj h
      exact .clearRead ‹_›
    · cases h
  | arm i =>
    simp only [step] at h
    split at h
    · obtain rfl := Option.some.inj h
      exact .arm ‹_›
    · cases h
  | read i n =>
    simp only [step, SyncClient.read] at h
    split at h
    · split_ifs at h with hn
      obtain ⟨pc, hpc, rfl⟩ := Option.map_eq_some_iff.mp h
      exact .read ‹_› hn hpc
    · cases h
  | readFailed i =>
    simp only [step] at h
    split at h
    · obtain rfl := Option.some.inj h
      exact .readFailed (Or.inl ⟨_, ‹_›⟩)
    · obtain rfl := Option.some.inj h
      exact .readFailed (Or.inr ⟨_, _, ‹_›⟩)
    · cases h
  | close i =>
    simp only [step] at h
    split at h
    · obtain rfl := Option.some.inj h
      exact .close ‹_›
    · cases h
  | leave i =>
    simp only [step] at h
    split at h
    · obtain rfl := Option.some.inj h
      exact .leave ‹_›
    · cases h
  | expire =>
    simp only [step] at h
    split_ifs at h
    obtain rfl := Option.some.inj h
    exact .expire
  | fire =>
    simp only [step] at h
    split_ifs at h
    obtain rfl := Option.some.inj h
    exact .fire
  | timerClose =>
    simp only [step] at h
    split_ifs at h
    obtain rfl := Option.some.inj h
    exact .timerClose
  | lose c =>
    obtain rfl := Option.some.inj h
    exact .lose
  | parse c =>
    simp only [step] at h
    split at h
    · obtain rfl := Option.some.inj h
      exact .parse ‹_›
    · cases h
  | answer c k code messageName body =>
    obtain ⟨conn, ha, rfl⟩ := Option.map_eq_some_iff.mp h
    exact .answer ha

@[simp] theorem setThread_self (s : State N) (i : Fin N) (pc : Pc) :
    (setThread s i pc).threads i = pc := Function.update_self _ _ _

theorem setThread_of_ne (s : State N) {i j : Fin N} (h : j ≠ i) (pc : Pc) :
    (setThread s i pc).threads j = s.threads j := Function.update_of_ne h _ _

@[simp] theorem setConn_self (s : State N) (c : ℕ) (conn : Conn) :
    (setConn s c conn).conns c = conn := Function.update_self _ _ _

theorem setConn_of_ne (s : State N) {c d : ℕ} (h : d ≠ c) (conn : Conn) :
    (setConn s c conn).conns d = s.conns d := Function.update_of_ne h _ _

@[simp] theorem setConn_threads (s : State N) (c : ℕ) (conn : Conn) :
    (setConn s c conn).threads = s.threads := rfl

theorem closeSocket_threads (s : State N) : (closeSocket s).threads = s.threads := by
  unfold closeSocket
  split <;> rfl

theorem closeSocket_next (s : State N) : (closeSocket s).next = s.next := by
  unfold closeSocket
  split <;> rfl

theorem setThread_closeSocket_threads (s : State N) (i : Fin N) (pc : Pc) :
    (setThread (closeSocket s) i pc).threads = Function.update s.threads i pc := by
  rw [setThread, closeSocket_threads]

theorem connect_threads (s : State N) : (connect s).threads = s.threads := closeSocket_threads s

theorem closeSocket_socket (s : State N) : (closeSocket s).socket = none := by
  unfold closeSocket
  split
  · rfl
  · assumption

def writeRequest {N : ℕ} (i : Fin N) (content : RequestContent) : List (Action N) :=
  [.call i content, .test i, .lockConn i, .retest i, .connect i, .setConnected i, .lock i, .write i,
    .arm i]

def echoRequest : RequestContent :=
  ⟨0, ⟨.nonSerialize, .rpcClient⟩, [101, 99, 104, 111], [], [104, 105]⟩

end Czrpc.SyncClient
