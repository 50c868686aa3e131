import Czrpc.Answers
import Czrpc.AsyncClient

/-! One `async_rpc_client` and its server: the calls of any threads, the requests on their way
to the server, the server's workers and handlers, and the responses on their way back to
`route`. A request is known by the call it was registered for, and a response by the request
it answers. -/
namespace Czrpc.AsyncPairing
open Execution Framing Protocol ServerWrites
open Dispatch (Protobuf)

variable {E H : Type*} {M D : Type} {n : ℕ}

/-- The client's connections are numbered in the order of the connects, and the current one is
number `conns`; `E` are the connections of other clients. `contents` are the requests of the
`rpc_task` objects, `owner` tells which of them a registered call belongs to, `wire` holds the
registered calls whose request is on its way to the server, `seen` counts the responses read
from the current connection, `routing` is the call that the last of them is for, and
`timeouts` is what the sweeps have queued. -/
structure State (E H : Type*) (n : ℕ) where
  client : AsyncClient.State
  contents : List RequestContent
  owner : List ℕ
  conns : ℕ
  wire : ℕ → List ℕ
  server : Answers.State (ℕ ⊕ E) H n (Option ℕ)
  seen : ℕ
  routing : Option ℕ
  timeouts : List (ℕ × ResponseContent)

def initial : State E H n :=
  ⟨AsyncClient.initial, [], [], 0, fun _ => [], Answers.initial, 0, none, []⟩

/-- A call is known by its place among the registered ones, and an `rpc_task` by its place
among the issued ones. -/
inductive Action (E H : Type*) (M : Type) (n : ℕ)
  | asyncCall (mode : SerializeMode) (funcName messageName body : Bytes)
  | addBindFunc (j : ℕ) (now : ℤ)
  | connect (i : Option ℕ)
  | deliver (i : ℕ)
  | checkRequestTimeout (now : ℤ) (uninitialized : UInt32 → UInt32)
  | client (a : AsyncClient.Action)
  | transmit (i : ℕ)
  | receive (k : ℕ)
  | server (a : ServerWrites.Action (ℕ ⊕ E) H M n)

def State.request (s : State E H n) (r : ℕ) : Option RequestContent :=
  (s.owner[r]?).bind fun j => s.contents[j]?

def State.frames (s : State E H n) : List (((ℕ ⊕ E) × Frame) × Option (Option ℕ)) :=
  s.server.server.written.zip s.server.answered

/-- The server has written this response to the client for the request of a call. -/
def Produced (s : State E H n) (r : ℕ) (content : ResponseContent) : Prop :=
  ∃ k, ((.inl k, .response content), some (some r)) ∈ s.frames

variable [DecidableEq E] in
def State.next (s : State E H n) : Option (ResponseContent × ℕ) :=
  match (s.frames.filter fun e => e.1.1 = .inl s.conns)[s.seen]? with
  | some ((_, .response content), some (some r)) => some (content, r)
  | _ => none

def internal : AsyncClient.Action → Bool
  | .asyncWrite _ | .route | .runPosted | .writeDone _ _ | .complete (.head _ _) => true
  | .complete (.content _ ec _) => ec
  | .complete (.connect _ result) => result ≠ .ok
  | .run | .asyncCall | .addBindFunc _ _ | .checkRequestTimeout _ _ => false

/-- The requests of other clients are not ours to choose. -/
def foreign : ServerWrites.Action (ℕ ⊕ E) H M n → Bool
  | .core (.contentRead (.inl _) _) => false
  | _ => true

def connecting : Option ℕ → AsyncClient.Action
  | none => .run
  | some i => .complete (.connect i .ok)

variable [DecidableEq E] in
/-- A request reaches the current connection while it is being written, and the server reads
the requests of a connection in order. -/
def step (cfg : AsyncClient.Config) (pb : Protobuf M D) (s : State E H n) :
    Action E H M n → Option (State E H n)
  | .asyncCall mode funcName messageName body =>
    (AsyncClient.step cfg s.client .asyncCall).map fun client =>
      { s with
        client := client
        contents := s.contents ++
          [⟨client.callId, ⟨mode, .asyncRpcClient⟩, funcName, messageName, body⟩] }
  | .addBindFunc j now =>
    (AsyncClient.step cfg s.client (.addBindFunc j now)).map fun client =>
      { s with client := client, owner := s.owner ++ [j] }
  | .connect i =>
    (AsyncClient.step cfg s.client (connecting i)).map fun client =>
      { s with client := client, conns := s.conns + 1, seen := 0 }
  | .deliver i =>
    s.next.bind fun (content, r) =>
      (AsyncClient.step cfg s.client (.complete (.content i false content))).map fun client =>
        { s with client := client, seen := s.seen + 1, routing := some r }
  | .checkRequestTimeout now uninitialized =>
    (AsyncClient.step cfg s.client (.checkRequestTimeout now uninitialized)).map fun client =>
      { s with
        client := client
        timeouts := s.timeouts ++ client.calls.queued.drop s.client.calls.queued.length }
  | .client a =>
    if internal a then
      (AsyncClient.step cfg s.client a).map fun client => { s with client := client }
    else none
  -- more than once for a write that is resent
  | .transmit i =>
    (s.client.send.writing[i]?).map fun r =>
      { s with wire := Function.update s.wire s.conns (s.wire s.conns ++ [r]) }
  | .receive k =>
    match s.wire k with
    | r :: rest =>
      (s.request r).bind fun content =>
        (Answers.step pb s.server (.core (.contentRead (.inl k) content)) (some r)).map fun server =>
          { s with server := server, wire := Function.update s.wire k rest }
    | [] => none
  | .server a =>
    if foreign a then
      (Answers.step pb s.server a none).map fun server => { s with server := server }
    else none

/-- An issued call that has not been registered, or whose callback is in the table. -/
def Pending (s : State E H n) (j : ℕ) : Prop :=
  j ∉ s.owner ∨ ∃ r, s.owner[r]? = some j ∧ PendingCalls.Pending s.client.calls r

/-- No call is issued while the one issued `2 ^ 32` calls earlier is pending, and `result` is
called once for an `rpc_task`. -/
def IdsFree (s : State E H n) : Action E H M n → Prop
  | .asyncCall _ _ _ _ => ∀ j, s.client.tasks.length = j + 2 ^ 32 → ¬ Pending s j
  | .addBindFunc j _ => j ∉ s.owner
  | _ => True

/-- No response is looked up while a later call is in the table under its id. -/
def InTime (s : State E H n) : Action E H M n → Prop
  | .client .route =>
    match s.client.calls.route, s.routing with
    | .entered content, some r =>
      ∀ e ∈ s.client.calls.taskMap.entries, e.1 = content.callId → e.2.task ≤ r
    | _, _ => True
  | _ => True

end Czrpc.AsyncPairing
