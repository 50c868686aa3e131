import Czrpc.Dispatch
import Czrpc.PendingCalls

/-! The calls of the two rpc clients: the request that each one sends and what it makes
of a response. `rpc_client` hands the response to its caller, `async_rpc_client` finds
the callback in the pending table and runs it through the task of `rpc_task::result`. -/
namespace Czrpc.Calls
open Execution Framing Protocol Dispatch

variable {M D : Type}

def rawRequest (type : ClientType) (callId : UInt32) (funcName body : Bytes) : RequestContent :=
  ⟨callId, ⟨.nonSerialize, type⟩, funcName, [], body⟩

/-- The request of `call` and of `async_call`, which check the message first. -/
def messageRequest (pb : Protobuf M D) (type : ClientType) (callId : UInt32) (funcName : Bytes)
    (message : Option M) : Except String RequestContent := do
  let checked ← pb.checkMessage message
  let body ← pb.serialize message
  return ⟨callId, ⟨.serialize, type⟩, funcName, pb.fullName checked, body⟩

def messageContent (pb : Protobuf M D) (type : ClientType) (callId : UInt32) (funcName : Bytes)
    (message : M) : RequestContent :=
  ⟨callId, ⟨.serialize, type⟩, funcName, pb.fullName message, pb.serializeAsString message⟩

theorem messageRequest_eq {pb : Protobuf M D} {message : M}
    (hinit : pb.isInitialized message = true) (type : ClientType) (callId : UInt32) (funcName : Bytes) :
    messageRequest pb type callId funcName (some message) =
      .ok (messageContent pb type callId funcName message) := by
  rw [messageRequest, Protobuf.serialize, Protobuf.checkMessage, if_pos hinit]
  rfl

def checkErrorCode (code : RpcErrorCode) : Except String Unit :=
  if code ≠ .ok then throw (getRpcErrorString code) else pure ()

def callRawResult (rsp : ResponseContent) : Except String Bytes := do
  checkErrorCode rsp.code
  return rsp.body

def callResult (pb : Protobuf M D) (rsp : ResponseContent) : Except String M := do
  checkErrorCode rsp.code
  pb.deserialize rsp.messageName rsp.body

structure Result (M : Type) where
  errorCode : RpcErrorCode
  callId : UInt32
  message : Option M
  rawData : Bytes
  deriving DecidableEq

/-- The task that `rpc_task::result` builds: what the callback is called with, unless the
message cannot be read. -/
def task (pb : Protobuf M D) (content : ResponseContent) : Option (Result M) :=
  if content.messageName ≠ [] then
    if content.code ≠ .ok then some ⟨content.code, content.callId, none, []⟩
    else
      match pb.deserialize content.messageName content.body with
      | .ok message => some ⟨content.code, content.callId, some message, []⟩
      | .error _ => none
  else if content.code ≠ .ok then some ⟨content.code, content.callId, none, []⟩
  else some ⟨content.code, content.callId, none, content.body⟩

structure AsyncRpcClient where
  callId : UInt32
  pending : PendingCalls.State

namespace AsyncRpcClient

def asyncCallRaw (client : AsyncRpcClient) (funcName body : Bytes) : AsyncRpcClient × RequestContent :=
  ({ client with callId := client.callId + 1 },
    rawRequest .asyncRpcClient (client.callId + 1) funcName body)

def asyncCall (pb : Protobuf M D) (client : AsyncRpcClient) (funcName : Bytes) (message : Option M) :
    Except String (AsyncRpcClient × RequestContent) := do
  return ({ client with callId := client.callId + 1 },
    ← messageRequest pb .asyncRpcClient (client.callId + 1) funcName message)

/-- `rpc_task::result` registers the callback; it then writes the request. -/
def result (client : AsyncRpcClient) (content : RequestContent) (now : ℤ) : AsyncRpcClient :=
  { client with pending := PendingCalls.addBindFunc client.pending content.callId now }

/-- `route` when no other thread comes between its steps. -/
def route (client : AsyncRpcClient) (content : ResponseContent) : AsyncRpcClient :=
  match client.pending.taskMap.find content.callId with
  | some entry =>
    { client with pending := { client.pending with
        taskMap := client.pending.taskMap.erase content.callId
        queued := client.pending.queued ++ [(entry.task, content)] } }
  | none => client

theorem run_route (client : AsyncRpcClient) (requestTimeout : ℤ) (content : ResponseContent)
    (hidle : client.pending.route = .idle) :
    ∃ n, run (PendingCalls.step requestTimeout) client.pending
      (.frame content :: List.replicate n .route) = some (client.route content).pending := by
  obtain ⟨callId, taskMap, registered, queued, pc⟩ := client
  obtain rfl : pc = .idle := hidle
  cases hf : taskMap.find content.callId with
  | none =>
    refine ⟨1, ?_⟩
    simp [run_cons, PendingCalls.step, PendingCalls.routeStep, route, hf]
  | some entry =>
    refine ⟨3, ?_⟩
    simp [run_cons, PendingCalls.step, PendingCalls.routeStep, route, hf, List.replicate_succ]

/-- The callbacks that the thread pool runs, each with the number of its call. -/
def callbacks (pb : Protobuf M D) (client : AsyncRpcClient) : List (ℕ × Option (Result M)) :=
  client.pending.queued.map fun e => (e.1, task pb e.2)

end AsyncRpcClient

end Czrpc.Calls
