import Czrpc.Protocol
import Czrpc.UnorderedMap

/-! How the server answers a call: `serialize_util`, the `request` and the `response`
that a handler works on, the `router`, and the dispatch in `server::rpc_coming`. The
protobuf library is a parameter. -/
namespace Czrpc.Dispatch
open Framing Protocol

/-- What the code uses of protobuf. `newMessage` stands for `GetPrototype` and `New`. -/
structure Protobuf (M D : Type) where
  fullName : M → Bytes
  isInitialized : M → Bool
  serializeAsString : M → Bytes
  findMessageTypeByName : Bytes → Option D
  newMessage : D → Option M
  parseFromString : M → Bytes → Option M

variable {M D : Type}

namespace Protobuf
variable (pb : Protobuf M D)

def checkMessage : Option M → Except String M
  | none => throw "Message is nullptr"
  | some message =>
    if pb.isInitialized message then pure message else throw "Message initialized failed"

def serialize (message : Option M) : Except String Bytes := do
  return pb.serializeAsString (← pb.checkMessage message)

def createMessage (messageName : Bytes) : Option M :=
  (pb.findMessageTypeByName messageName).bind pb.newMessage

def deserialize (messageName body : Bytes) : Except String M :=
  if messageName = [] then throw "Message name is empty"
  else
    match pb.createMessage messageName with
    | none => throw "Message is nullptr"
    | some prototype =>
      match pb.parseFromString prototype body with
      | none => throw "Parse from string failed"
      | some message =>
        if pb.isInitialized message then pure message else throw "Message initialized failed"

/-- What is assumed of protobuf: a lookup by name yields the type of that name, no type
has the empty name, and a message of a type is parsed back from its serialization. -/
structure Lawful : Prop where
  fullName_create : ∀ name prototype, pb.createMessage name = some prototype →
    pb.fullName prototype = name
  create_nil : pb.createMessage [] = none
  parse_serialize : ∀ prototype message, pb.fullName prototype = pb.fullName message →
    pb.isInitialized message = true →
    pb.parseFromString prototype (pb.serializeAsString message) = some message

def Registered (message : M) : Prop := (pb.createMessage (pb.fullName message)).isSome = true

variable {pb} in
theorem Lawful.fullName_ne_nil (h : pb.Lawful) {message : M} (hreg : pb.Registered message) :
    pb.fullName message ≠ [] := by
  intro hnil
  rw [Registered, hnil, h.create_nil] at hreg
  cases hreg

variable {pb} in
theorem serialize_eq {message : M} (hinit : pb.isInitialized message = true) :
    pb.serialize (some message) = .ok (pb.serializeAsString message) := by
  rw [serialize, checkMessage, if_pos hinit]
  rfl

variable {pb} in
theorem Lawful.deserialize_serialize (h : pb.Lawful) {message : M} (hreg : pb.Registered message)
    (hinit : pb.isInitialized message = true) :
    pb.deserialize (pb.fullName message) (pb.serializeAsString message) = .ok message := by
  obtain ⟨prototype, hcreate⟩ := Option.isSome_iff_exists.mp hreg
  have hparse := h.parse_serialize prototype message (h.fullName_create _ _ hcreate) hinit
  rw [deserialize, if_neg (h.fullName_ne_nil hreg), hcreate]
  simp [hparse, hinit, pure, Except.pure]

end Protobuf

structure Request (M : Type) where
  message : Option M
  rawData : Bytes
  sessionId : Bytes

structure Output where
  written : List ResponseContent
  disconnected : Bool
  deriving DecidableEq

/-- Code that may write to the connection, close it or throw. -/
abbrev Work := EStateM String Output

def throwing {α : Type} : Except String α → Work α
  | .ok a => pure a
  | .error e => throw e

def asyncWrite (content : ResponseContent) : Work Unit :=
  modify fun out => { out with written := out.written ++ [content] }

def disconnect : Work Unit := modify fun out => { out with disconnected := true }

namespace Work
variable {α β : Type}

def output (work : Work α) (out : Output) : Output :=
  match work.run out with
  | .ok _ out' => out'
  | .error _ out' => out'

theorem throwing_ok_bind (a : α) (next : α → Work β) : throwing (.ok a) >>= next = next a := rfl

theorem run_bind (work : Work α) (next : α → Work β) (out : Output) :
    (work >>= next).run out =
      match work.run out with
      | .ok a out' => (next a).run out'
      | .error e out' => .error e out' := by
  change EStateM.bind work next out = _
  unfold EStateM.bind EStateM.run
  cases work out <;> rfl

theorem run_tryCatch (work : Work α) (handle : String → Work α) (out : Output) :
    (tryCatch work handle : Work α).run out =
      match work.run out with
      | .ok a out' => .ok a out'
      | .error e out' => (handle e).run out' := by
  change EStateM.tryCatch work handle out = _
  unfold EStateM.tryCatch EStateM.run
  cases work out <;> rfl

end Work

/-- A handler gets the request and the call id that its `response` carries. -/
abbrev Handler (M : Type) := Request M → UInt32 → Work Unit

def setResponse (pb : Protobuf M D) (callId : UInt32) : Option M → Work Unit
  | none => pure ()
  | some message => do
    let body ← throwing (pb.serialize (some message))
    if pb.fullName message ≠ [] ∧ body ≠ [] then
      asyncWrite ⟨callId, .ok, pb.fullName message, body⟩

def setResponseRaw (callId : UInt32) (rawData : Bytes) : Work Unit :=
  if rawData ≠ [] then asyncWrite ⟨callId, .ok, [], rawData⟩ else pure ()

/-- `invoker_function` swallows what the handler throws. -/
def invoke (func : Handler M) (req : Request M) (callId : UInt32) : Work Unit :=
  tryCatch (func req callId) fun _ => pure ()

structure Router (M : Type) where
  routeMap : UnorderedMap Bytes (Handler M)
  routeRawMap : UnorderedMap Bytes (Handler M)

namespace Router

def bind (r : Router M) (protocol : Bytes) (func : Handler M) : Router M :=
  { r with routeMap := (r.routeMap.replace protocol func).1 }

def bindRaw (r : Router M) (protocol : Bytes) (func : Handler M) : Router M :=
  { r with routeRawMap := (r.routeRawMap.replace protocol func).1 }

def routeIn (table : UnorderedMap Bytes (Handler M)) (protocol : Bytes) (req : Request M)
    (callId : UInt32) : Work Bool :=
  match table.find protocol with
  | some func => do
    invoke func req callId
    return true
  | none => return false

def route (r : Router M) : Bytes → Request M → UInt32 → Work Bool := routeIn r.routeMap

def routeRaw (r : Router M) : Bytes → Request M → UInt32 → Work Bool := routeIn r.routeRawMap

end Router

section Server
-- `session` is what `get_session_id` gives; it throws if the socket cannot name its ends.
variable (pb : Protobuf M D) (router : Router M) (session : Except String Bytes)

def responseError (callId : UInt32) (code : RpcErrorCode) : Work Unit :=
  asyncWrite ⟨callId, code, [], []⟩

def rpcComingWithSerialize (content : RequestContent) : Work Unit := do
  let message ← throwing (pb.deserialize content.messageName content.body)
  let sessionId ← throwing session
  let ok ← router.route content.protocol ⟨some message, [], sessionId⟩ content.callId
  if !ok then
    responseError content.callId .routeFailed

def rpcComingWithNonSerialize (content : RequestContent) : Work Unit := do
  let sessionId ← throwing session
  let ok ← router.routeRaw content.protocol ⟨none, content.body, sessionId⟩ content.callId
  if !ok then
    responseError content.callId .routeFailed

def rpcComing (content : RequestContent) : Work Unit :=
  tryCatch
    (if content.flag.mode = .serialize then rpcComingWithSerialize pb router session content
      else if content.flag.mode = .nonSerialize then rpcComingWithNonSerialize router session content
      else pure ())
    fun _ => disconnect

/-- The part of `server::router_thread` that a call takes; a subscription writes nothing. -/
def routerThread (content : RequestContent) : Work Unit :=
  if content.flag.type = .rpcClient ∨ content.flag.type = .asyncRpcClient then
    rpcComing pb router session content
  else pure ()

def serve (content : RequestContent) : Output :=
  (routerThread pb router session content).output ⟨[], false⟩

end Server

section Bound
variable {pb : Protobuf M D} {router : Router M} {sessionId : Bytes} {content : RequestContent}
  {func : Handler M}

theorem run_routeIn {table : UnorderedMap Bytes (Handler M)} {protocol : Bytes}
    (hf : table.find protocol = some func) (req : Request M) (callId : UInt32) (out : Output) :
    (Router.routeIn table protocol req callId).run out = .ok true ((func req callId).output out) := by
  rw [Router.routeIn, hf]
  simp only [Work.run_bind, invoke, Work.run_tryCatch, Work.output]
  cases (func req callId).run out <;> rfl

theorem serve_nonSerialize (hmode : content.flag.mode = .nonSerialize)
    (htype : content.flag.type = .rpcClient ∨ content.flag.type = .asyncRpcClient)
    (hf : router.routeRawMap.find content.protocol = some func) :
    serve pb router (.ok sessionId) content =
      (func ⟨none, content.body, sessionId⟩ content.callId).output ⟨[], false⟩ := by
  have hserialize : content.flag.mode ≠ .serialize := by
    rw [hmode]
    decide
  have hrun : (rpcComingWithNonSerialize router (.ok sessionId) content).run ⟨[], false⟩ =
      .ok () ((func ⟨none, content.body, sessionId⟩ content.callId).output ⟨[], false⟩) := by
    rw [rpcComingWithNonSerialize, Work.throwing_ok_bind, Work.run_bind, Router.routeRaw, run_routeIn hf]
    rfl
  rw [serve, routerThread, if_pos htype, rpcComing, if_neg hserialize, if_pos hmode, Work.output,
    Work.run_tryCatch, hrun]

theorem serve_serialize (hmode : content.flag.mode = .serialize)
    (htype : content.flag.type = .rpcClient ∨ content.flag.type = .asyncRpcClient) {message : M}
    (hm : pb.deserialize content.messageName content.body = .ok message)
    (hf : router.routeMap.find content.protocol = some func) :
    serve pb router (.ok sessionId) content =
      (func ⟨some message, [], sessionId⟩ content.callId).output ⟨[], false⟩ := by
  have hrun : (rpcComingWithSerialize pb router (.ok sessionId) content).run ⟨[], false⟩ =
      .ok () ((func ⟨some message, [], sessionId⟩ content.callId).output ⟨[], false⟩) := by
    rw [rpcComingWithSerialize, hm, Work.throwing_ok_bind, Work.throwing_ok_bind, Work.run_bind,
      Router.route, run_routeIn hf]
    rfl
  rw [serve, routerThread, if_pos htype, rpcComing, if_pos hmode, Work.output, Work.run_tryCatch, hrun]

end Bound

theorem output_setResponseRaw (callId : UInt32) (rawData : Bytes) :
    (setResponseRaw callId rawData).output ⟨[], false⟩ =
      ⟨if rawData = [] then [] else [⟨callId, .ok, [], rawData⟩], false⟩ := by
  unfold setResponseRaw
  by_cases h : rawData = []
  · simp only [h, ne_eq, not_true_eq_false, if_false, if_true]
    rfl
  · simp only [h, ne_eq, not_false_eq_true, if_true, if_false]
    rfl

theorem output_setResponse {pb : Protobuf M D} {message : M}
    (hinit : pb.isInitialized message = true) (hname : pb.fullName message ≠ []) (callId : UInt32) :
    (setResponse pb callId (some message)).output ⟨[], false⟩ =
      ⟨if pb.serializeAsString message = [] then []
        else [⟨callId, .ok, pb.fullName message, pb.serializeAsString message⟩], false⟩ := by
  rw [setResponse, Protobuf.serialize_eq hinit, Work.throwing_ok_bind]
  by_cases hempty : pb.serializeAsString message = []
  · rw [if_neg (fun h => h.2 hempty), if_pos hempty]
    rfl
  · rw [if_pos ⟨hname, hempty⟩, if_neg hempty]
    rfl

end Czrpc.Dispatch
