import Czrpc.Calls

/-! A call from end to end, on a connection that carries nothing else and does not fail:
the request is encoded, read and dispatched by the server, and the client reads what the
handler has written. With a handler that answers what it was sent, a call returns what it
was given, unless this is empty: `set_response` does not answer with an empty body. -/
namespace Czrpc.Echo
open Framing Protocol Dispatch Calls

variable {M D : Type}

section Exchange
variable (pb : Protobuf M D) (router : Router M) (sessionId : Bytes)

def exchange (request : RequestContent) : Bytes :=
  match requestCodec.readFrame (getRequestBuffer (RequestHeader.ofContent request) request) with
  | some (content, _) => (serve pb router (.ok sessionId) content).written.flatMap fun rsp =>
      getResponseBuffer (ResponseHeader.ofContent rsp) rsp
  | none => []

/-- The response that the client reads, if there is one to read. -/
def response (request : RequestContent) : Option ResponseContent :=
  (responseCodec.readFrame (exchange pb router sessionId request)).map Prod.fst

/-- `rpc_client::call_raw`; without a response it does not return. -/
def callRaw (funcName body : Bytes) : Option (Except String Bytes) :=
  (response pb router sessionId (rawRequest .rpcClient 0 funcName body)).map callRawResult

def call (funcName : Bytes) (message : Option M) : Option (Except String M) :=
  match messageRequest pb .rpcClient 0 funcName message with
  | .ok request => (response pb router sessionId request).map (callResult pb)
  | .error e => some (.error e)

/-- The client writes the request of a task and routes the response to it. -/
def deliver (client : AsyncRpcClient) (request : RequestContent) (now : ℤ) : AsyncRpcClient :=
  match response pb router sessionId request with
  | some content => (client.result request now).route content
  | none => client.result request now

def asyncCallRaw (client : AsyncRpcClient) (funcName body : Bytes) (now : ℤ) : AsyncRpcClient :=
  let (client, request) := client.asyncCallRaw funcName body
  deliver pb router sessionId client request now

def asyncCall (client : AsyncRpcClient) (funcName : Bytes) (message : Option M) (now : ℤ) :
    Except String AsyncRpcClient := do
  let (client, request) ← client.asyncCall pb funcName message
  return deliver pb router sessionId client request now

end Exchange

variable {pb : Protobuf M D} {router : Router M} {sessionId : Bytes} {request : RequestContent}

theorem exchange_eq (hreq : request.Fits) :
    exchange pb router sessionId request =
      (serve pb router (.ok sessionId) request).written.flatMap responseCodec.encode := by
  have hread := requestCodec.readFrame_encode hreq []
  rw [List.append_nil, requestCodec_encode] at hread
  rw [exchange, hread]
  rfl

theorem response_of_written (hreq : request.Fits) {rsp : ResponseContent} (hrsp : rsp.Fits)
    {silent : Prop} [Decidable silent]
    (h : (serve pb router (.ok sessionId) request).written = if silent then [] else [rsp]) :
    response pb router sessionId request = if silent then none else some rsp := by
  have hread := responseCodec.readFrame_encode hrsp []
  rw [List.append_nil] at hread
  rw [response, exchange_eq hreq, h]
  split_ifs
  · rfl
  · simp [hread]

theorem callbacks_deliver (client : AsyncRpcClient)
    (hfree : client.pending.taskMap.contains request.callId = false) {rsp : ResponseContent}
    (hid : rsp.callId = request.callId) {silent : Prop} [Decidable silent]
    (h : response pb router sessionId request = if silent then none else some rsp) (now : ℤ) :
    (deliver pb router sessionId client request now).callbacks pb =
      client.callbacks pb ++
        if silent then [] else [(client.pending.registered.length, task pb rsp)] := by
  have hfind : (client.result request now).pending.taskMap.find rsp.callId =
      some ⟨client.pending.registered.length, now⟩ := by
    rw [hid]
    exact UnorderedMap.find_emplace_self hfree _
  unfold deliver
  rw [h]
  split_ifs
  · exact (List.append_nil _).symm
  · simp only [AsyncRpcClient.route, hfind, AsyncRpcClient.callbacks, List.map_append, List.map_cons,
      List.map_nil]
    rfl

def echoRaw : Handler M := fun req callId => setResponseRaw callId req.rawData

def echo (pb : Protobuf M D) : Handler M := fun req callId => setResponse pb callId req.message

/-- A server that answers calls of `funcName`, raw or with a message, by what it was sent. -/
structure Echoes (pb : Protobuf M D) (router : Router M) (funcName : Bytes) : Prop where
  fits : funcName.length < 2 ^ 32
  raw : router.routeRawMap.find funcName = some echoRaw
  message : router.routeMap.find funcName = some (echo pb)

variable {funcName : Bytes} {type : ClientType}

variable (sessionId) in
theorem serve_echoRaw (he : Echoes pb router funcName)
    (htype : type = .rpcClient ∨ type = .asyncRpcClient) (callId : UInt32) (body : Bytes) :
    serve pb router (.ok sessionId) (rawRequest type callId funcName body) =
      ⟨if body = [] then [] else [⟨callId, .ok, [], body⟩], false⟩ :=
  (serve_nonSerialize rfl htype he.raw).trans (output_setResponseRaw callId body)

variable (sessionId) in
theorem response_echoRaw (he : Echoes pb router funcName)
    (htype : type = .rpcClient ∨ type = .asyncRpcClient) (callId : UInt32) {body : Bytes}
    (hbody : body.length < 2 ^ 32) :
    response pb router sessionId (rawRequest type callId funcName body) =
      if body = [] then none else some ⟨callId, .ok, [], body⟩ := by
  have hreq : (rawRequest type callId funcName body).Fits := ⟨he.fits, by simp [rawRequest], hbody⟩
  exact response_of_written hreq ⟨by simp, hbody⟩ (by rw [serve_echoRaw sessionId he htype])

variable (sessionId) in
theorem callRaw_echo (he : Echoes pb router funcName) {body : Bytes} (hbody : body.length < 2 ^ 32) :
    callRaw pb router sessionId funcName body = if body = [] then none else some (.ok body) := by
  rw [callRaw, response_echoRaw sessionId he (Or.inl rfl) 0 hbody]
  split_ifs <;> rfl

section Message
variable {message : M}

variable (sessionId) in
theorem response_echo (hpb : pb.Lawful) (he : Echoes pb router funcName)
    (hinit : pb.isInitialized message = true) (hreg : pb.Registered message)
    (hfull : (pb.fullName message).length < 2 ^ 32)
    (hbody : (pb.serializeAsString message).length < 2 ^ 32)
    (htype : type = .rpcClient ∨ type = .asyncRpcClient) (callId : UInt32) :
    response pb router sessionId (messageContent pb type callId funcName message) =
      if pb.serializeAsString message = [] then none
      else some ⟨callId, .ok, pb.fullName message, pb.serializeAsString message⟩ := by
  have hserve : serve pb router (.ok sessionId) (messageContent pb type callId funcName message) =
      ⟨if pb.serializeAsString message = [] then []
        else [⟨callId, .ok, pb.fullName message, pb.serializeAsString message⟩], false⟩ :=
    (serve_serialize rfl htype (hpb.deserialize_serialize hreg hinit) he.message).trans
      (output_setResponse hinit (hpb.fullName_ne_nil hreg) callId)
  exact response_of_written ⟨he.fits, hfull, hbody⟩ ⟨hfull, hbody⟩ (by rw [hserve])

theorem callResult_ok (hpb : pb.Lawful) (hinit : pb.isInitialized message = true)
    (hreg : pb.Registered message) (callId : UInt32) :
    callResult pb ⟨callId, .ok, pb.fullName message, pb.serializeAsString message⟩ = .ok message :=
  hpb.deserialize_serialize hreg hinit

theorem task_ok (hpb : pb.Lawful) (hinit : pb.isInitialized message = true)
    (hreg : pb.Registered message) (callId : UInt32) :
    task pb ⟨callId, .ok, pb.fullName message, pb.serializeAsString message⟩ =
      some ⟨.ok, callId, some message, []⟩ := by
  simp [task, hpb.fullName_ne_nil hreg, hpb.deserialize_serialize hreg hinit]

variable (sessionId) in
theorem call_echo (hpb : pb.Lawful) (he : Echoes pb router funcName)
    (hinit : pb.isInitialized message = true) (hreg : pb.Registered message)
    (hfull : (pb.fullName message).length < 2 ^ 32)
    (hbody : (pb.serializeAsString message).length < 2 ^ 32) :
    call pb router sessionId funcName (some message) =
      if pb.serializeAsString message = [] then none else some (.ok message) := by
  rw [call, messageRequest_eq hinit]
  simp only [response_echo sessionId hpb he hinit hreg hfull hbody (Or.inl rfl) 0]
  split_ifs
  · rfl
  · exact congrArg some (callResult_ok hpb hinit hreg 0)

end Message

/-- A library with one message type, named `"text"`, whose messages are their own
serialization. -/
def textProtobuf : Protobuf Bytes Unit where
  fullName _ := [116, 101, 120, 116]
  isInitialized _ := true
  serializeAsString message := message
  findMessageTypeByName name := if name = [116, 101, 120, 116] then some () else none
  newMessage _ := some []
  parseFromString _ body := some body

theorem textProtobuf_lawful : textProtobuf.Lawful where
  fullName_create name prototype h := by
    have hname : name = [116, 101, 120, 116] := by
      by_contra hne
      simp [Protobuf.createMessage, textProtobuf, hne] at h
    exact hname.symm
  create_nil := rfl
  parse_serialize _ _ _ _ := rfl

def echoName : Bytes := [101, 99, 104, 111]

def echoRouter : Router Bytes :=
  ((⟨.empty, .empty⟩ : Router Bytes).bindRaw echoName echoRaw).bind echoName (echo textProtobuf)

theorem echoRouter_echoes : Echoes textProtobuf echoRouter echoName := ⟨by decide, rfl, rfl⟩

def firstCall : AsyncRpcClient := ⟨0, PendingCalls.initial⟩

end Czrpc.Echo
