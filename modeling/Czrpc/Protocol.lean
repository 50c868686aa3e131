import Czrpc.Framing

/-! The wire protocol: the structures of `protocol_define.hpp`, the encoders
`get_buffer` with the headers their callers build, and the decoders
`make_content` and `make_response_content` with the buffer sizes their callers
announce. Sums of lengths are taken in a 64-bit `size_t`, where they do not
wrap. -/
namespace Czrpc.Protocol
open Framing

/-- A scoped enumeration over `unsigned int`: any 32-bit value may arrive. -/
structure SerializeMode where
  bits : UInt32
  deriving DecidableEq, Repr

def SerializeMode.serialize : SerializeMode := ⟨0⟩
def SerializeMode.nonSerialize : SerializeMode := ⟨1⟩

structure ClientType where
  bits : UInt32
  deriving DecidableEq, Repr

def ClientType.rpcClient : ClientType := ⟨0⟩
def ClientType.asyncRpcClient : ClientType := ⟨1⟩
def ClientType.pubClient : ClientType := ⟨2⟩
def ClientType.subClient : ClientType := ⟨3⟩

/-- The enumeration `rpc_error_code` over `int`, as its 32-bit pattern. -/
structure RpcErrorCode where
  bits : UInt32
  deriving DecidableEq, Repr

def RpcErrorCode.ok : RpcErrorCode := ⟨0⟩
def RpcErrorCode.routeFailed : RpcErrorCode := ⟨1⟩
def RpcErrorCode.requestTimeout : RpcErrorCode := ⟨2⟩

/-- The texts of `rpc_error_map`; a code outside the map has the empty text. -/
def getRpcErrorString (code : RpcErrorCode) : String :=
  if code = .ok then "OK"
  else if code = .routeFailed then "Route failed"
  else if code = .requestTimeout then "Request timeout"
  else ""

def subscribeTopicFlag : Bytes := [0x31]

def cancelSubscribeTopicFlag : Bytes := [0x30]

structure ClientFlag where
  mode : SerializeMode
  type : ClientType
  deriving DecidableEq, Repr

structure RequestHeader where
  protocolLen : UInt32
  messageNameLen : UInt32
  bodyLen : UInt32
  deriving DecidableEq, Repr

structure RequestContent where
  callId : UInt32
  flag : ClientFlag
  protocol : Bytes
  messageName : Bytes
  body : Bytes
  deriving DecidableEq, Repr

structure ResponseHeader where
  messageNameLen : UInt32
  bodyLen : UInt32
  deriving DecidableEq, Repr

structure ResponseContent where
  callId : UInt32
  code : RpcErrorCode
  messageName : Bytes
  body : Bytes
  deriving DecidableEq, Repr

structure PushHeader where
  protocolLen : UInt32
  messageNameLen : UInt32
  bodyLen : UInt32
  deriving DecidableEq, Repr

structure PushContent where
  mode : SerializeMode
  protocol : Bytes
  messageName : Bytes
  body : Bytes
  deriving DecidableEq, Repr

/-- The conversion of a string's size to `unsigned int`. -/
def sizeWord (s : Bytes) : UInt32 := UInt32.ofNat s.length

theorem sizeWord_toNat {s : Bytes} (h : s.length < 2 ^ 32) : (sizeWord s).toNat = s.length := by
  simpa [sizeWord] using Nat.mod_eq_of_lt h

namespace RequestHeader

/-- The header that `async_write` and `write` build. -/
def ofContent (c : RequestContent) : RequestHeader :=
  ⟨sizeWord c.protocol, sizeWord c.messageName, sizeWord c.body⟩

def toBytes (h : RequestHeader) : Bytes :=
  wordBytes h.protocolLen ++ wordBytes h.messageNameLen ++ wordBytes h.bodyLen

def ofBytes (buf : Bytes) : RequestHeader :=
  ⟨word (slice buf 0 4), word (slice buf 4 4), word (slice buf 8 4)⟩

@[simp] theorem toBytes_length (h : RequestHeader) : h.toBytes.length = 12 := by
  simp [toBytes]

@[simp] theorem ofBytes_toBytes (h : RequestHeader) : ofBytes h.toBytes = h := by
  obtain ⟨hp, hm, hb⟩ := three_words h.protocolLen h.messageNameLen h.bodyLen []
  simp only [List.append_nil] at hp hm hb
  simp [ofBytes, toBytes, hp, hm, hb]

/-- The size to which `connection::read_content` resizes `content_`. -/
def contentSize (h : RequestHeader) : ℕ :=
  4 + 8 + h.protocolLen.toNat + h.messageNameLen.toNat + h.bodyLen.toNat

end RequestHeader

def RequestContent.toBytes (c : RequestContent) : Bytes :=
  wordBytes c.callId ++ (wordBytes c.flag.mode.bits ++ wordBytes c.flag.type.bits) ++
    c.protocol ++ c.messageName ++ c.body

def getRequestBuffer (header : RequestHeader) (content : RequestContent) : Bytes :=
  header.toBytes ++ content.toBytes

/-- `connection::make_content`, reading `content_` under the header `req_head_`. -/
def makeContent (head : RequestHeader) (content : Bytes) : RequestContent where
  callId := word (slice content 0 4)
  flag := ⟨⟨word (slice content 4 4)⟩, ⟨word (slice content (4 + 4) 4)⟩⟩
  protocol := slice content (4 + 8) head.protocolLen.toNat
  messageName := slice content (4 + 8 + head.protocolLen.toNat) head.messageNameLen.toNat
  body := slice content (4 + 8 + head.protocolLen.toNat + head.messageNameLen.toNat)
    head.bodyLen.toNat

def RequestContent.Fits (c : RequestContent) : Prop :=
  c.protocol.length < 2 ^ 32 ∧ c.messageName.length < 2 ^ 32 ∧ c.body.length < 2 ^ 32

theorem RequestHeader.contentSize_ofContent {c : RequestContent} (h : c.Fits) :
    (RequestHeader.ofContent c).contentSize = c.toBytes.length := by
  obtain ⟨hp, hm, hb⟩ := h
  simp only [contentSize, ofContent, RequestContent.toBytes, sizeWord_toNat hp, sizeWord_toNat hm,
    sizeWord_toNat hb, List.length_append, wordBytes_length]

theorem makeContent_toBytes {c : RequestContent} (h : c.Fits) :
    makeContent (RequestHeader.ofContent c) c.toBytes = c := by
  obtain ⟨hp, hm, hb⟩ := h
  obtain ⟨id, ⟨⟨mode⟩, ⟨type⟩⟩, p, m, b⟩ := c
  obtain ⟨h0, h4, h8⟩ := three_words id mode type (p ++ (m ++ b))
  obtain ⟨sp, sm, sb⟩ := three_strings (wordBytes id ++ (wordBytes mode ++ wordBytes type))
    p m b (4 + 8) rfl
  simp only [List.append_assoc] at sp sm sb
  simp only [makeContent, RequestHeader.ofContent, RequestContent.toBytes, List.append_assoc,
    sizeWord_toNat hp, sizeWord_toNat hm, sizeWord_toNat hb, h0, h4, h8, sp, sm, sb]

/-- The frames of a client's request stream, as `connection` reads them. -/
def requestCodec : Codec RequestContent where
  headLen := 12
  headLen_pos := by decide
  contentLen head := (RequestHeader.ofBytes head).contentSize
  decode head content := makeContent (RequestHeader.ofBytes head) content
  head c := (RequestHeader.ofContent c).toBytes
  content := RequestContent.toBytes
  Fits := RequestContent.Fits
  head_length c := RequestHeader.toBytes_length _
  contentLen_head c h := by simpa using RequestHeader.contentSize_ofContent h
  decode_encode c h := by simpa using makeContent_toBytes h

theorem requestCodec_encode (c : RequestContent) :
    requestCodec.encode c = getRequestBuffer (RequestHeader.ofContent c) c := rfl

namespace ResponseHeader

/-- The header that `connection::async_write` builds for a response. -/
def ofContent (c : ResponseContent) : ResponseHeader := ⟨sizeWord c.messageName, sizeWord c.body⟩

def toBytes (h : ResponseHeader) : Bytes := wordBytes h.messageNameLen ++ wordBytes h.bodyLen

def ofBytes (buf : Bytes) : ResponseHeader := ⟨word (slice buf 0 4), word (slice buf 4 4)⟩

@[simp] theorem toBytes_length (h : ResponseHeader) : h.toBytes.length = 8 := by
  simp [toBytes]

@[simp] theorem ofBytes_toBytes (h : ResponseHeader) : ofBytes h.toBytes = h := by
  obtain ⟨hm, hb⟩ := two_words h.messageNameLen h.bodyLen []
  simp only [List.append_nil] at hm hb
  simp [ofBytes, toBytes, hm, hb]

/-- The size to which the clients resize `rsp_content_`. -/
def contentSize (h : ResponseHeader) : ℕ := 4 + 4 + h.messageNameLen.toNat + h.bodyLen.toNat

end ResponseHeader

def ResponseContent.toBytes (c : ResponseContent) : Bytes :=
  wordBytes c.callId ++ wordBytes c.code.bits ++ c.messageName ++ c.body

def getResponseBuffer (header : ResponseHeader) (content : ResponseContent) : Bytes :=
  header.toBytes ++ content.toBytes

/-- `client_base::make_response_content`, reading `rsp_content_` under `rsp_head_`. -/
def makeResponseContent (head : ResponseHeader) (content : Bytes) : ResponseContent where
  callId := word (slice content 0 4)
  code := ⟨word (slice content 4 4)⟩
  messageName := slice content (4 + 4) head.messageNameLen.toNat
  body := slice content (4 + 4 + head.messageNameLen.toNat) head.bodyLen.toNat

def ResponseContent.Fits (c : ResponseContent) : Prop :=
  c.messageName.length < 2 ^ 32 ∧ c.body.length < 2 ^ 32

theorem ResponseHeader.contentSize_ofContent {c : ResponseContent} (h : c.Fits) :
    (ResponseHeader.ofContent c).contentSize = c.toBytes.length := by
  obtain ⟨hm, hb⟩ := h
  simp only [contentSize, ofContent, ResponseContent.toBytes, sizeWord_toNat hm, sizeWord_toNat hb,
    List.length_append, wordBytes_length]

theorem makeResponseContent_toBytes {c : ResponseContent} (h : c.Fits) :
    makeResponseContent (ResponseHeader.ofContent c) c.toBytes = c := by
  obtain ⟨hm, hb⟩ := h
  obtain ⟨id, ⟨code⟩, m, b⟩ := c
  obtain ⟨h0, h4⟩ := two_words id code (m ++ b)
  obtain ⟨sm, sb⟩ := two_strings (wordBytes id ++ wordBytes code) m b (4 + 4) rfl
  simp only [List.append_assoc] at sm sb
  simp only [makeResponseContent, ResponseHeader.ofContent, ResponseContent.toBytes,
    List.append_assoc, sizeWord_toNat hm, sizeWord_toNat hb, h0, h4, sm, sb]

/-- The frames of a server's response stream, as the rpc clients read them. -/
def responseCodec : Codec ResponseContent where
  headLen := 8
  headLen_pos := by decide
  contentLen head := (ResponseHeader.ofBytes head).contentSize
  decode head content := makeResponseContent (ResponseHeader.ofBytes head) content
  head c := (ResponseHeader.ofContent c).toBytes
  content := ResponseContent.toBytes
  Fits := ResponseContent.Fits
  head_length c := ResponseHeader.toBytes_length _
  contentLen_head c h := by simpa using ResponseHeader.contentSize_ofContent h
  decode_encode c h := by simpa using makeResponseContent_toBytes h

namespace PushHeader

/-- The header that `connection::async_write` builds for a push. -/
def ofContent (c : PushContent) : PushHeader :=
  ⟨sizeWord c.protocol, sizeWord c.messageName, sizeWord c.body⟩

def toBytes (h : PushHeader) : Bytes :=
  wordBytes h.protocolLen ++ wordBytes h.messageNameLen ++ wordBytes h.bodyLen

def ofBytes (buf : Bytes) : PushHeader :=
  ⟨word (slice buf 0 4), word (slice buf 4 4), word (slice buf 8 4)⟩

@[simp] theorem toBytes_length (h : PushHeader) : h.toBytes.length = 12 := by
  simp [toBytes]

@[simp] theorem ofBytes_toBytes (h : PushHeader) : ofBytes h.toBytes = h := by
  obtain ⟨hp, hm, hb⟩ := three_words h.protocolLen h.messageNameLen h.bodyLen []
  simp only [List.append_nil] at hp hm hb
  simp [ofBytes, toBytes, hp, hm, hb]

def contentSize (h : PushHeader) : ℕ :=
  4 + h.protocolLen.toNat + h.messageNameLen.toNat + h.bodyLen.toNat

end PushHeader

def PushContent.toBytes (c : PushContent) : Bytes :=
  wordBytes c.mode.bits ++ c.protocol ++ c.messageName ++ c.body

def getPushBuffer (header : PushHeader) (content : PushContent) : Bytes :=
  header.toBytes ++ content.toBytes

/-- `sub_client::make_push_content`, reading `content_` under `push_head_`. -/
def makePushContent (head : PushHeader) (content : Bytes) : PushContent where
  mode := ⟨word (slice content 0 4)⟩
  protocol := slice content 4 head.protocolLen.toNat
  messageName := slice content (4 + head.protocolLen.toNat) head.messageNameLen.toNat
  body := slice content (4 + head.protocolLen.toNat + head.messageNameLen.toNat) head.bodyLen.toNat

def PushContent.Fits (c : PushContent) : Prop :=
  c.protocol.length < 2 ^ 32 ∧ c.messageName.length < 2 ^ 32 ∧ c.body.length < 2 ^ 32

theorem PushHeader.contentSize_ofContent {c : PushContent} (h : c.Fits) :
    (PushHeader.ofContent c).contentSize = c.toBytes.length := by
  obtain ⟨hp, hm, hb⟩ := h
  simp only [contentSize, ofContent, PushContent.toBytes, sizeWord_toNat hp, sizeWord_toNat hm,
    sizeWord_toNat hb, List.length_append, wordBytes_length]

theorem makePushContent_toBytes {c : PushContent} (h : c.Fits) :
    makePushContent (PushHeader.ofContent c) c.toBytes = c := by
  obtain ⟨hp, hm, hb⟩ := h
  obtain ⟨⟨mode⟩, p, m, b⟩ := c
  have h0 := word_slice [] (p ++ (m ++ b)) mode 0 rfl
  rw [List.nil_append] at h0
  obtain ⟨sp, sm, sb⟩ := three_strings (wordBytes mode) p m b 4 rfl
  simp only [makePushContent, PushHeader.ofContent, PushContent.toBytes, List.append_assoc,
    sizeWord_toNat hp, sizeWord_toNat hm, sizeWord_toNat hb, h0, sp, sm, sb]

/-- The frames of a server's push stream, as `sub_client` reads them. -/
def pushCodec : Codec PushContent where
  headLen := 12
  headLen_pos := by decide
  contentLen head := (PushHeader.ofBytes head).contentSize
  decode head content := makePushContent (PushHeader.ofBytes head) content
  head c := (PushHeader.ofContent c).toBytes
  content := PushContent.toBytes
  Fits := PushContent.Fits
  head_length c := PushHeader.toBytes_length _
  contentLen_head c h := by simpa using PushHeader.contentSize_ofContent h
  decode_encode c h := by simpa using makePushContent_toBytes h

end Czrpc.Protocol
