import Czrpc.Protocol

/-! The sizes of buffers as the source computes them. `read_content` adds the
lengths of a received header in `size_t`, and the decoders add them again to form
the subscripts of the content; both sums are taken here in a word of any width.
The encoders convert the sizes of strings to the 32-bit lengths of the header. -/
namespace Czrpc.FrameSizes
open Framing Protocol

abbrev SizeT (w : ℕ) := BitVec w

def toSizeT (w : ℕ) (n : UInt32) : SizeT w := BitVec.ofNat w n.toNat

/-- A subscript whose address is taken, and how many bytes are read from there on. -/
structure Access (w : ℕ) where
  index : SizeT w
  length : ℕ
  deriving DecidableEq, Repr

def Access.read {w : ℕ} (a : Access w) (content : Bytes) : Bytes :=
  slice content a.index.toNat a.length

/-- A received header, of any of the three kinds. -/
inductive Header where
  | request (head : RequestHeader)
  | response (head : ResponseHeader)
  | push (head : PushHeader)
  deriving DecidableEq, Repr

/-- The size in `connection::read_content`. -/
def readContentSize (w : ℕ) (head : RequestHeader) : SizeT w :=
  4 + 8 + toSizeT w head.protocolLen + toSizeT w head.messageNameLen + toSizeT w head.bodyLen

/-- The size in `client_base::read_content` and `async_rpc_client::async_read_content`. -/
def readResponseContentSize (w : ℕ) (head : ResponseHeader) : SizeT w :=
  4 + 4 + toSizeT w head.messageNameLen + toSizeT w head.bodyLen

/-- The size in `sub_client::async_read_content`. -/
def readPushContentSize (w : ℕ) (head : PushHeader) : SizeT w :=
  4 + toSizeT w head.protocolLen + toSizeT w head.messageNameLen + toSizeT w head.bodyLen

def makeContentAccesses (w : ℕ) (head : RequestHeader) : List (Access w) :=
  [⟨0, 4⟩, ⟨4, 8⟩, ⟨4 + 8, head.protocolLen.toNat⟩,
    ⟨4 + 8 + toSizeT w head.protocolLen, head.messageNameLen.toNat⟩,
    ⟨4 + 8 + toSizeT w head.protocolLen + toSizeT w head.messageNameLen, head.bodyLen.toNat⟩]

def makeResponseContentAccesses (w : ℕ) (head : ResponseHeader) : List (Access w) :=
  [⟨0, 4⟩, ⟨4, 4⟩, ⟨4 + 4, head.messageNameLen.toNat⟩,
    ⟨4 + 4 + toSizeT w head.messageNameLen, head.bodyLen.toNat⟩]

def makePushContentAccesses (w : ℕ) (head : PushHeader) : List (Access w) :=
  [⟨0, 4⟩, ⟨4, head.protocolLen.toNat⟩,
    ⟨4 + toSizeT w head.protocolLen, head.messageNameLen.toNat⟩,
    ⟨4 + toSizeT w head.protocolLen + toSizeT w head.messageNameLen, head.bodyLen.toNat⟩]

namespace Header

def bodyLen : Header → UInt32
  | request head => head.bodyLen
  | response head => head.bodyLen
  | push head => head.bodyLen

def size (w : ℕ) : Header → SizeT w
  | request head => readContentSize w head
  | response head => readResponseContentSize w head
  | push head => readPushContentSize w head

def accesses (w : ℕ) : Header → List (Access w)
  | request head => makeContentAccesses w head
  | response head => makeResponseContentAccesses w head
  | push head => makePushContentAccesses w head

/-- The fixed part and the announced lengths, added without a bound. -/
def trueSize : Header → ℕ
  | request head => head.contentSize
  | response head => head.contentSize
  | push head => head.contentSize

def fieldsBeforeBody : Header → List ℕ
  | request head => [4, 8, head.protocolLen.toNat, head.messageNameLen.toNat]
  | response head => [4, 4, head.messageNameLen.toNat]
  | push head => [4, head.protocolLen.toNat, head.messageNameLen.toNat]

def fields (h : Header) : List ℕ := h.fieldsBeforeBody ++ [h.bodyLen.toNat]

theorem sum_fields (h : Header) : h.fields.sum = h.trueSize := by
  cases h <;>
    simp only [fields, fieldsBeforeBody, bodyLen, trueSize, RequestHeader.contentSize,
      ResponseHeader.contentSize, PushHeader.contentSize, List.cons_append, List.nil_append,
      List.sum_cons, List.sum_nil] <;>
    omega

theorem size_eq (w : ℕ) (h : Header) : h.size w = BitVec.ofNat w h.trueSize := by
  cases h <;>
    simp only [size, readContentSize, readResponseContentSize, readPushContentSize, toSizeT,
      trueSize, RequestHeader.contentSize, ResponseHeader.contentSize, PushHeader.contentSize,
      BitVec.ofNat_add] <;>
    rfl

/-- The size is the true one up to a multiple of the word's range. -/
theorem size_toNat (w : ℕ) (h : Header) : (h.size w).toNat = h.trueSize % 2 ^ w := by
  rw [size_eq, BitVec.toNat_ofNat]

theorem accesses_eq (w : ℕ) (h : Header) :
    h.accesses w = (layout 0 h.fields).map fun f => ⟨BitVec.ofNat w f.1, f.2⟩ := by
  cases h <;>
    simp only [accesses, makeContentAccesses, makeResponseContentAccesses, makePushContentAccesses,
      toSizeT, fields, fieldsBeforeBody, bodyLen, layout, List.cons_append, List.nil_append,
      List.map_cons, List.map_nil, BitVec.ofNat_add, BitVec.zero_add] <;>
    rfl

theorem trueSize_lt (h : Header) : h.trueSize < 2 ^ 64 := by
  cases h with
  | request head =>
    have hp := head.protocolLen.toNat_lt
    have hm := head.messageNameLen.toNat_lt
    have hb := head.bodyLen.toNat_lt
    simp only [trueSize, RequestHeader.contentSize]
    omega
  | response head =>
    have hm := head.messageNameLen.toNat_lt
    have hb := head.bodyLen.toNat_lt
    simp only [trueSize, ResponseHeader.contentSize]
    omega
  | push head =>
    have hp := head.protocolLen.toNat_lt
    have hm := head.messageNameLen.toNat_lt
    have hb := head.bodyLen.toNat_lt
    simp only [trueSize, PushHeader.contentSize]
    omega

theorem trueSize_le_size_iff (w : ℕ) (h : Header) :
    h.trueSize ≤ (h.size w).toNat ↔ h.trueSize < 2 ^ w := by
  rw [size_toNat]
  constructor
  · intro hle
    exact Nat.lt_of_le_of_lt hle (Nat.mod_lt _ (Nat.two_pow_pos w))
  · intro hlt
    exact Nat.le_of_eq (Nat.mod_eq_of_lt hlt).symm

theorem accesses_toNat {w : ℕ} {h : Header} (hw : h.trueSize < 2 ^ w) :
    (h.accesses w).map (fun a => (a.index.toNat, a.length)) = layout 0 h.fields := by
  rw [accesses_eq, List.map_map]
  refine (List.map_congr_left ?_).trans (List.map_id _)
  intro f hf
  have hend := (layout_inside hf).2
  rw [sum_fields] at hend
  have hindex : f.1 % 2 ^ w = f.1 := Nat.mod_eq_of_lt (by omega)
  simp only [Function.comp_apply, BitVec.toNat_ofNat, hindex, id_eq]

theorem forall_accesses_iff {w : ℕ} {h : Header} (hw : h.trueSize < 2 ^ w) (P : ℕ × ℕ → Prop) :
    (∀ a ∈ h.accesses w, P (a.index.toNat, a.length)) ↔ ∀ f ∈ layout 0 h.fields, P f := by
  rw [← accesses_toNat hw, List.forall_mem_map]

theorem size_of_lt {w : ℕ} {h : Header} (hw : h.trueSize < 2 ^ w) :
    (h.size w).toNat = h.trueSize := by
  rw [size_toNat, Nat.mod_eq_of_lt hw]

theorem slices_inside {w : ℕ} {h : Header} (hw : h.trueSize < 2 ^ w) :
    ∀ a ∈ h.accesses w, a.index.toNat + a.length ≤ (h.size w).toNat := by
  apply (forall_accesses_iff hw fun f => f.1 + f.2 ≤ (h.size w).toNat).mpr
  intro f hf
  have hend := (layout_inside hf).2
  rw [sum_fields, Nat.zero_add] at hend
  rwa [size_of_lt hw]

theorem subscripts_inside_iff {w : ℕ} {h : Header} (hw : h.trueSize < 2 ^ w) :
    (∀ a ∈ h.accesses w, a.index.toNat < (h.size w).toNat) ↔ h.bodyLen ≠ 0 := by
  have hbegins := layout_begins_inside_iff 0 h.fieldsBeforeBody h.bodyLen.toNat
  rw [Nat.zero_add, ← fields, sum_fields] at hbegins
  rw [forall_accesses_iff hw fun f => f.1 < (h.size w).toNat, size_of_lt hw, hbegins,
    Nat.pos_iff_ne_zero, ne_eq, ne_eq, ← UInt32.toNat_inj, UInt32.toNat_zero]

end Header

def reads (h : Header) (content : Bytes) : List Bytes :=
  (h.accesses 64).map fun a => a.read content

theorem reads_eq (h : Header) (content : Bytes) :
    reads h content = (layout 0 h.fields).map fun f => slice content f.1 f.2 := by
  rw [← Header.accesses_toNat h.trueSize_lt, List.map_map]
  rfl

theorem makeContent_reads (head : RequestHeader) (content : Bytes) :
    reads (.request head) content = [slice content 0 4, slice content 4 8,
      (makeContent head content).protocol, (makeContent head content).messageName,
      (makeContent head content).body] := by
  rw [reads_eq]
  simp only [Header.fields, Header.fieldsBeforeBody, Header.bodyLen, layout, makeContent,
    List.cons_append, List.nil_append, List.map_cons, List.map_nil, Nat.zero_add]

theorem makeResponseContent_reads (head : ResponseHeader) (content : Bytes) :
    reads (.response head) content = [slice content 0 4, slice content 4 4,
      (makeResponseContent head content).messageName, (makeResponseContent head content).body] := by
  rw [reads_eq]
  simp only [Header.fields, Header.fieldsBeforeBody, Header.bodyLen, layout, makeResponseContent,
    List.cons_append, List.nil_append, List.map_cons, List.map_nil, Nat.zero_add]

theorem makePushContent_reads (head : PushHeader) (content : Bytes) :
    reads (.push head) content = [slice content 0 4, (makePushContent head content).protocol,
      (makePushContent head content).messageName, (makePushContent head content).body] := by
  rw [reads_eq]
  simp only [Header.fields, Header.fieldsBeforeBody, Header.bodyLen, layout, makePushContent,
    List.cons_append, List.nil_append, List.map_cons, List.map_nil, Nat.zero_add]

/-- With a `size_t` of 64 bits, in a content of the announced size: every subscript of a
decoder is in bounds, with the slice read from there, exactly when the announced body is not
empty. The subscript of an empty body is the size of the content. -/
theorem subscripts_in_bounds_iff (h : Header) (content : Bytes)
    (hsize : content.length = (h.size 64).toNat) :
    (∀ a ∈ h.accesses 64, a.index.toNat < content.length ∧
      a.index.toNat + a.length ≤ content.length) ↔ h.bodyLen ≠ 0 := by
  rw [hsize, ← Header.subscripts_inside_iff h.trueSize_lt]
  constructor
  · intro hall a ha
    exact (hall a ha).1
  · intro hbegins a ha
    exact ⟨hbegins a ha, Header.slices_inside h.trueSize_lt a ha⟩

theorem subscripts_in_bounds_one_byte_body :
    (List.replicate 13 (0 : UInt8)).length = ((Header.request ⟨0, 0, 1⟩).size 64).toNat ∧
      ∀ a ∈ (Header.request ⟨0, 0, 1⟩).accesses 64,
        a.index.toNat < (List.replicate 13 (0 : UInt8)).length ∧
          a.index.toNat + a.length ≤ (List.replicate 13 (0 : UInt8)).length :=
  ⟨by decide,
    (subscripts_in_bounds_iff (.request ⟨0, 0, 1⟩) (List.replicate 13 0) (by decide)).mpr (by decide)⟩

/-- The reply to a call without a route has no name and no body: the eight bytes of its
content are subscripted at eight. -/
theorem error_reply_subscript_out_of_bounds :
    ¬ ∀ (h : Header) (content : Bytes), content.length = (h.size 64).toNat →
      ∀ a ∈ h.accesses 64, a.index.toNat < content.length ∧
        a.index.toNat + a.length ≤ content.length := by
  intro hall
  let reply : ResponseContent := ⟨7, .routeFailed, [], []⟩
  have hin := hall (.response (.ofContent reply)) reply.toBytes (by decide) ⟨8, 0⟩ (by decide)
  exact absurd hin.1 (by decide)

/-- In a build with a `size_t` of `w` bits: the content is given room for the fixed part and
all announced lengths, and every slice ends within it, exactly when their sum is below
`2 ^ w`. -/
theorem buffer_covers_iff (w : ℕ) (h : Header) :
    (h.trueSize ≤ (h.size w).toNat ∧
      ∀ a ∈ h.accesses w, a.index.toNat + a.length ≤ (h.size w).toNat) ↔ h.trueSize < 2 ^ w := by
  rw [Header.trueSize_le_size_iff]
  constructor
  · intro hcovers
    exact hcovers.1
  · intro hw
    exact ⟨hw, Header.slices_inside hw⟩

/-- In a 32-bit build a protocol length of `2 ^ 32 - 4` asks for a content of eight bytes. -/
theorem buffer_too_small_in_32_bits :
    ¬ ∀ w, w = 32 ∨ w = 64 → ∀ h : Header, h.trueSize ≤ (h.size w).toNat ∧
      ∀ a ∈ h.accesses w, a.index.toNat + a.length ≤ (h.size w).toNat := by
  intro hall
  have hcovers := (hall 32 (Or.inl rfl) (.request ⟨4294967292, 0, 0⟩)).1
  exact absurd hcovers (by decide)

theorem sizeWord_toNat_eq (s : Bytes) : (sizeWord s).toNat = s.length % 2 ^ 32 := by
  simp [sizeWord]

theorem contentSize_request_iff (c : RequestContent) :
    (RequestHeader.ofContent c).contentSize = c.toBytes.length ↔ c.Fits := by
  refine ⟨?_, RequestHeader.contentSize_ofContent⟩
  simp only [RequestHeader.contentSize, RequestHeader.ofContent, sizeWord_toNat_eq,
    RequestContent.toBytes, RequestContent.Fits, List.length_append, wordBytes_length]
  omega

theorem contentSize_response_iff (c : ResponseContent) :
    (ResponseHeader.ofContent c).contentSize = c.toBytes.length ↔ c.Fits := by
  refine ⟨?_, ResponseHeader.contentSize_ofContent⟩
  simp only [ResponseHeader.contentSize, ResponseHeader.ofContent, sizeWord_toNat_eq,
    ResponseContent.toBytes, ResponseContent.Fits, List.length_append, wordBytes_length]
  omega

theorem contentSize_push_iff (c : PushContent) :
    (PushHeader.ofContent c).contentSize = c.toBytes.length ↔ c.Fits := by
  refine ⟨?_, PushHeader.contentSize_ofContent⟩
  simp only [PushHeader.contentSize, PushHeader.ofContent, sizeWord_toNat_eq,
    PushContent.toBytes, PushContent.Fits, List.length_append, wordBytes_length]
  omega

/-- A receiver that starts at the buffer has read up to its end after one frame, whatever
follows. -/
def LeavesAligned {φ : Type} (F : Format φ) (buffer : Bytes) : Prop :=
  ∀ rest, ∃ x, F.readFrame (buffer ++ rest) = some (x, rest)

/-- A value whose head announces `n` bytes: the buffer has this size, and leaves the receiver
aligned, exactly when the value fits, if only then `n` is the size of the content. -/
theorem announces_iff {φ : Type} (C : Codec φ) {x : φ} {n : ℕ}
    (hn : n = (C.content x).length ↔ C.Fits x) :
    (C.encode x).length = C.headLen + n ∧ LeavesAligned C.toFormat (C.encode x) ↔ C.Fits x := by
  rw [Codec.encode, List.length_append, C.head_length, Nat.add_left_cancel_iff, eq_comm, hn]
  apply and_iff_left_of_imp
  intro hx rest
  exact ⟨x, C.readFrame_encode hx rest⟩

/-- The three encoders: the size of a buffer is that of its header and fixed part and the sum
of the lengths in the header, and the receiver is left at the next frame, exactly when every
string is shorter than `2 ^ 32`. -/
theorem encoders_announce_iff (request : RequestContent) (response : ResponseContent)
    (push : PushContent) :
    ((getRequestBuffer (.ofContent request) request).length =
        12 + (RequestHeader.ofContent request).contentSize ∧
      LeavesAligned requestCodec.toFormat (getRequestBuffer (.ofContent request) request) ↔
        request.Fits) ∧
    ((getResponseBuffer (.ofContent response) response).length =
        8 + (ResponseHeader.ofContent response).contentSize ∧
      LeavesAligned responseCodec.toFormat (getResponseBuffer (.ofContent response) response) ↔
        response.Fits) ∧
    ((getPushBuffer (.ofContent push) push).length =
        12 + (PushHeader.ofContent push).contentSize ∧
      LeavesAligned pushCodec.toFormat (getPushBuffer (.ofContent push) push) ↔ push.Fits) := by
  exact ⟨announces_iff requestCodec (contentSize_request_iff request),
    announces_iff responseCodec (contentSize_response_iff response),
    announces_iff pushCodec (contentSize_push_iff push)⟩

/-- A body of `2 ^ 32` bytes is announced as empty. -/
theorem long_body_not_announced :
    ¬ ∀ c : RequestContent, (getRequestBuffer (.ofContent c) c).length =
      12 + (RequestHeader.ofContent c).contentSize := by
  intro hall
  have hlen : (List.replicate (2 ^ 32) 0 : Bytes).length = 2 ^ 32 := List.length_replicate
  have hsize := hall ⟨0, ⟨.nonSerialize, .rpcClient⟩, [], [], List.replicate (2 ^ 32) 0⟩
  rw [getRequestBuffer, List.length_append, RequestHeader.toBytes_length, Nat.add_left_cancel_iff,
    eq_comm, contentSize_request_iff] at hsize
  have hfits := hsize.2.2
  rw [hlen] at hfits
  exact absurd hfits (Nat.lt_irrefl _)

end Czrpc.FrameSizes
