import Czrpc.CanonicalFrames
import Czrpc.StreamRoundTrip

/-! What the three read loops make of any bytes at all. The server, the rpc clients and the
subscribers check nothing about what they receive; still, what they cut out of a stream are
contents whose buffers `get_buffer` would have written just so, one after the other. -/
namespace Czrpc.Protocol
open Framing

theorem sizeWord_slice {bs : Bytes} {offset : ℕ} {len : UInt32}
    (h : offset + len.toNat ≤ bs.length) : sizeWord (slice bs offset len.toNat) = len := by
  rw [sizeWord, slice_length bs offset _ h, UInt32.ofNat_toNat]

theorem slice_fits {bs : Bytes} {offset : ℕ} {len : UInt32} (h : offset + len.toNat ≤ bs.length) :
    (slice bs offset len.toNat).length < 2 ^ 32 := by
  rw [slice_length bs offset _ h]
  exact len.toNat_lt

theorem RequestHeader.toBytes_ofBytes {head : Bytes} (h : head.length = 12) :
    (RequestHeader.ofBytes head).toBytes = head := by
  simp only [toBytes, ofBytes]
  rw [wordBytes_slice (by omega), wordBytes_slice (by omega), wordBytes_slice (by omega),
    slice_join_zero, slice_join_zero, slice_all h]

theorem ResponseHeader.toBytes_ofBytes {head : Bytes} (h : head.length = 8) :
    (ResponseHeader.ofBytes head).toBytes = head := by
  simp only [toBytes, ofBytes]
  rw [wordBytes_slice (by omega), wordBytes_slice (by omega), slice_join_zero, slice_all h]

theorem PushHeader.toBytes_ofBytes {head : Bytes} (h : head.length = 12) :
    (PushHeader.ofBytes head).toBytes = head := by
  simp only [toBytes, ofBytes]
  rw [wordBytes_slice (by omega), wordBytes_slice (by omega), wordBytes_slice (by omega),
    slice_join_zero, slice_join_zero, slice_all h]

theorem makeContent_inverse {h : RequestHeader} {content : Bytes}
    (hlen : content.length = h.contentSize) : (makeContent h content).Fits ∧
      RequestHeader.ofContent (makeContent h content) = h ∧
      (makeContent h content).toBytes = content := by
  simp only [RequestHeader.contentSize] at hlen
  refine ⟨⟨slice_fits (by omega), slice_fits (by omega), slice_fits (by omega)⟩, ?_, ?_⟩
  · simp only [RequestHeader.ofContent, makeContent]
    rw [sizeWord_slice (by omega), sizeWord_slice (by omega), sizeWord_slice (by omega)]
  · simp only [RequestContent.toBytes, makeContent]
    rw [wordBytes_slice (by omega), wordBytes_slice (by omega), wordBytes_slice (by omega), slice_join,
      slice_join_zero, slice_join_zero, slice_join_zero, slice_join_zero, slice_all (by omega)]

theorem makeResponseContent_inverse {h : ResponseHeader} {content : Bytes}
    (hlen : content.length = h.contentSize) : (makeResponseContent h content).Fits ∧
      ResponseHeader.ofContent (makeResponseContent h content) = h ∧
      (makeResponseContent h content).toBytes = content := by
  simp only [ResponseHeader.contentSize] at hlen
  refine ⟨⟨slice_fits (by omega), slice_fits (by omega)⟩, ?_, ?_⟩
  · simp only [ResponseHeader.ofContent, makeResponseContent]
    rw [sizeWord_slice (by omega), sizeWord_slice (by omega)]
  · simp only [ResponseContent.toBytes, makeResponseContent]
    rw [wordBytes_slice (by omega), wordBytes_slice (by omega), slice_join_zero, slice_join_zero,
      slice_join_zero, slice_all (by omega)]

theorem makePushContent_inverse {h : PushHeader} {content : Bytes}
    (hlen : content.length = h.contentSize) : (makePushContent h content).Fits ∧
      PushHeader.ofContent (makePushContent h content) = h ∧
      (makePushContent h content).toBytes = content := by
  simp only [PushHeader.contentSize] at hlen
  refine ⟨⟨slice_fits (by omega), slice_fits (by omega), slice_fits (by omega)⟩, ?_, ?_⟩
  · simp only [PushHeader.ofContent, makePushContent]
    rw [sizeWord_slice (by omega), sizeWord_slice (by omega), sizeWord_slice (by omega)]
  · simp only [PushContent.toBytes, makePushContent]
    rw [wordBytes_slice (by omega), slice_join_zero, slice_join_zero, slice_join_zero,
      slice_all (by omega)]

theorem requestCodec_canonical : requestCodec.Canonical := by
  intro head content hh hc
  obtain ⟨hfits, hhead, hcontent⟩ := makeContent_inverse hc
  exact ⟨hfits, (congrArg RequestHeader.toBytes hhead).trans (RequestHeader.toBytes_ofBytes hh), hcontent⟩

theorem responseCodec_canonical : responseCodec.Canonical := by
  intro head content hh hc
  obtain ⟨hfits, hhead, hcontent⟩ := makeResponseContent_inverse hc
  exact ⟨hfits, (congrArg ResponseHeader.toBytes hhead).trans (ResponseHeader.toBytes_ofBytes hh),
    hcontent⟩

theorem pushCodec_canonical : pushCodec.Canonical := by
  intro head content hh hc
  obtain ⟨hfits, hhead, hcontent⟩ := makePushContent_inverse hc
  exact ⟨hfits, (congrArg PushHeader.toBytes hhead).trans (PushHeader.toBytes_ofBytes hh), hcontent⟩

end Czrpc.Protocol

namespace Czrpc.StreamRoundTrip
open Execution Framing Protocol ReadLoop

/-- Every run of a loop on the bytes `bs`, however they arrive and whoever closes the socket: what
it delivers fits, and the buffers of it, as the other side writes them, are the beginning of `bs`.
A loop that has come to the end has left no whole frame behind, and what it has delivered is the
only thing that can have been written. -/
def ParsesAll {φ : Type*} (L : Loop φ) (write : φ → Bytes) (Fits : φ → Prop) (bs : Bytes) : Prop :=
  ∀ as s, run (step L) (start bs true) as = some s →
    ∃ (ys : List φ) (k : ℕ) (rest : Bytes),
      s.events = ys.map .frame ++ List.replicate k .error ∧ (∀ y ∈ ys, Fits y) ∧
      bs = ys.flatMap write ++ rest ∧
      (Action.disconnect ∉ as → Finished s → L.readFrame rest = none ∧
        ∀ (xs : List φ) (rest' : Bytes), (∀ x ∈ xs, Fits x) → bs = xs.flatMap write ++ rest' →
          L.readFrame rest' = none → xs = ys)

theorem parsesAll {φ : Type*} {C : Codec φ} (hC : C.Canonical) (closes : Bool) (bs : Bytes) :
    ParsesAll ⟨C.toFormat, closes⟩ C.encode C.Fits bs := by
  intro as s hr
  obtain ⟨-, ⟨zs, k, hprefix, hevents, -⟩, hown⟩ :=
    transmits_readFrames ⟨C.toFormat, closes⟩ bs as s hr
  by_cases hall : Action.disconnect ∉ as ∧ Finished s
  · obtain ⟨k', -, hevents'⟩ := (hown hall.1).1 hall.2
    obtain ⟨rest, hbs, hnone, hfits⟩ := hC.exists_rest bs
    refine ⟨C.readFrames bs, k', rest, hevents', hfits, hbs, fun _ _ => ⟨hnone, ?_⟩⟩
    intro xs rest' hxs hbs' hnone'
    exact (Codec.readFrames_unique hxs hbs' hnone').symm
  · obtain ⟨hfits, rest, hbs⟩ := hC.beginning hprefix
    exact ⟨zs, k, rest, hevents, hfits, hbs.symm, fun ha hf => absurd ⟨ha, hf⟩ hall⟩

end Czrpc.StreamRoundTrip
