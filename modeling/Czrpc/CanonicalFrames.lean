import Czrpc.Framing

/-! Codecs whose frames have one writing each. A codec reads back what it has encoded; a canonical
one also encodes what it has read to the bytes it has read it from. Every byte stream is then the
frames of some values followed by the beginning of a frame, in one way only. -/
namespace Czrpc.Framing

theorem wordBytes_word {bs : Bytes} (h : bs.length = 4) : wordBytes (word bs) = bs := by
  match bs, h with
  | [b₀, b₁, b₂, b₃], _ =>
    have h₀ := b₀.toNat_lt
    have h₁ := b₁.toNat_lt
    have h₂ := b₂.toNat_lt
    have h₃ := b₃.toNat_lt
    simp only [wordBytes, word, UInt32.toNat_ofNat', List.cons.injEq, and_true]
    refine ⟨?_, ?_, ?_, ?_⟩
    all_goals
      apply UInt8.toNat_inj.mp
      rw [UInt8.toNat_ofNat']
      omega

theorem slice_length (bs : Bytes) (offset len : ℕ) (h : offset + len ≤ bs.length) :
    (slice bs offset len).length = len := by
  simp only [slice, List.length_take, List.length_drop]
  omega

theorem slice_join (bs : Bytes) (offset len len' : ℕ) :
    slice bs offset len ++ slice bs (offset + len) len' = slice bs offset (len + len') := by
  rw [slice, slice, slice, List.take_add, ← List.drop_drop]

theorem slice_join_zero (bs : Bytes) (len len' : ℕ) :
    slice bs 0 len ++ slice bs len len' = slice bs 0 (len + len') := by
  have hjoin := slice_join bs 0 len len'
  rwa [Nat.zero_add] at hjoin

theorem slice_all {bs : Bytes} {len : ℕ} (h : bs.length = len) : slice bs 0 len = bs := by
  rw [slice, List.drop_zero, ← h, List.take_length]

theorem wordBytes_slice {bs : Bytes} {offset : ℕ} (h : offset + 4 ≤ bs.length) :
    wordBytes (word (slice bs offset 4)) = slice bs offset 4 := wordBytes_word (slice_length bs offset 4 h)

theorem Format.readFrames_mono {φ : Type*} (F : Format φ) (bs more : Bytes) :
    F.readFrames bs <+: F.readFrames (bs ++ more) := by
  induction hn : bs.length using Nat.strongRecOn generalizing bs with
  | ind n ih =>
    cases hf : F.readFrame bs with
    | none =>
      rw [F.readFrames_none hf]
      exact List.nil_prefix
    | some found =>
      obtain ⟨x, rest⟩ := found
      have hshorter := F.readFrame_shorter hf
      have hrest := ih rest.length (hn ▸ hshorter) rest rfl
      rw [F.readFrames_cons hf]
      obtain ⟨head, content, rfl, hh, hc, rfl⟩ := F.readFrame_eq_some hf
      have hlonger := F.readFrame_append hh hc (rest ++ more)
      rw [← List.append_assoc] at hlonger
      rw [F.readFrames_cons hlonger]
      exact (List.prefix_cons_inj _).mpr hrest

/-- The same frames, with a value for each that depends on the value it had. -/
def Format.map {φ ψ : Type*} (F : Format φ) (f : φ → ψ) : Format ψ where
  headLen := F.headLen
  headLen_pos := F.headLen_pos
  contentLen := F.contentLen
  decode head content := f (F.decode head content)

theorem Format.readFrame_map {φ ψ : Type*} (F : Format φ) (f : φ → ψ) (bs : Bytes) :
    (F.map f).readFrame bs = (F.readFrame bs).map fun found => (f found.1, found.2) := by
  simp only [Format.readFrame, Format.map]
  cases readExact F.headLen bs with
  | none => rfl
  | some cut =>
    obtain ⟨head, rest⟩ := cut
    dsimp only
    cases readExact (F.contentLen head) rest with
    | none => rfl
    | some cut => rfl

theorem Format.readFrames_map {φ ψ : Type*} (F : Format φ) (f : φ → ψ) (bs : Bytes) :
    (F.map f).readFrames bs = (F.readFrames bs).map f := by
  induction hn : bs.length using Nat.strongRecOn generalizing bs with
  | ind n ih =>
    have hmap := F.readFrame_map f bs
    cases hf : F.readFrame bs with
    | none =>
      rw [hf] at hmap
      rw [F.readFrames_none hf, (F.map f).readFrames_none hmap, List.map_nil]
    | some found =>
      obtain ⟨x, rest⟩ := found
      have hshorter := F.readFrame_shorter hf
      rw [hf] at hmap
      rw [F.readFrames_cons hf, (F.map f).readFrames_cons hmap, ih rest.length (hn ▸ hshorter) rest rfl,
        List.map_cons]

namespace Codec
variable {φ : Type*} (C : Codec φ)

/-- The value of a frame has that frame. -/
def Canonical : Prop :=
  ∀ head content, head.length = C.headLen → content.length = C.contentLen head →
    C.Fits (C.decode head content) ∧ C.head (C.decode head content) = head ∧
      C.content (C.decode head content) = content

variable {C}

theorem readFrames_all {xs : List φ} (hx : ∀ x ∈ xs, C.Fits x) :
    C.readFrames (xs.flatMap C.encode) = xs := by
  have hshort : ([] : Bytes).length < C.headLen := C.headLen_pos
  have hwhole := C.readFrames_encode hx []
  rwa [List.append_nil, C.readFrames_head_cut hshort, List.append_nil] at hwhole

theorem Canonical.readFrame_iff (hC : C.Canonical) {bs rest : Bytes} {x : φ} :
    C.readFrame bs = some (x, rest) ↔ C.Fits x ∧ bs = C.encode x ++ rest := by
  constructor
  · intro h
    obtain ⟨head, content, rfl, hh, hc, rfl⟩ := C.readFrame_eq_some h
    obtain ⟨hfits, hhead, hcontent⟩ := hC head content hh hc
    exact ⟨hfits, by rw [encode, hhead, hcontent]⟩
  · rintro ⟨hfits, rfl⟩
    exact C.readFrame_encode hfits rest

theorem Canonical.exists_rest (hC : C.Canonical) (bs : Bytes) :
    ∃ rest, bs = (C.readFrames bs).flatMap C.encode ++ rest ∧ C.readFrame rest = none ∧
      ∀ x ∈ C.readFrames bs, C.Fits x := by
  induction hn : bs.length using Nat.strongRecOn generalizing bs with
  | ind n ih =>
    cases hr : C.readFrame bs with
    | none =>
      rw [C.readFrames_none hr]
      exact ⟨bs, rfl, hr, nofun⟩
    | some r =>
      obtain ⟨x, tail⟩ := r
      have hshorter := C.readFrame_shorter hr
      obtain ⟨hfits, hbs⟩ := hC.readFrame_iff.mp hr
      obtain ⟨rest, htail, hnone, hall⟩ := ih tail.length (by omega) tail rfl
      rw [C.readFrames_cons hr]
      refine ⟨rest, ?_, hnone, ?_⟩
      · rw [List.flatMap_cons, List.append_assoc, ← htail, ← hbs]
      · exact List.forall_mem_cons.mpr ⟨hfits, hall⟩

/-- There is no other way to write a stream as frames followed by no frame. -/
theorem readFrames_unique {bs rest : Bytes} {xs : List φ} (hx : ∀ x ∈ xs, C.Fits x)
    (hbs : bs = xs.flatMap C.encode ++ rest) (hrest : C.readFrame rest = none) :
    C.readFrames bs = xs := by
  rw [hbs, C.readFrames_encode hx, C.readFrames_none hrest, List.append_nil]

theorem Canonical.beginning (hC : C.Canonical) {bs : Bytes} {ys : List φ}
    (hy : ys <+: C.readFrames bs) :
    (∀ y ∈ ys, C.Fits y) ∧ ys.flatMap C.encode <+: bs := by
  obtain ⟨zs, hzs⟩ := hy
  obtain ⟨rest, hbs, -, hall⟩ := hC.exists_rest bs
  rw [← hzs] at hbs hall
  refine ⟨fun y hm => hall y (List.mem_append_left _ hm), zs.flatMap C.encode ++ rest, ?_⟩
  rw [← List.append_assoc, ← List.flatMap_append]
  exact hbs.symm

end Codec
end Czrpc.Framing
