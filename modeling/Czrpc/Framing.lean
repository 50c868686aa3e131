import Mathlib.Algebra.GroupWithZero.Nat
import Mathlib.Data.List.Basic
import Mathlib.Tactic.Common

/-! Length-prefixed frames in a byte stream. A frame is a head of fixed size
followed by a content whose size the head announces; nothing delimits one frame
from the next. A codec packs an encoder with the reader of its frames and the
proof that the reader undoes it, for the values whose lengths the head can
announce. -/
namespace Czrpc.Framing

abbrev Bytes := List UInt8

def wordBytes (w : UInt32) : Bytes :=
  [UInt8.ofNat w.toNat, UInt8.ofNat (w.toNat / 2 ^ 8), UInt8.ofNat (w.toNat / 2 ^ 16),
    UInt8.ofNat (w.toNat / 2 ^ 24)]

def word : Bytes → UInt32
  | b₀ :: b₁ :: b₂ :: b₃ :: _ =>
      UInt32.ofNat (b₀.toNat + 2 ^ 8 * b₁.toNat + 2 ^ 16 * b₂.toNat + 2 ^ 24 * b₃.toNat)
  | _ => 0

@[simp] theorem wordBytes_length (w : UInt32) : (wordBytes w).length = 4 := rfl

@[simp] theorem word_wordBytes (w : UInt32) (rest : Bytes) : word (wordBytes w ++ rest) = w := by
  have hw := w.toNat_lt
  apply UInt32.toNat_inj.mp
  simp only [wordBytes, List.cons_append, List.nil_append, word, UInt32.toNat_ofNat',
    UInt8.toNat_ofNat']
  omega

def slice (bs : Bytes) (offset len : ℕ) : Bytes := (bs.drop offset).take len

theorem slice_append (as bs cs : Bytes) (offset len : ℕ) (ho : as.length = offset)
    (hl : bs.length = len) : slice (as ++ (bs ++ cs)) offset len = bs := by
  simp [slice, ← ho, ← hl]

theorem word_slice (as cs : Bytes) (w : UInt32) (offset : ℕ) (ho : as.length = offset) :
    word (slice (as ++ (wordBytes w ++ cs)) offset 4) = w := by
  rw [slice_append as (wordBytes w) cs offset 4 ho (wordBytes_length w)]
  simpa using word_wordBytes w []

theorem two_words (a b : UInt32) (cs : Bytes) :
    word (slice (wordBytes a ++ (wordBytes b ++ cs)) 0 4) = a ∧
      word (slice (wordBytes a ++ (wordBytes b ++ cs)) 4 4) = b :=
  ⟨word_slice [] (wordBytes b ++ cs) a 0 rfl, word_slice (wordBytes a) cs b 4 rfl⟩

theorem three_words (a b c : UInt32) (ds : Bytes) :
    word (slice (wordBytes a ++ (wordBytes b ++ (wordBytes c ++ ds))) 0 4) = a ∧
      word (slice (wordBytes a ++ (wordBytes b ++ (wordBytes c ++ ds))) 4 4) = b ∧
      word (slice (wordBytes a ++ (wordBytes b ++ (wordBytes c ++ ds))) 8 4) = c := by
  obtain ⟨ha, hb⟩ := two_words a b (wordBytes c ++ ds)
  have hc := word_slice (wordBytes a ++ wordBytes b) ds c 8 rfl
  rw [List.append_assoc] at hc
  exact ⟨ha, hb, hc⟩

theorem two_strings (fixed m b : Bytes) (k : ℕ) (hk : fixed.length = k) :
    slice (fixed ++ (m ++ b)) k m.length = m ∧
      slice (fixed ++ (m ++ b)) (k + m.length) b.length = b := by
  refine ⟨slice_append fixed m b k m.length hk rfl, ?_⟩
  have hb := slice_append (fixed ++ m) b [] (k + m.length) b.length (by simp [hk]) rfl
  simpa using hb

theorem three_strings (fixed p m b : Bytes) (k : ℕ) (hk : fixed.length = k) :
    slice (fixed ++ (p ++ (m ++ b))) k p.length = p ∧
      slice (fixed ++ (p ++ (m ++ b))) (k + p.length) m.length = m ∧
      slice (fixed ++ (p ++ (m ++ b))) (k + p.length + m.length) b.length = b := by
  refine ⟨slice_append fixed p (m ++ b) k p.length hk rfl, ?_⟩
  have hmb := two_strings (fixed ++ p) m b (k + p.length) (by simp [hk])
  rwa [List.append_assoc] at hmb

/-- A read that fills a buffer of `n` bytes or fails for lack of them. -/
def readExact (n : ℕ) (bs : Bytes) : Option (Bytes × Bytes) :=
  if n ≤ bs.length then some (bs.take n, bs.drop n) else none

theorem readExact_append (as bs : Bytes) (n : ℕ) (h : as.length = n) :
    readExact n (as ++ bs) = some (as, bs) := by
  simp [readExact, ← h]

theorem readExact_eq_none {n : ℕ} {bs : Bytes} (h : bs.length < n) : readExact n bs = none :=
  if_neg (Nat.not_le_of_lt h)

theorem readExact_eq_some {n : ℕ} {bs as rest : Bytes} (h : readExact n bs = some (as, rest)) :
    bs = as ++ rest ∧ as.length = n := by
  unfold readExact at h
  split_ifs at h with hn
  simp only [Option.some.injEq, Prod.mk.injEq] at h
  obtain ⟨rfl, rfl⟩ := h
  exact ⟨(List.take_append_drop n bs).symm, by simp [hn]⟩

/-- How a receiver reads frames: the size of a head, the content size a head
announces, and the value of a head with its content. -/
structure Format (φ : Type*) where
  headLen : ℕ
  headLen_pos : 0 < headLen
  contentLen : Bytes → ℕ
  decode : Bytes → Bytes → φ

namespace Format
variable {φ : Type*} (F : Format φ)

def readFrame (bs : Bytes) : Option (φ × Bytes) :=
  match readExact F.headLen bs with
  | none => none
  | some (head, rest) =>
    match readExact (F.contentLen head) rest with
    | none => none
    | some (content, rest) => some (F.decode head content, rest)

theorem readFrame_eq_some {bs rest : Bytes} {x : φ} (h : F.readFrame bs = some (x, rest)) :
    ∃ head content, bs = head ++ content ++ rest ∧ head.length = F.headLen ∧
      content.length = F.contentLen head ∧ x = F.decode head content := by
  unfold readFrame at h
  split at h
  · cases h
  · rename_i head rest' hh
    split at h
    · cases h
    · rename_i content rest'' hc
      simp only [Option.some.injEq, Prod.mk.injEq] at h
      obtain ⟨rfl, rfl⟩ := h
      obtain ⟨rfl, hl⟩ := readExact_eq_some hh
      obtain ⟨rfl, hl'⟩ := readExact_eq_some hc
      exact ⟨head, content, by simp, hl, hl', rfl⟩

theorem readFrame_shorter {bs rest : Bytes} {x : φ} (h : F.readFrame bs = some (x, rest)) :
    rest.length < bs.length := by
  obtain ⟨head, content, rfl, hl, -, -⟩ := F.readFrame_eq_some h
  have := F.headLen_pos
  simp only [List.length_append]
  omega

/-- The receiver's loop: frame after frame until a read fails. -/
def readFrames (bs : Bytes) : List φ :=
  match _h : F.readFrame bs with
  | none => []
  | some (x, rest) => x :: readFrames rest
termination_by bs.length
decreasing_by exact F.readFrame_shorter _h

theorem readFrames_cons {bs rest : Bytes} {x : φ} (h : F.readFrame bs = some (x, rest)) :
    F.readFrames bs = x :: F.readFrames rest := by
  rw [readFrames]
  split <;> simp_all

theorem readFrames_none {bs : Bytes} (h : F.readFrame bs = none) : F.readFrames bs = [] := by
  rw [readFrames]
  split <;> simp_all

theorem readFrame_append {head content : Bytes} (hh : head.length = F.headLen)
    (hc : content.length = F.contentLen head) (rest : Bytes) :
    F.readFrame (head ++ content ++ rest) = some (F.decode head content, rest) := by
  have hhead := readExact_append head (content ++ rest) F.headLen hh
  have hcontent := readExact_append content rest (F.contentLen head) hc
  rw [List.append_assoc, readFrame, hhead]
  simp only [hcontent]

/-- The loop has read `ys` from the bytes `bs` and goes on with `rest`, whatever follows. -/
def Reads (bs : Bytes) (ys : List φ) (rest : Bytes) : Prop :=
  ∀ more, F.readFrames (bs ++ more) = ys ++ F.readFrames (rest ++ more)

theorem reads_refl (bs : Bytes) : F.Reads bs [] bs := fun _ => rfl

variable {F} in
theorem Reads.append {bs rest : Bytes} {ys : List φ} (h : F.Reads bs ys rest) (new : Bytes) :
    F.Reads (bs ++ new) ys (rest ++ new) := by
  intro more
  rw [List.append_assoc, List.append_assoc]
  exact h (new ++ more)

variable {F} in
theorem Reads.readFrames_eq {bs rest : Bytes} {ys : List φ} (h : F.Reads bs ys rest) :
    F.readFrames bs = ys ++ F.readFrames rest := by
  have hnil := h []
  rwa [List.append_nil, List.append_nil] at hnil

variable {F} in
theorem Reads.snoc {bs head content rest : Bytes} {ys : List φ}
    (h : F.Reads bs ys (head ++ content ++ rest)) (hh : head.length = F.headLen)
    (hc : content.length = F.contentLen head) :
    F.Reads bs (ys ++ [F.decode head content]) rest := by
  intro more
  have hframe := F.readFrame_append hh hc (rest ++ more)
  rw [h more, List.append_assoc (head ++ content), F.readFrames_cons hframe, List.append_assoc ys,
    List.singleton_append]

theorem readFrames_head_cut {bs : Bytes} (h : bs.length < F.headLen) : F.readFrames bs = [] := by
  apply F.readFrames_none
  rw [readFrame, readExact_eq_none h]

theorem readFrames_content_cut {head content : Bytes} (hh : head.length = F.headLen)
    (hc : content.length < F.contentLen head) : F.readFrames (head ++ content) = [] := by
  apply F.readFrames_none
  rw [readFrame, readExact_append head content F.headLen hh]
  simp only [readExact_eq_none hc]

end Format

/-- A format with an encoder it reads back. `Fits` singles out the values whose
lengths the head has room for. -/
structure Codec (φ : Type*) extends Format φ where
  head : φ → Bytes
  content : φ → Bytes
  Fits : φ → Prop
  head_length : ∀ x, (head x).length = headLen
  contentLen_head : ∀ x, Fits x → contentLen (head x) = (content x).length
  decode_encode : ∀ x, Fits x → decode (head x) (content x) = x

namespace Codec
variable {φ : Type*} (C : Codec φ)

def encode (x : φ) : Bytes := C.head x ++ C.content x

theorem readFrame_encode {x : φ} (hx : C.Fits x) (rest : Bytes) :
    C.readFrame (C.encode x ++ rest) = some (x, rest) := by
  have hh : readExact C.headLen (C.head x ++ (C.content x ++ rest)) =
      some (C.head x, C.content x ++ rest) := readExact_append _ _ _ (C.head_length x)
  have hc : readExact (C.contentLen (C.head x)) (C.content x ++ rest) =
      some (C.content x, rest) := readExact_append _ _ _ (C.contentLen_head x hx).symm
  simp [encode, Format.readFrame, hh, hc, C.decode_encode x hx]

theorem decode_of_append {x : φ} (hx : C.Fits x) {head content rest : Bytes}
    (hh : head.length = C.headLen) (hc : content.length = C.contentLen head)
    (h : head ++ content ++ rest = C.encode x) : C.decode head content = x ∧ rest = [] := by
  rw [encode, List.append_assoc] at h
  obtain ⟨rfl, htail⟩ := List.append_inj h (hh.trans (C.head_length x).symm)
  have hlen : content.length = (C.content x).length := hc.trans (C.contentLen_head x hx)
  obtain ⟨rfl, hrest⟩ := List.append_inj (htail.trans (List.append_nil _).symm) hlen
  exact ⟨C.decode_encode x hx, hrest⟩

/-- The loop delivers the encoded values, then goes on with what follows them. -/
theorem readFrames_encode {xs : List φ} (hx : ∀ x ∈ xs, C.Fits x) (rest : Bytes) :
    C.readFrames (xs.flatMap C.encode ++ rest) = xs ++ C.readFrames rest := by
  induction xs with
  | nil => rfl
  | cons x xs ih =>
    have hr := C.readFrame_encode (hx x (by simp)) (xs.flatMap C.encode ++ rest)
    rw [List.flatMap_cons, List.append_assoc, C.readFrames_cons hr,
      ih fun y hy => hx y (by simp [hy]), List.cons_append]

/-- The values whose frames lie wholly in the first `n` bytes of the stream of all. -/
def within : List φ → ℕ → List φ
  | [], _ => []
  | x :: xs, n =>
      if (C.encode x).length ≤ n then x :: within xs (n - (C.encode x).length) else []

theorem within_eq_take (xs : List φ) (n : ℕ) :
    ∃ k ≤ xs.length, C.within xs n = xs.take k ∧
      ∀ j ≤ xs.length, ((xs.take j).flatMap C.encode).length ≤ n ↔ j ≤ k := by
  induction xs generalizing n with
  | nil =>
    refine ⟨0, Nat.le_refl 0, rfl, ?_⟩
    intro j hj
    have hj0 : j = 0 := Nat.le_zero.mp hj
    simp [hj0]
  | cons x xs ih =>
    unfold within
    split_ifs with hx
    · obtain ⟨k, hk, htake, hends⟩ := ih (n - (C.encode x).length)
      refine ⟨k + 1, Nat.succ_le_succ hk, by rw [htake, List.take_succ_cons], ?_⟩
      intro j hj
      cases j with
      | zero => simp
      | succ j =>
        have hrest := hends j (Nat.le_of_succ_le_succ hj)
        simp only [List.take_succ_cons, List.flatMap_cons, List.length_append]
        omega
    · refine ⟨0, Nat.zero_le _, rfl, ?_⟩
      intro j hj
      cases j with
      | zero => simp
      | succ j =>
        simp only [List.take_succ_cons, List.flatMap_cons, List.length_append]
        omega

theorem readFrame_cut {x : φ} (hx : C.Fits x) {bs : Bytes} (hp : bs <+: C.encode x)
    (hl : bs.length < (C.encode x).length) : C.readFrame bs = none := by
  obtain ⟨missing, hm⟩ := hp
  cases hr : C.readFrame bs with
  | none => rfl
  | some r =>
    obtain ⟨y, rest⟩ := r
    obtain ⟨head, content, hbs, hh, hc, -⟩ := C.readFrame_eq_some hr
    have hall : head ++ content ++ (rest ++ missing) = C.encode x := by
      rw [← hm, hbs, List.append_assoc (head ++ content)]
    obtain ⟨-, hnil⟩ := C.decode_of_append hx hh hc hall
    have hmissing : missing = [] := (List.append_eq_nil_iff.mp hnil).2
    rw [hmissing, List.append_nil] at hm
    rw [hm] at hl
    exact absurd hl (Nat.lt_irrefl _)

/-- From any beginning of a stream the loop delivers the values whose frames lie wholly
inside of it. -/
theorem readFrames_beginning {xs : List φ} (hx : ∀ x ∈ xs, C.Fits x) {bs : Bytes}
    (hp : bs <+: xs.flatMap C.encode) : C.readFrames bs = C.within xs bs.length := by
  induction xs generalizing bs with
  | nil =>
    obtain rfl : bs = [] := List.prefix_nil.mp hp
    exact C.readFrames_head_cut C.headLen_pos
  | cons x xs ih =>
    rw [List.flatMap_cons] at hp
    unfold within
    split_ifs with hl
    · obtain ⟨rest, rfl⟩ := List.prefix_of_prefix_length_le (List.prefix_append _ _) hp hl
      have hrest : rest <+: xs.flatMap C.encode := (List.prefix_append_right_inj _).mp hp
      have htail := ih (fun y hy => hx y (List.mem_cons_of_mem _ hy)) hrest
      rw [C.readFrames_cons (C.readFrame_encode (hx x List.mem_cons_self) rest), htail,
        List.length_append, Nat.add_sub_cancel_left]
    · have hcut : bs <+: C.encode x := List.prefix_of_prefix_length_le hp (List.prefix_append _ _)
        (Nat.le_of_lt (Nat.lt_of_not_le hl))
      exact C.readFrames_none (C.readFrame_cut (hx x List.mem_cons_self) hcut (Nat.lt_of_not_le hl))

end Codec

/-- The fields of the given lengths from a position on: where each begins, and its length. -/
def layout : ℕ → List ℕ → List (ℕ × ℕ)
  | _, [] => []
  | start, n :: ns => (start, n) :: layout (start + n) ns

theorem layout_inside {start : ℕ} {ns : List ℕ} {f : ℕ × ℕ} (h : f ∈ layout start ns) :
    start ≤ f.1 ∧ f.1 + f.2 ≤ start + ns.sum := by
  induction ns generalizing start with
  | nil => cases h
  | cons n ns ih =>
    rw [List.sum_cons]
    rcases List.mem_cons.mp h with rfl | htail
    · exact ⟨Nat.le_refl start, by omega⟩
    · have hf := ih htail
      omega

theorem layout_begins_inside_iff (start : ℕ) (ns : List ℕ) (last : ℕ) :
    (∀ f ∈ layout start (ns ++ [last]), f.1 < start + (ns ++ [last]).sum) ↔ 0 < last := by
  induction ns generalizing start with
  | nil => simp [layout]
  | cons n ns ih =>
    have htail := ih (start + n)
    simp only [List.cons_append, layout, List.forall_mem_cons, List.sum_cons]
    rw [← Nat.add_assoc, htail]
    constructor
    · exact fun h => h.2
    · intro hlast
      refine ⟨?_, hlast⟩
      simp only [List.sum_append, List.sum_singleton]
      omega

end Czrpc.Framing
