import Czrpc.ReadLoop

/-! What a read loop delivers: the frames that can be read from its stream, in order, and
then one error, or two where the stream ends inside of a content. -/
namespace Czrpc.ReadLoop
open Execution Framing

variable {φ : Type*} {L : Loop φ}

def Dry (s : State φ) : Prop := s.isOpen = false ∨ s.ended = true ∧ s.stream = []

variable (L) in
/-- Where a loop stands that was started on `bs` and whose socket no other thread has
closed. As long as no read has failed, the frames delivered and the bytes that are in the
buffers or on their way make up `bs`. -/
inductive Phase (bs : Bytes) (s : State φ) : Prop
  | head {ys : List φ} (hr : s.reading = some .head) (hp : s.pc = .idle) (ho : s.isOpen = true)
      (he : s.events = ys.map .frame) (hl : s.headBuf.length ≤ L.headLen)
      (hb : L.Reads bs ys (s.headBuf ++ s.stream)) : Phase bs s
  | content {ys : List φ} (hr : s.reading = some .content) (hp : s.pc = .idle)
      (ho : s.isOpen = true) (he : s.events = ys.map .frame) (hh : s.head.length = L.headLen)
      (hl : s.content.length ≤ L.contentLen s.head)
      (hb : L.Reads bs ys (s.head ++ s.content ++ s.stream)) : Phase bs s
  | rearmed {ys : List φ} (hr : s.reading = some .head) (hp : s.pc = .rearmed false)
      (ho : s.isOpen = true) (he : s.events = ys.map .frame) (hh : s.head.length = L.headLen)
      (hc : s.content.length = L.contentLen s.head) (hl : s.headBuf.length ≤ L.headLen)
      (hb : L.Reads bs ys (s.head ++ s.content ++ (s.headBuf ++ s.stream))) : Phase bs s
  | cut (hr : s.reading = some .head) (hp : s.pc = .rearmed true) (hd : Dry s)
      (he : s.events = (L.readFrames bs).map .frame) (hl : s.headBuf = []) : Phase bs s
  | failing (hr : s.reading = some .head) (hp : s.pc = .idle) (hd : Dry s)
      (he : s.events = (L.readFrames bs).map .frame ++ [.error]) (hl : s.headBuf = []) : Phase bs s
  | done {k : ℕ} (hr : s.reading = none) (hp : s.pc = .idle) (hk : k = 1 ∨ k = 2)
      (he : s.events = (L.readFrames bs).map .frame ++ List.replicate k .error) : Phase bs s

variable (L) in
theorem start_phase (bs : Bytes) (ended : Bool) : Phase L bs (start bs ended) := by
  have hnone : (start bs ended : State φ).events = ([] : List φ).map .frame := rfl
  exact .head rfl rfl rfl hnone (Nat.zero_le _) (L.reads_refl bs)

theorem Dry.handleError {s : State φ} (h : Dry s) : Dry (handleError L s) := by
  unfold ReadLoop.handleError
  split
  · exact Or.inl rfl
  · exact h

theorem Dry.stream_length {s : State φ} (h : Dry s) (ho : s.isOpen = true) : s.stream.length = 0 := by
  rcases h with hclosed | ⟨-, hnil⟩
  · rw [ho] at hclosed
    cases hclosed
  · rw [hnil, List.length_nil]

theorem transfer_phase {bs : Bytes} {s : State φ} {r : Read} {k : ℕ} (h : Phase L bs s)
    (hr : s.reading = some r) (ho : s.isOpen = true) (hk : 0 < k) (hs : k ≤ s.stream.length)
    (hl : (s.buffer r).length + k ≤ size L s r) : Phase L bs (transfer s r k) := by
  have hmove : ∀ buf : Bytes, buf ++ s.stream.take k ++ s.stream.drop k = buf ++ s.stream := by
    intro buf
    rw [List.append_assoc, List.take_append_drop]
  have hlen : ∀ buf : Bytes, (buf ++ s.stream.take k).length = buf.length + k := by
    intro buf
    rw [List.length_append, List.length_take, Nat.min_eq_left hs]
  cases h with
  | head hr' hp _ he _ hb =>
    obtain rfl : r = .head := Option.some.inj (hr.symm.trans hr')
    refine .head hr' hp ho he ?_ ?_
    · exact Nat.le_trans (Nat.le_of_eq (hlen s.headBuf)) hl
    · exact (hmove s.headBuf).symm ▸ hb
  | content hr' hp _ he hh _ hb =>
    obtain rfl : r = .content := Option.some.inj (hr.symm.trans hr')
    refine .content hr' hp ho he hh ?_ ?_
    · exact Nat.le_trans (Nat.le_of_eq (hlen s.content)) hl
    · change L.Reads bs _ (s.head ++ (s.content ++ s.stream.take k) ++ s.stream.drop k)
      rw [List.append_assoc, hmove, ← List.append_assoc]
      exact hb
  | rearmed hr' hp _ he hh hc _ hb =>
    obtain rfl : r = .head := Option.some.inj (hr.symm.trans hr')
    refine .rearmed hr' hp ho he hh hc ?_ ?_
    · exact Nat.le_trans (Nat.le_of_eq (hlen s.headBuf)) hl
    · change L.Reads bs _ (s.head ++ s.content ++ (s.headBuf ++ s.stream.take k ++ s.stream.drop k))
      rw [hmove]
      exact hb
  | cut _ _ hd =>
    have := hd.stream_length ho
    omega
  | failing _ _ hd =>
    have := hd.stream_length ho
    omega
  | done hr' =>
    rw [hr] at hr'
    cases hr'

theorem step_phase {bs : Bytes} {s t : State φ} {a : Action} (hs : Phase L bs s)
    (hok : a ≠ .disconnect) (h : step L s a = some t) : Phase L bs t := by
  have hpos := L.headLen_pos
  cases step_effect h with
  | transfer hr ho hk hst hl => exact transfer_phase hs hr ho hk hst hl
  | headDone hr hp ho hl =>
    cases hs with
    | head _ _ _ he hle hb =>
      refine .content rfl hp ho he (Nat.le_antisymm hle hl) (Nat.zero_le _) ?_
      change L.Reads bs _ (s.headBuf ++ [] ++ s.stream)
      rw [List.append_nil]
      exact hb
    | failing _ _ _ _ hnil =>
      rw [hnil] at hl
      exact absurd hl (Nat.not_le_of_lt hpos)
    | content hr' | done hr' =>
      rw [hr] at hr'
      cases hr'
    | rearmed _ hp' | cut _ hp' =>
      rw [hp] at hp'
      cases hp'
  | headFailed hr hp hf =>
    cases hs with
    | head _ _ ho he _ hb =>
      obtain ⟨hl, -, hnil⟩ : s.headBuf.length < L.headLen ∧ s.ended = true ∧ s.stream = [] :=
        hf.resolve_left (by simp [ho])
      have hframes := hb.readFrames_eq
      rw [hnil, List.append_nil, L.readFrames_head_cut hl, List.append_nil] at hframes
      exact .done (k := 1) (by simp) (by simp [hp]) (Or.inl rfl) (by simp [he, hframes])
    | failing _ _ _ he _ =>
      exact .done (k := 2) (by simp) (by simp [hp]) (Or.inr rfl) (by simp [he, List.replicate_succ])
    | content hr' | done hr' =>
      rw [hr] at hr'
      cases hr'
    | rearmed _ hp' | cut _ hp' =>
      rw [hp] at hp'
      cases hp'
  | contentDone hr hp hl =>
    cases hs with
    | content _ _ ho he hh hle hb =>
      exact .rearmed rfl rfl ho he hh (Nat.le_antisymm hle hl) (Nat.zero_le _) hb
    | head hr' | rearmed hr' | cut hr' | failing hr' | done hr' =>
      rw [hr] at hr'
      cases hr'
  | contentFailed hr hp hl hf =>
    cases hs with
    | content _ _ ho he hh _ hb =>
      obtain ⟨-, hnil⟩ : s.ended = true ∧ s.stream = [] := hf.resolve_left (by simp [ho])
      have hframes := hb.readFrames_eq
      rw [hnil, List.append_nil, L.readFrames_content_cut hh hl, List.append_nil] at hframes
      exact .cut rfl rfl hf (by simp [readHead, he, hframes]) rfl
    | head hr' | rearmed hr' | cut hr' | failing hr' | done hr' =>
      rw [hr] at hr'
      cases hr'
  | delivered hp ho =>
    cases hs with
    | rearmed hr _ _ he hh hc hl hb =>
      exact .head hr rfl ho (by simp [he]) hl (hb.snoc hh hc)
    | head _ hp' | content _ hp' | cut _ hp' | failing _ hp' | done _ hp' =>
      rw [hp] at hp'
      cases hp'
  | failed hp hf =>
    cases hs with
    | cut hr _ hd he hl =>
      have hd' : Dry { s with pc := .idle } := hd
      exact .failing (by simp [hr]) (by simp) hd'.handleError (by simp [he]) (by simp [hl])
    | rearmed _ hp' ho =>
      rw [hp] at hp'
      obtain rfl := Pc.rearmed.inj hp'
      rw [ho] at hf
      simp at hf
    | head _ hp' | content _ hp' | failing _ hp' | done _ hp' =>
      rw [hp] at hp'
      cases hp'
  | disconnect ho => exact absurd rfl hok

def Finished (s : State φ) : Prop := s.reading = none ∧ s.pc = .idle

/-- The first ones of `ys` have been delivered, then come errors, and a loop that has
finished has reported one. -/
def Delivered (ys : List φ) (s : State φ) : Prop :=
  ∃ zs k, zs <+: ys ∧ s.events = zs.map .frame ++ List.replicate k .error ∧
    (s.reading = none → 0 < k)

theorem Phase.delivered {bs : Bytes} {s : State φ} (h : Phase L bs s) :
    Delivered (L.readFrames bs) s := by
  cases h with
  | @head ys hr _ _ he _ hb =>
    exact ⟨ys, 0, ⟨_, hb.readFrames_eq.symm⟩, by simp [he], by simp [hr]⟩
  | @content ys hr _ _ he _ _ hb =>
    exact ⟨ys, 0, ⟨_, hb.readFrames_eq.symm⟩, by simp [he], by simp [hr]⟩
  | @rearmed ys hr _ _ he _ _ _ hb =>
    exact ⟨ys, 0, ⟨_, hb.readFrames_eq.symm⟩, by simp [he], by simp [hr]⟩
  | cut hr _ _ he _ => exact ⟨_, 0, List.prefix_rfl, by simp [he], by simp [hr]⟩
  | failing hr _ _ he _ => exact ⟨_, 1, List.prefix_rfl, by simp [he], by simp [hr]⟩
  | @done k hr _ hk he => exact ⟨_, k, List.prefix_rfl, he, fun _ => by omega⟩

theorem step_closed {ys : List φ} {s t : State φ} {a : Action} (hs : Delivered ys s)
    (ho : s.isOpen = false) (h : step L s a = some t) : Delivered ys t ∧ t.isOpen = false := by
  obtain ⟨zs, k, hp, he, hk⟩ := hs
  have herror : s.events ++ [.error] = zs.map .frame ++ List.replicate (k + 1) .error := by
    rw [he, List.append_assoc, ← List.replicate_succ']
  cases step_effect h with
  | headFailed hr hpc hf =>
    exact ⟨⟨zs, k + 1, hp, by simp [herror], fun _ => Nat.succ_pos k⟩, handleError_isOpen _ ho⟩
  | contentDone | contentFailed => exact ⟨⟨zs, k, hp, he, by simp [readHead]⟩, ho⟩
  | failed hpc hf =>
    exact ⟨⟨zs, k + 1, hp, by simp [herror], fun _ => Nat.succ_pos k⟩, handleError_isOpen _ ho⟩
  | transfer _ ho' | headDone _ _ ho' | delivered _ ho' | disconnect ho' =>
    rw [ho] at ho'
    cases ho'

variable (L) in
/-- The loop stands where the stream has brought it, or its socket has been closed. -/
def Inv (bs : Bytes) (s : State φ) : Prop :=
  Phase L bs s ∨ Delivered (L.readFrames bs) s ∧ s.isOpen = false

theorem step_inv {bs : Bytes} {s t : State φ} {a : Action} (hs : Inv L bs s)
    (h : step L s a = some t) : Inv L bs t := by
  rcases hs with hphase | ⟨hd, ho⟩
  · by_cases ha : a = .disconnect
    · subst ha
      cases step_effect h with
      | disconnect ho => exact Or.inr ⟨hphase.delivered, rfl⟩
    · exact Or.inl (step_phase hphase ha h)
  · exact Or.inr (step_closed hd ho h)

theorem exists_step {bs : Bytes} {s : State φ} (hs : Phase L bs s) (hend : s.ended = true)
    (hf : ¬ Finished s) : ∃ a t, a ≠ .disconnect ∧ step L s a = some t := by
  have hread : ∀ r, s.reading = some r → s.pc = .idle →
      ∃ a t, a ≠ .disconnect ∧ step L s a = some t := by
    intro r hr hp
    by_cases hfull : size L s r ≤ (s.buffer r).length
    · exact ⟨.complete, handler L s r false, by simp, by simp [step, hr, hp, hfull]⟩
    · by_cases hdry : s.isOpen = false ∨ s.ended = true ∧ s.stream = []
      · exact ⟨.complete, handler L s r true, by simp, by simp [step, hr, hp, hfull, hdry]⟩
      · have ho : s.isOpen = true := by simpa using fun h => hdry (Or.inl h)
        have hne : s.stream ≠ [] := fun h => hdry (Or.inr ⟨hend, h⟩)
        have hlen : 0 < s.stream.length := List.length_pos_iff.mpr hne
        have hroom : (s.buffer r).length + 1 ≤ size L s r := Nat.lt_of_not_le hfull
        refine ⟨.transfer 1, transfer s r 1, by simp, ?_⟩
        simp only [step, hr]
        rw [if_pos ⟨ho, Nat.one_pos, hlen, hroom⟩]
  have hresume : ∀ ec, s.pc = .rearmed ec → ∃ a t, a ≠ .disconnect ∧ step L s a = some t :=
    fun ec hp => ⟨.resume, deliver L { s with pc := .idle } ec, by simp, by simp only [step, hp]⟩
  cases hs with
  | head hr hp | content hr hp | failing hr hp => exact hread _ hr hp
  | rearmed _ hp | cut _ hp => exact hresume _ hp
  | done hr hp => exact absurd ⟨hr, hp⟩ hf

variable (L) in
/-- What every run of a loop does on the stream `bs`: it takes no more steps than there is
work; it delivers the first ones of `ys` before it reports errors; and unless its socket
is closed by another thread, it goes on until it has delivered all of them and reported
an error. -/
def Transmits (bs : Bytes) (ys : List φ) : Prop :=
  ∀ as s, run (step L) (start bs true) as = some s →
    as.length ≤ 9 * bs.length + 2 ∧ Delivered ys s ∧
    (Action.disconnect ∉ as →
      (Finished s → ∃ k, (k = 1 ∨ k = 2) ∧
        s.events = ys.map .frame ++ List.replicate k .error) ∧
      ∃ more t, Action.disconnect ∉ more ∧ run (step L) s more = some t ∧ Finished t)

variable (L) in
theorem transmits_readFrames (bs : Bytes) : Transmits L bs (L.readFrames bs) := by
  intro as s hr
  have hwork := run_length_le (fun _ _ _ => step_work) hr
  have hinv : Inv L bs s := run_invariant (fun _ _ _ => step_inv) (Or.inl (start_phase L bs true)) hr
  refine ⟨?_, ?_, ?_⟩
  · rw [work_start] at hwork
    omega
  · rcases hinv with hphase | ⟨hd, -⟩
    · exact hphase.delivered
    · exact hd
  · intro hown
    have hphase : Phase L bs s ∧ s.ended = true := by
      have hc : Conforms (step L) (fun _ a => a ≠ .disconnect) (start bs true) as := by
        apply conforms_of_forall
        rintro a ha _ rfl
        exact hown ha
      exact conforming_invariant (I := fun s => Phase L bs s ∧ s.ended = true)
        (fun _ _ _ hs hok h => ⟨step_phase hs.1 hok h, (step_ended h).trans hs.2⟩)
        ⟨start_phase L bs true, rfl⟩ hc hr
    constructor
    · rintro ⟨hnone, -⟩
      cases hphase.1 with
      | done _ _ hk he => exact ⟨_, hk, he⟩
      | head hr' | content hr' | rearmed hr' | cut hr' | failing hr' =>
        rw [hnone] at hr'
        cases hr'
    · have hgo : ∀ u, (Phase L bs u ∧ u.ended = true) → ¬ Finished u → ∃ a t, a ≠ .disconnect ∧
          step L u a = some t ∧ (Phase L bs t ∧ t.ended = true) ∧ work t < work u := by
        rintro u ⟨hu, hend⟩ hf
        obtain ⟨a, t, ha, ht⟩ := exists_step hu hend hf
        exact ⟨a, t, ha, ht, ⟨step_phase hu ha ht, (step_ended ht).trans hend⟩, step_work ht⟩
      obtain ⟨more, t, hmore, hrun, -, hfin⟩ := exists_run_done hgo hphase
      exact ⟨more, t, fun h => hmore _ h rfl, hrun, hfin⟩

theorem Transmits.exists_run {bs : Bytes} {ys : List φ} (h : Transmits L bs ys) :
    ∃ as s, run (step L) (start bs true) as = some s ∧
      ∃ k, (k = 1 ∨ k = 2) ∧ s.events = ys.map .frame ++ List.replicate k .error := by
  obtain ⟨-, -, hstart⟩ := h [] _ rfl
  obtain ⟨as, s, has, hrun, hfin⟩ := (hstart List.not_mem_nil).2
  obtain ⟨-, -, hown⟩ := h as s hrun
  exact ⟨as, s, hrun, (hown has).1 hfin⟩

end Czrpc.ReadLoop
