import Czrpc.Framing
import Mathlib.Algebra.Group.Int.Defs
import Mathlib.Data.List.TakeWhile

/-! Strings of the C library. A buffer holds a string up to its first zero byte, or
up to its end, where the terminator stands. `strtok_r` cuts a string into the pieces
between delimiters and writes a terminator over the delimiter after each piece. -/
namespace Czrpc.CString
open Framing

/-- The string that begins at a buffer. -/
def cString (s : Bytes) : Bytes := s.takeWhile (· != 0)

@[simp] theorem cString_nil : cString [] = [] := rfl

@[simp] theorem cString_zero_cons (s : Bytes) : cString (0 :: s) = [] := rfl

theorem zero_notMem_cString (s : Bytes) : 0 ∉ cString s := by
  intro h
  simpa using List.mem_takeWhile_imp h

theorem cString_append {a : Bytes} (ha : 0 ∉ a) (b : Bytes) : cString (a ++ b) = a ++ cString b := by
  apply List.takeWhile_append_of_pos
  intro c hc
  have hne : c ≠ 0 := fun h => ha (h ▸ hc)
  simpa using hne

theorem cString_eq_self {s : Bytes} (hs : 0 ∉ s) : cString s = s := by
  simpa using cString_append hs []

/-- What a call of `strtok_r` that finds a token leaves: the token, the bytes passed as they
are after the call, and the bytes from the saved pointer on. -/
structure Token where
  text : Bytes
  passed : Bytes
  rest : Bytes
  deriving DecidableEq, Repr

/-- `strtok_r` from a saved pointer on, where `p` tells the delimiters. -/
def strtokR (p : UInt8 → Bool) (s : Bytes) : Option Token :=
  let skipped := s.takeWhile p
  let start := s.dropWhile p
  let text := start.takeWhile fun c => c != 0 && !p c
  let stop := start.dropWhile fun c => c != 0 && !p c
  if text = [] then none
  else match stop with
    | [] => some ⟨text, skipped ++ text, []⟩
    | d :: rest =>
      if d = 0 then some ⟨text, skipped ++ text, d :: rest⟩
      else some ⟨text, skipped ++ text ++ [0], rest⟩

inductive StrtokEffect (p : UInt8 → Bool) : Bytes → Option Token → Prop
  | done {skipped rest : Bytes} (hs : ∀ c ∈ skipped, p c = true) (hr : cString rest = []) :
      StrtokEffect p (skipped ++ rest) none
  | last {skipped text rest : Bytes} (hs : ∀ c ∈ skipped, p c = true) (hne : text ≠ [])
      (ht : ∀ c ∈ text, p c = false) (hz : 0 ∉ text) (hr : cString rest = []) :
      StrtokEffect p (skipped ++ (text ++ rest)) (some ⟨text, skipped ++ text, rest⟩)
  | cut {skipped text rest : Bytes} {d : UInt8} (hs : ∀ c ∈ skipped, p c = true) (hne : text ≠ [])
      (ht : ∀ c ∈ text, p c = false) (hz : 0 ∉ text) (hd : p d = true) :
      StrtokEffect p (skipped ++ (text ++ d :: rest)) (some ⟨text, skipped ++ text ++ [0], rest⟩)

theorem exists_takeWhile {α : Type*} (q : α → Bool) (l : List α) :
    (∀ c ∈ l.takeWhile q, q c = true) ∧ l = l.takeWhile q ++ l.dropWhile q ∧
      ∀ c cs, l.dropWhile q = c :: cs → q c = false := by
  refine ⟨fun c hc => List.mem_takeWhile_imp hc, List.takeWhile_append_dropWhile.symm, ?_⟩
  intro c cs hcs
  have hhead := List.head?_dropWhile_not q l
  rw [hcs] at hhead
  exact hhead

theorem strtokR_effect (p : UInt8 → Bool) (s : Bytes) :
    StrtokEffect p s (strtokR p s) := by
  obtain ⟨hs, hsplit, hstart⟩ := exists_takeWhile p s
  obtain ⟨ht, hcut, hstop⟩ := exists_takeWhile (fun c => c != 0 && !p c) (s.dropWhile p)
  dsimp only [strtokR]
  generalize s.takeWhile p = skipped at *
  generalize s.dropWhile p = start at *
  generalize start.takeWhile (fun c => c != 0 && !p c) = text at *
  generalize start.dropWhile (fun c => c != 0 && !p c) = stop at *
  subst hsplit hcut
  simp only [Bool.and_eq_true, bne_iff_ne, Bool.not_eq_true', Bool.and_eq_false_imp] at ht hstop
  have hz : 0 ∉ text := fun h => (ht 0 h).1 rfl
  have hp' : ∀ c ∈ text, p c = false := fun c hc => (ht c hc).2
  split_ifs with htext
  · subst htext
    refine .done hs ?_
    cases stop with
    | nil => rfl
    | cons c cs =>
      have hc : c = 0 := by
        by_contra hne
        have := hstop c cs rfl hne
        simp [hstart c cs rfl] at this
      rw [hc, List.nil_append, cString_zero_cons]
  · cases stop with
    | nil => exact .last hs htext hp' hz rfl
    | cons d rest =>
      dsimp only
      split_ifs with hd
      · exact .last hs htext hp' hz (by rw [hd, cString_zero_cons])
      · have hdelim := hstop d rest rfl hd
        exact .cut hs htext hp' hz (by simpa using hdelim)

theorem StrtokEffect.shorter {p : UInt8 → Bool} {s : Bytes} {t : Token}
    (h : StrtokEffect p s (some t)) : t.rest.length < s.length := by
  cases h with
  | last hs hne ht hz hr =>
    have := List.length_pos_iff.mpr hne
    simp only [List.length_append]
    omega
  | cut hs hne ht hz hd =>
    simp only [List.length_append, List.length_cons]
    omega

/-- The pieces of a string between delimiters, the empty ones left out. -/
def pieces (p : UInt8 → Bool) (s : Bytes) : List Bytes :=
  ((cString s).splitOnP p).filter (· ≠ [])

/-- The buffer of a string that has been cut up: a terminator in place of the delimiter after
each piece. The flag tells whether the byte before belongs to a piece. -/
def terminated (p : UInt8 → Bool) : Bool → Bytes → Bytes
  | _, [] => []
  | inside, c :: cs =>
    if c = 0 then c :: cs
    else if p c then (if inside then 0 else c) :: terminated p false cs
    else c :: terminated p true cs

section rules
variable {p : UInt8 → Bool}

theorem pieces_ended {rest : Bytes} (hr : cString rest = []) : pieces p rest = [] := by
  simp [pieces, hr]

theorem terminated_ended {inside : Bool} {rest : Bytes} (hr : cString rest = []) :
    terminated p inside rest = rest := by
  cases rest with
  | nil => rfl
  | cons c cs =>
    have hc : c = 0 := by simpa [cString, List.takeWhile_cons] using hr
    rw [terminated, if_pos hc]

theorem terminated_delimiter {d : UInt8} (hd : p d = true) (hz : d ≠ 0) (s : Bytes) :
    terminated p true (d :: s) = 0 :: terminated p false s := by
  rw [terminated, if_neg hz, if_pos hd, if_pos rfl]

theorem terminated_text {inside : Bool} {text : Bytes} (hne : text ≠ [])
    (ht : ∀ c ∈ text, p c = false) (hz : 0 ∉ text) (s : Bytes) :
    terminated p inside (text ++ s) = text ++ terminated p true s := by
  induction text generalizing inside with
  | nil => exact absurd rfl hne
  | cons c cs ih =>
    simp only [List.mem_cons, not_or, forall_eq_or_imp] at ht hz
    have hp : ¬ p c = true := by rw [ht.1]; decide
    rw [List.cons_append, terminated, if_neg (Ne.symm hz.1), if_neg hp, List.cons_append]
    cases cs with
    | nil => rfl
    | cons d ds => rw [ih (List.cons_ne_nil d ds) ht.2 hz.2]

theorem pieces_last {text rest : Bytes} (hne : text ≠ []) (ht : ∀ c ∈ text, p c = false)
    (hz : 0 ∉ text) (hr : cString rest = []) : pieces p (text ++ rest) = [text] := by
  rw [pieces, cString_append hz, hr, List.append_nil, List.splitOnP_eq_singleton ht]
  simp [hne]

section
variable (hp : p 0 = false)
include hp

theorem delimiter_ne_zero {d : UInt8} (hd : p d = true) : d ≠ 0 := by
  rintro rfl
  rw [hp] at hd
  cases hd

theorem zero_notMem_skipped {skipped : Bytes} (hs : ∀ c ∈ skipped, p c = true) : 0 ∉ skipped :=
  fun h => delimiter_ne_zero hp (hs 0 h) rfl

theorem pieces_skip {skipped : Bytes} (hs : ∀ c ∈ skipped, p c = true) (s : Bytes) :
    pieces p (skipped ++ s) = pieces p s := by
  rw [pieces, cString_append (zero_notMem_skipped hp hs)]
  induction skipped with
  | nil => rfl
  | cons c cs ih =>
    simp only [List.mem_cons, forall_eq_or_imp] at hs
    rw [List.cons_append, List.splitOnP_cons_eq_if_modifyHead, if_pos hs.1]
    simpa using ih hs.2

theorem terminated_skip {skipped : Bytes} (hs : ∀ c ∈ skipped, p c = true) (s : Bytes) :
    terminated p false (skipped ++ s) = skipped ++ terminated p false s := by
  induction skipped with
  | nil => rfl
  | cons c cs ih =>
    simp only [List.mem_cons, forall_eq_or_imp] at hs
    rw [List.cons_append, terminated, if_neg (delimiter_ne_zero hp hs.1), if_pos hs.1,
      if_neg Bool.false_ne_true, ih hs.2, List.cons_append]

theorem pieces_cut {text rest : Bytes} {d : UInt8} (hne : text ≠ [])
    (ht : ∀ c ∈ text, p c = false) (hz : 0 ∉ text) (hd : p d = true) :
    pieces p (text ++ d :: rest) = text :: pieces p rest := by
  have hd0 : cString (d :: rest) = d :: cString rest :=
    cString_append (a := [d]) (by simpa using (delimiter_ne_zero hp hd).symm) rest
  rw [pieces, cString_append hz, hd0, List.splitOnP_append_cons_of_forall_mem ht d hd,
    List.filter_cons_of_pos (by simpa using hne), ← pieces]

theorem pieces_terminated (s : Bytes) : pieces p (terminated p false s) = (pieces p s).take 1 := by
  have heffect := strtokR_effect p s
  generalize strtokR p s = call at heffect
  cases heffect with
  | done hs hr =>
    rw [terminated_skip hp hs, terminated_ended hr, pieces_skip hp hs, pieces_ended hr, List.take_nil]
  | last hs hne ht hz hr =>
    rw [terminated_skip hp hs, terminated_text hne ht hz, terminated_ended hr, pieces_skip hp hs,
      pieces_last hne ht hz hr, List.take_succ_cons, List.take_zero]
  | cut hs hne ht hz hd =>
    rw [terminated_skip hp hs, terminated_text hne ht hz,
      terminated_delimiter hd (delimiter_ne_zero hp hd), pieces_skip hp hs, pieces_skip hp hs,
      pieces_last hne ht hz (cString_zero_cons _), pieces_cut hp hne ht hz hd, List.take_succ_cons,
      List.take_zero]

end

/-- Nothing is written exactly when no delimiter comes after the beginning of a piece. -/
theorem terminated_eq_self_iff (s : Bytes) :
    (terminated p true s = s ↔ ∀ c ∈ cString s, p c = false) ∧
      (terminated p false s = s ↔ ∀ c ∈ (cString s).dropWhile p, p c = false) := by
  induction s with
  | nil => simp [terminated]
  | cons c cs ih =>
    by_cases hz : c = 0
    · simp [hz, terminated]
    · have hc : cString (c :: cs) = c :: cString cs :=
        cString_append (a := [c]) (by simpa using Ne.symm hz) cs
      cases hp : p c with
      | true => simp [terminated, hc, hz, hp, ih.2, Ne.symm hz]
      | false => simp [terminated, hc, hz, hp, ih.1]

end rules

def isSpace (c : UInt8) : Bool := c == 32 || (9 ≤ c && c ≤ 13)

def isDigit (c : UInt8) : Bool := 48 ≤ c && c ≤ 57

def decimal (text : Bytes) : ℕ := text.foldl (fun n c => 10 * n + (c.toNat - 48)) 0

def afterSign (s : Bytes) : Bytes :=
  if s.head? = some 45 ∨ s.head? = some 43 then s.tail else s

/-- `atoi`, with an `int` of 32 bits: blanks, a sign, and digits up to the first other byte.
`undefined` is the value for a number that is no `int`, which the standard leaves open. -/
def atoi (undefined : Bytes → ℤ) (text : Bytes) : ℤ :=
  let start := text.dropWhile isSpace
  let digits := (afterSign start).takeWhile isDigit
  let number : ℤ := if start.head? = some 45 then -decimal digits else decimal digits
  if -2 ^ 31 ≤ number ∧ number < 2 ^ 31 then number else undefined text

theorem isDigit_iff (c : UInt8) : isDigit c = true ↔ 48 ≤ c.toNat ∧ c.toNat ≤ 57 := by
  simp [isDigit, UInt8.le_iff_toNat_le]

theorem isDigit.first {c : UInt8} (h : isDigit c = true) :
    isSpace c = false ∧ c ≠ 45 ∧ c ≠ 43 := by
  have hother : ∀ d : UInt8, isDigit d = false → c ≠ d := by
    rintro d hd rfl
    rw [h] at hd
    cases hd
  have hrange := (isDigit_iff c).mp h
  have hblank : ¬ c ≤ 13 := by
    rw [UInt8.le_iff_toNat_le]
    exact Nat.not_le_of_lt (Nat.lt_of_lt_of_le (by decide) hrange.1)
  refine ⟨?_, hother 45 rfl, hother 43 rfl⟩
  simp [isSpace, hblank, hother 32 rfl]

theorem atoi_decimal (undefined : Bytes → ℤ) {text : Bytes} (hdigits : ∀ c ∈ text, isDigit c = true)
    (hsmall : decimal text < 2 ^ 31) : atoi undefined text = decimal text := by
  have hall : text.takeWhile isDigit = text := List.takeWhile_eq_self_iff.mpr hdigits
  have hstart : text.dropWhile isSpace = text ∧ text.head? ≠ some 45 ∧ text.head? ≠ some 43 := by
    cases text with
    | nil => simp
    | cons c cs =>
      obtain ⟨hspace, hminus, hplus⟩ := isDigit.first (hdigits c List.mem_cons_self)
      simp [hspace, hminus, hplus]
  obtain ⟨hspace, hminus, hplus⟩ := hstart
  have hrange : -2 ^ 31 ≤ (decimal text : ℤ) ∧ (decimal text : ℤ) < 2 ^ 31 := by omega
  simp only [atoi, hspace, afterSign, hminus, hplus, or_self, if_false, hall, if_pos hrange]

end Czrpc.CString
