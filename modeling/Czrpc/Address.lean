import Czrpc.CString
import Mathlib.Data.List.Infix

/-! Addresses `ip:port`: `split`, `contains` and `get_endpoint` of `util.hpp`, and their
callers `client_base::connect` and `server::listen`. `split` hands the bytes of its
argument to `strtok_r` through a `const_cast`, so that every function here returns the
caller's string as the call leaves it. -/
namespace Czrpc.Address
open Framing CString

structure Endpoint where
  ip : Bytes
  port : Bytes
  deriving DecidableEq, Repr

def colon : UInt8 := 0x3a

def isDelimiter (delimiter : Bytes) (c : UInt8) : Bool := (cString delimiter).contains c

theorem isDelimiter_zero (delimiter : Bytes) : isDelimiter delimiter 0 = false := by
  simpa [isDelimiter] using zero_notMem_cString delimiter

/-- The calls of `strtok_r` in `split`: the tokens, and the buffer after the calls. -/
def splitLoop (p : UInt8 → Bool) : ℕ → Bytes → List Bytes × Bytes
  | 0, s => ([], s)
  | fuel + 1, s =>
    match strtokR p s with
    | none => ([], s)
    | some token =>
      let later := splitLoop p fuel token.rest
      (token.text :: later.1, token.passed ++ later.2)

/-- `split`: every token but the last takes its delimiter with it, so there are no more calls
than bytes and one. -/
def split (str delimiter : Bytes) : List Bytes × Bytes :=
  splitLoop (isDelimiter delimiter) (str.length + 1) str

theorem splitLoop_eq {p : UInt8 → Bool} (hp : p 0 = false) (fuel : ℕ) (s : Bytes)
    (hfuel : s.length < fuel) : splitLoop p fuel s = (pieces p s, terminated p false s) := by
  induction fuel generalizing s with
  | zero => exact absurd hfuel (Nat.not_lt_zero _)
  | succ fuel ih =>
    have heffect := strtokR_effect p s
    unfold splitLoop
    generalize hcall : strtokR p s = call at heffect
    cases heffect with
    | done hs hr =>
      rw [pieces_skip hp hs, terminated_skip hp hs, pieces_ended hr, terminated_ended hr]
    | last hs hne ht hz hr =>
      have hlater := ih _ (Nat.lt_of_lt_of_le (StrtokEffect.last hs hne ht hz hr).shorter
        (Nat.le_of_lt_succ hfuel))
      dsimp only at hlater ⊢
      rw [hlater, pieces_skip hp hs, terminated_skip hp hs, pieces_last hne ht hz hr,
        terminated_text hne ht hz, pieces_ended hr, terminated_ended hr, terminated_ended hr,
        List.append_assoc]
    | cut hs hne ht hz hd =>
      have hlater := ih _ (Nat.lt_of_lt_of_le (StrtokEffect.cut hs hne ht hz hd).shorter
        (Nat.le_of_lt_succ hfuel))
      dsimp only at hlater ⊢
      rw [hlater, pieces_skip hp hs, terminated_skip hp hs, pieces_cut hp hne ht hz hd,
        terminated_text hne ht hz, terminated_delimiter hd (delimiter_ne_zero hp hd),
        List.append_assoc, List.append_assoc, List.singleton_append]

/-- `split` finds the pieces of the C string and cuts it up in the caller's buffer. -/
theorem split_eq (str delimiter : Bytes) :
    split str delimiter =
      (pieces (isDelimiter delimiter) str, terminated (isDelimiter delimiter) false str) :=
  splitLoop_eq (isDelimiter_zero delimiter) _ str (Nat.lt_succ_self _)

def contains (str token : Bytes) : Bool := decide (token <:+: str)

def formatError : String := "Remote address format error"

def endpointOf : List Bytes → Except String Endpoint
  | [ip, port] => .ok ⟨ip, port⟩
  | _ => .error formatError

/-- `get_endpoint`: what it returns or throws, and the caller's string after the call. The
copy `address` is made and not used. -/
def getEndpoint (remoteAddress : Bytes) : Except String Endpoint × Bytes :=
  if contains remoteAddress [colon] then
    let vec := split remoteAddress [colon]
    (endpointOf vec.1, vec.2)
  else (.error formatError, remoteAddress)

theorem endpointOf_eq_ok_iff (vec : List Bytes) (ep : Endpoint) :
    endpointOf vec = .ok ep ↔ vec = [ep.ip, ep.port] := by
  obtain ⟨ip, port⟩ := ep
  unfold endpointOf
  split <;> simp_all

theorem endpointOf_eq_error {vec : List Bytes} (h : vec.length ≠ 2) :
    endpointOf vec = .error formatError := by
  unfold endpointOf
  split
  · exact absurd rfl h
  · rfl

def parts (s : Bytes) : List Bytes := pieces (isDelimiter [colon]) s

theorem isDelimiter_colon (c : UInt8) : isDelimiter [colon] c = (c == colon) := by
  rw [Bool.eq_iff_iff]
  simp [isDelimiter, cString, colon]

theorem isDelimiter_colon_self : isDelimiter [colon] colon = true := by decide

theorem not_isDelimiter {s : Bytes} (hs : colon ∉ s) : ∀ c ∈ s, isDelimiter [colon] c = false := by
  intro c hc
  have hne : c ≠ colon := fun h => hs (h ▸ hc)
  simpa [isDelimiter_colon] using hne

theorem parts_plain {s : Bytes} (hne : s ≠ []) (hs : colon ∉ s) (hz : 0 ∉ s) : parts s = [s] := by
  have hlast : pieces (isDelimiter [colon]) (s ++ []) = [s] :=
    pieces_last hne (not_isDelimiter hs) hz rfl
  rwa [List.append_nil] at hlast

theorem parts_plain_le (s : Bytes) (hs : colon ∉ cString s) : (parts s).length ≤ 1 := by
  rw [parts, pieces, List.splitOnP_eq_singleton (not_isDelimiter hs)]
  exact List.length_filter_le _ _

theorem getEndpoint_eq (s : Bytes) :
    getEndpoint s = (endpointOf (parts s), terminated (isDelimiter [colon]) false s) := by
  unfold getEndpoint
  split_ifs with hc
  · rw [split_eq, parts]
  · have hcolon : colon ∉ s := by simpa [contains, List.singleton_infix_iff] using hc
    have hstring : colon ∉ cString s := fun h => hcolon (List.takeWhile_subset _ h)
    have hparts := parts_plain_le s hstring
    have hsame : terminated (isDelimiter [colon]) false s = s := by
      apply (terminated_eq_self_iff s).2.mpr
      intro c hmem
      exact not_isDelimiter hstring c (List.dropWhile_subset _ hmem)
    rw [endpointOf_eq_error (by omega), hsame]

theorem getEndpoint_eq_ok_iff (s : Bytes) (ep : Endpoint) :
    (getEndpoint s).1 = .ok ep ↔ parts s = [ep.ip, ep.port] := by
  rw [getEndpoint_eq, endpointOf_eq_ok_iff]

theorem splitLoop_tokens (p : UInt8 → Bool) (fuel : ℕ) (s : Bytes) :
    ∀ t ∈ (splitLoop p fuel s).1, t ≠ [] ∧ 0 ∉ t ∧ ∀ c ∈ t, p c = false := by
  induction fuel generalizing s with
  | zero => simp [splitLoop]
  | succ fuel ih =>
    have heffect := strtokR_effect p s
    unfold splitLoop
    generalize strtokR p s = call at heffect
    cases heffect with
    | done hs hr => simp
    | last hs hne ht hz hr => exact List.forall_mem_cons.mpr ⟨⟨hne, hz, ht⟩, ih _⟩
    | cut hs hne ht hz hd => exact List.forall_mem_cons.mpr ⟨⟨hne, hz, ht⟩, ih _⟩

theorem mem_parts {s t : Bytes} (h : t ∈ parts s) : t ≠ [] ∧ 0 ∉ t ∧ colon ∉ t := by
  have hloop := splitLoop_tokens (isDelimiter [colon]) (s.length + 1) s t
  rw [splitLoop_eq (isDelimiter_zero _) _ s (Nat.lt_succ_self _)] at hloop
  obtain ⟨hne, hz, hfree⟩ := hloop h
  refine ⟨hne, hz, ?_⟩
  intro hcolon
  exact absurd (hfree colon hcolon) (by decide)

/-- `s` is `ip ++ ":" ++ port` with both parts non-empty and free of `':'`. -/
def AddressOf (s : Bytes) (ep : Endpoint) : Prop :=
  s = ep.ip ++ colon :: ep.port ∧ ep.ip ≠ [] ∧ ep.port ≠ [] ∧ colon ∉ ep.ip ∧ colon ∉ ep.port

/-- `get_endpoint` returns the endpoint that the grammar gives, and throws if there is none. -/
def FollowsGrammar (s : Bytes) : Prop :=
  (∀ ep, (getEndpoint s).1 = .ok ep ↔ AddressOf s ep) ∧
    ((∀ ep, ¬ AddressOf s ep) → (getEndpoint s).1 = .error formatError)

/-- A string with a zero byte is no address, and one in which two parts are found has one
`':'` and no zero byte. -/
def WellSeparated (s : Bytes) : Prop :=
  (0 ∈ s → ∀ ep, ¬ AddressOf s ep) ∧ ((parts s).length = 2 → 0 ∉ s ∧ s.count colon = 1)

theorem parts_of_addressOf {s : Bytes} {ep : Endpoint} (h : AddressOf s ep) (hz : 0 ∉ s) :
    parts s = [ep.ip, ep.port] := by
  obtain ⟨rfl, hip, hport, hipc, hportc⟩ := h
  simp only [List.mem_append, List.mem_cons, not_or] at hz
  rw [parts, pieces_cut (isDelimiter_zero _) hip (not_isDelimiter hipc) hz.1
    isDelimiter_colon_self, ← parts, parts_plain hport hportc hz.2.2]

theorem addressOf_of_parts {s : Bytes} {ep : Endpoint} (h : parts s = [ep.ip, ep.port])
    (hz : 0 ∉ s) (hcount : s.count colon = 1) : AddressOf s ep := by
  have hcolon : colon ∈ s := List.count_pos_iff.mp (by omega)
  obtain ⟨ip, port, rfl, hipc⟩ := List.eq_append_cons_of_mem hcolon
  have hportc : colon ∉ port := by
    apply List.count_eq_zero.mp
    rw [List.count_append, List.count_cons_self] at hcount
    omega
  simp only [List.mem_append, List.mem_cons, not_or] at hz
  have hlength : (parts (ip ++ colon :: port)).length = 2 := by rw [h]; rfl
  have hrest : (parts port).length ≤ 1 := parts_plain_le port (by rwa [cString_eq_self hz.2.2])
  by_cases hip : ip = []
  · subst hip
    have hskip : parts ([colon] ++ port) = parts port :=
      pieces_skip (isDelimiter_zero _) (by simp [isDelimiter_colon_self]) port
    rw [List.nil_append, ← List.singleton_append, hskip] at hlength
    omega
  · have hcut : parts (ip ++ colon :: port) = ip :: parts port :=
      pieces_cut (isDelimiter_zero _) hip (not_isDelimiter hipc) hz.1 isDelimiter_colon_self
    by_cases hport : port = []
    · subst hport
      rw [hcut, List.length_cons, parts, pieces_ended cString_nil] at hlength
      cases hlength
    · rw [hcut, parts_plain hport hportc hz.2.2] at h
      simp only [List.cons.injEq, and_true] at h
      obtain ⟨rfl, rfl⟩ := h
      exact ⟨rfl, hip, hport, hipc, hportc⟩

theorem AddressOf.count_colon {s : Bytes} {ep : Endpoint} (h : AddressOf s ep) :
    s.count colon = 1 := by
  obtain ⟨rfl, -, -, hipc, hportc⟩ := h
  rw [List.count_append, List.count_cons_self, List.count_eq_zero.mpr hipc,
    List.count_eq_zero.mpr hportc]

theorem AddressOf.zero_notMem {s : Bytes} {ep : Endpoint} (h : AddressOf s ep)
    (hparts : parts s = [ep.ip, ep.port]) : 0 ∉ s := by
  have hip := (mem_parts (s := s) (t := ep.ip) (by simp [hparts])).2.1
  have hport := (mem_parts (s := s) (t := ep.port) (by simp [hparts])).2.1
  rw [h.1]
  simp only [List.mem_append, List.mem_cons, not_or]
  exact ⟨hip, by decide, hport⟩

/-- `get_endpoint` follows the grammar of addresses exactly on the well separated strings.
`strtok_r` skips delimiters before, between and after the parts, and ends at a zero byte. -/
theorem followsGrammar_iff (s : Bytes) : FollowsGrammar s ↔ WellSeparated s := by
  constructor
  · rintro ⟨hgrammar, -⟩
    refine ⟨?_, ?_⟩
    · intro hz ep haddress
      have hparts := (getEndpoint_eq_ok_iff s ep).mp ((hgrammar ep).mpr haddress)
      exact haddress.zero_notMem hparts hz
    · intro htwo
      obtain ⟨ip, port, hparts⟩ := List.length_eq_two.mp htwo
      have haddress := (hgrammar ⟨ip, port⟩).mp ((getEndpoint_eq_ok_iff s ⟨ip, port⟩).mpr hparts)
      exact ⟨haddress.zero_notMem hparts, haddress.count_colon⟩
  · rintro ⟨hzero, htwo⟩
    have hgrammar : ∀ ep, (getEndpoint s).1 = .ok ep ↔ AddressOf s ep := by
      intro ep
      rw [getEndpoint_eq_ok_iff]
      constructor
      · intro hparts
        obtain ⟨hz, hcount⟩ := htwo (by rw [hparts]; rfl)
        exact addressOf_of_parts hparts hz hcount
      · intro haddress
        exact parts_of_addressOf haddress fun hz => hzero hz ep haddress
    refine ⟨hgrammar, ?_⟩
    intro hnone
    rw [getEndpoint_eq]
    apply endpointOf_eq_error
    intro hlength
    obtain ⟨ip, port, hparts⟩ := List.length_eq_two.mp hlength
    have hok := (getEndpoint_eq_ok_iff s ⟨ip, port⟩).mpr hparts
    exact hnone ⟨ip, port⟩ ((hgrammar ⟨ip, port⟩).mp hok)

/-- `"a::b"` is taken for `"a:b"`. -/
theorem doubled_colon_accepted : ¬ ∀ s, FollowsGrammar s := by
  intro hall
  have haddress := ((hall [0x61, colon, colon, 0x62]).1 ⟨[0x61], [0x62]⟩).mp (by decide)
  exact absurd haddress.1 (by decide)

/-- No `':'` comes after another character, up to the first zero byte. -/
def Untouched (s : Bytes) : Prop := colon ∉ (cString s).dropWhile (· == colon)

theorem getEndpoint_string_iff (s : Bytes) : (getEndpoint s).2 = s ↔ Untouched s := by
  have hsame := (terminated_eq_self_iff (p := isDelimiter [colon]) s).2
  rw [getEndpoint_eq, hsame, Untouched, funext isDelimiter_colon, ← List.forall_mem_ne']
  simp

theorem getEndpoint_again (s : Bytes) : (getEndpoint (getEndpoint s).2).1 = .error formatError := by
  rw [getEndpoint_eq s, getEndpoint_eq]
  apply endpointOf_eq_error
  rw [parts, pieces_terminated (isDelimiter_zero _), List.length_take]
  omega

theorem not_untouched {s : Bytes} {ep : Endpoint} (h : (getEndpoint s).1 = .ok ep) :
    ¬ Untouched s := by
  intro hs
  have hagain := getEndpoint_again s
  rw [(getEndpoint_string_iff s).mpr hs, h] at hagain
  cases hagain

/-- `client_base::connect`, where `resolve` is what the resolver makes of the endpoint. -/
def connect {ι : Type} (resolve : Endpoint → Except String ι) (remoteAddress : Bytes) :
    Except String ι × Bytes :=
  ((getEndpoint remoteAddress).1.bind resolve, (getEndpoint remoteAddress).2)

/-- A call of `server::listen`: the endpoints of the server after it, the caller's strings, and
what was thrown. -/
structure Listening where
  endpointVec : List Endpoint
  addresses : List Bytes
  thrown : Option String
  deriving DecidableEq, Repr

def listen (endpointVec : List Endpoint) (listenAddress : Bytes) : Listening :=
  match (getEndpoint listenAddress).1 with
  | .ok ep => ⟨endpointVec ++ [ep], [(getEndpoint listenAddress).2], none⟩
  | .error e => ⟨endpointVec, [(getEndpoint listenAddress).2], some e⟩

def listenVec (endpointVec : List Endpoint) : List Bytes → Listening
  | [] => ⟨endpointVec, [], none⟩
  | listenAddress :: later =>
    match (getEndpoint listenAddress).1 with
    | .error e => ⟨endpointVec, (getEndpoint listenAddress).2 :: later, some e⟩
    | .ok ep =>
      let rest := listenVec (endpointVec ++ [ep]) later
      { rest with addresses := (getEndpoint listenAddress).2 :: rest.addresses }

theorem listen_addresses (endpointVec : List Endpoint) (s : Bytes) :
    (listen endpointVec s).addresses = [(getEndpoint s).2] := by
  unfold listen
  split <;> rfl

theorem listenVec_addresses_iff (endpointVec : List Endpoint) (ss : List Bytes) :
    (listenVec endpointVec ss).addresses = ss ↔ ∀ s, ss.head? = some s → Untouched s := by
  cases ss with
  | nil => simp [listenVec]
  | cons s later =>
    simp only [List.head?_cons, Option.some.injEq, forall_eq', ← getEndpoint_string_iff]
    unfold listenVec
    cases hresult : (getEndpoint s).1 with
    | error e => simp
    | ok ep =>
      have hchanged : (getEndpoint s).2 ≠ s := fun h =>
        not_untouched hresult ((getEndpoint_string_iff s).mp h)
      simp [hchanged]

/-- A call leaves the caller's string as it was, and can be repeated with the same result,
exactly when no `':'` in it comes after another character; of a vector, when this holds of
the first string. -/
theorem address_intact_iff {ι : Type} (resolve : Endpoint → Except String ι)
    (endpointVec : List Endpoint) (s : Bytes) (ss : List Bytes) :
    ((getEndpoint s).2 = s ∧ (getEndpoint (getEndpoint s).2).1 = (getEndpoint s).1 ↔ Untouched s) ∧
    ((connect resolve s).2 = s ↔ Untouched s) ∧
    ((listen endpointVec s).addresses = [s] ↔ Untouched s) ∧
    ((listenVec endpointVec ss).addresses = ss ↔
      ∀ first, ss.head? = some first → Untouched first) := by
  refine ⟨?_, getEndpoint_string_iff s, ?_, listenVec_addresses_iff endpointVec ss⟩
  · rw [← getEndpoint_string_iff]
    apply and_iff_left_of_imp
    intro hsame
    rw [hsame]
  · rw [listen_addresses, List.singleton_inj, getEndpoint_string_iff]

/-- The string `"a:b"` of a caller is cut in two. -/
theorem address_cut : ¬ ∀ s, (getEndpoint s).2 = s := by
  intro hall
  exact absurd (hall [0x61, colon, 0x62]) (by decide)

end Czrpc.Address
