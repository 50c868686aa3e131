import Czrpc.Address
import Mathlib.Data.List.Forall2

/-! The ports of a server. `server::listen` keeps the port of an address as text;
`server::run` turns it into a number by `atoi` and hands it, narrowed to 16 bits, to
`tcp_endpoint::listen`. -/
namespace Czrpc.ListenPort
open Framing CString Address

def toUnsignedShort (n : ℤ) : UInt16 := UInt16.ofNat (n % 2 ^ 16).toNat

theorem toUnsignedShort_toNat {n : ℕ} (h : n < 2 ^ 16) : (toUnsignedShort n).toNat = n := by
  have hmod : ((n : ℤ) % 2 ^ 16).toNat = n := by omega
  rw [toUnsignedShort, hmod, UInt16.toNat_ofNat', Nat.mod_eq_of_lt h]

/-- What the system does in a run: whether the `k`-th acceptor can be bound to an ip and a port
and listen there, and whether the worker threads and the io threads can be started. -/
structure System where
  listens : ℕ → Bytes → UInt16 → Bool
  startsWorkers : Bool
  startsIo : Bool

def permissive : System := ⟨fun _ _ _ => true, true, true⟩

/-- A call of `server::run`: the arguments of the calls of `tcp_endpoint::listen`, and whether
an exception left it. -/
structure Outcome where
  calls : List (Bytes × UInt16)
  threw : Bool
  deriving DecidableEq, Repr

-- `isV4` says of which strings `address_v4::from_string` makes an address; it throws on the others.
variable (isV4 : Bytes → Bool) (sys : System) (undefined : Bytes → ℤ)

def portOf (ep : Endpoint) : UInt16 := toUnsignedShort (atoi undefined (cString ep.port))

/-- The loop of the private `server::listen`, from the `k`-th endpoint on. -/
def listenLoop : ℕ → List Endpoint → Outcome
  | _, [] => ⟨[], false⟩
  | k, ep :: later =>
    if isV4 ep.ip && sys.listens k ep.ip (portOf undefined ep) then
      let rest := listenLoop (k + 1) later
      { rest with calls := (ep.ip, portOf undefined ep) :: rest.calls }
    else ⟨[(ep.ip, portOf undefined ep)], true⟩

def run (iosThreadNum : ℕ) (endpointVec : List Endpoint) : Outcome :=
  if iosThreadNum = 0 then ⟨[], true⟩
  else if sys.startsWorkers then
    let listened := listenLoop isV4 sys undefined 0 endpointVec
    if listened.threw then listened else ⟨listened.calls, !sys.startsIo⟩
  else ⟨[], true⟩

/-- The endpoints of a server after calls of `listen`; a call that throws adds none. -/
def listens (addresses : List Bytes) : List Endpoint :=
  addresses.foldl (fun endpointVec s => (Address.listen endpointVec s).endpointVec) []

def Accepted (addresses : List Bytes) (ep : Endpoint) : Prop :=
  ∃ s ∈ addresses, (getEndpoint s).1 = .ok ep

def IsNumeral (text : Bytes) : Prop := text ≠ [] ∧ ∀ c ∈ text, isDigit c = true

/-- The call is made for the endpoint, with the number that its port is written as. -/
def PortGiven (ep : Endpoint) (call : Bytes × UInt16) : Prop :=
  call.1 = ep.ip ∧ IsNumeral ep.port ∧ call.2.toNat = decimal ep.port

theorem listenLoop_calls {k : ℕ} {eps : List Endpoint}
    (h : (listenLoop isV4 sys undefined k eps).threw = false) :
    (listenLoop isV4 sys undefined k eps).calls = eps.map fun ep => (ep.ip, portOf undefined ep) := by
  induction eps generalizing k with
  | nil => rfl
  | cons ep later ih =>
    unfold listenLoop at h ⊢
    split_ifs at h ⊢ with hlistens
    simpa using ih h

theorem listenLoop_threw {k : ℕ} {eps : List Endpoint} {ep : Endpoint} (hep : ep ∈ eps)
    (hip : isV4 ep.ip = false) : (listenLoop isV4 sys undefined k eps).threw = true := by
  induction eps generalizing k with
  | nil => cases hep
  | cons first later ih =>
    unfold listenLoop
    split_ifs with hlistens
    · rcases List.mem_cons.mp hep with rfl | hlater
      · simp [hip] at hlistens
      · exact ih hlater
    · rfl

theorem listenLoop_permissive {k : ℕ} {eps : List Endpoint} (hips : ∀ ep ∈ eps, isV4 ep.ip = true) :
    (listenLoop isV4 permissive undefined k eps).threw = false := by
  induction eps generalizing k with
  | nil => rfl
  | cons first later ih =>
    obtain ⟨hfirst, hlater⟩ := List.forall_mem_cons.mp hips
    unfold listenLoop
    rw [if_pos (by simp [hfirst, permissive])]
    exact ih hlater

theorem run_calls {iosThreadNum : ℕ} {eps : List Endpoint}
    (h : (run isV4 sys undefined iosThreadNum eps).threw = false) :
    (run isV4 sys undefined iosThreadNum eps).calls =
      eps.map fun ep => (ep.ip, portOf undefined ep) := by
  dsimp only [run] at h ⊢
  split_ifs at h ⊢ with hios hworkers hlistened
  · exact absurd h (by simp [hlistened])
  · exact listenLoop_calls isV4 sys undefined (by simpa using hlistened)

theorem run_threw {iosThreadNum : ℕ} {eps : List Endpoint} {ep : Endpoint} (hep : ep ∈ eps)
    (hip : isV4 ep.ip = false) : (run isV4 sys undefined iosThreadNum eps).threw = true := by
  dsimp only [run]
  split_ifs with hios hworkers hlistened
  · rfl
  · exact hlistened
  · exact absurd (listenLoop_threw isV4 sys undefined hep hip) hlistened
  · rfl

theorem run_permissive {iosThreadNum : ℕ} {eps : List Endpoint} (hios : iosThreadNum ≠ 0)
    (hips : ∀ ep ∈ eps, isV4 ep.ip = true) :
    (run isV4 permissive undefined iosThreadNum eps).threw = false := by
  have hlistened := listenLoop_permissive isV4 undefined (k := 0) hips
  dsimp only [run]
  rw [if_neg hios, if_pos (show permissive.startsWorkers = true from rfl), hlistened]
  rfl

theorem mem_listen (eps : List Endpoint) (s : Bytes) (ep : Endpoint) :
    ep ∈ (Address.listen eps s).endpointVec ↔ ep ∈ eps ∨ (getEndpoint s).1 = .ok ep := by
  cases hresult : (getEndpoint s).1 <;> simp [Address.listen, hresult, eq_comm]

theorem mem_listens (addresses : List Bytes) (ep : Endpoint) :
    ep ∈ listens addresses ↔ Accepted addresses ep := by
  have hfold : ∀ eps, ep ∈ addresses.foldl (fun eps s => (Address.listen eps s).endpointVec) eps ↔
      ep ∈ eps ∨ ∃ s ∈ addresses, (getEndpoint s).1 = .ok ep := by
    induction addresses with
    | nil => simp
    | cons s later ih =>
      intro eps
      rw [List.foldl_cons, ih, mem_listen]
      simp only [List.mem_cons, exists_eq_or_imp, or_assoc]
  simpa [listens, Accepted] using hfold []

theorem portGiven_iff (ep : Endpoint) :
    PortGiven ep (ep.ip, portOf undefined ep) ↔ IsNumeral ep.port ∧ decimal ep.port < 2 ^ 16 := by
  constructor
  · rintro ⟨-, hnumeral, hport⟩
    refine ⟨hnumeral, ?_⟩
    rw [← hport]
    exact UInt16.toNat_lt _
  · rintro ⟨hnumeral, hsmall⟩
    have hzero : 0 ∉ ep.port := fun h => absurd (hnumeral.2 0 h) (by decide)
    have hatoi := atoi_decimal undefined hnumeral.2 (by omega)
    refine ⟨rfl, hnumeral, ?_⟩
    rw [portOf, cString_eq_self hzero, hatoi, toUnsignedShort_toNat hsmall]

theorem forall₂_portGiven_iff (eps : List Endpoint) :
    List.Forall₂ PortGiven eps (eps.map fun ep => (ep.ip, portOf undefined ep)) ↔
      ∀ ep ∈ eps, IsNumeral ep.port ∧ decimal ep.port < 2 ^ 16 := by
  rw [List.forall₂_map_right_iff, List.forall₂_same]
  simp only [portGiven_iff]

/-- After any calls of `listen`: whatever the system does, `run` throws or the calls of
`tcp_endpoint::listen` have the ports that the addresses are written with, exactly when there
are no io threads, or an accepted ip is no IPv4 address, or the port of every accepted address
is a numeral below `2 ^ 16`. -/
theorem ports_given_iff (iosThreadNum : ℕ) (addresses : List Bytes) :
    (∀ sys : System, (run isV4 sys undefined iosThreadNum (listens addresses)).threw = true ∨
      List.Forall₂ PortGiven (listens addresses)
        (run isV4 sys undefined iosThreadNum (listens addresses)).calls) ↔
    (iosThreadNum = 0 ∨ (∃ ep, Accepted addresses ep ∧ isV4 ep.ip = false) ∨
      ∀ ep, Accepted addresses ep → IsNumeral ep.port ∧ decimal ep.port < 2 ^ 16) := by
  constructor
  · intro hall
    by_cases hios : iosThreadNum = 0
    · exact Or.inl hios
    by_cases hip : ∃ ep, Accepted addresses ep ∧ isV4 ep.ip = false
    · exact Or.inr (Or.inl hip)
    -- on the permissive system nothing else can make `run` throw
    have hips : ∀ ep ∈ listens addresses, isV4 ep.ip = true := by
      intro ep hep
      by_contra hne
      exact hip ⟨ep, (mem_listens addresses ep).mp hep, Bool.eq_false_iff.mpr hne⟩
    have hthrew := run_permissive isV4 undefined hios hips
    have hports := (hall permissive).resolve_left (by simp [hthrew])
    rw [run_calls isV4 permissive undefined hthrew, forall₂_portGiven_iff] at hports
    refine Or.inr (Or.inr ?_)
    intro ep hep
    exact hports ep ((mem_listens addresses ep).mpr hep)
  · intro hcond sys
    rcases hcond with rfl | ⟨ep, hep, hip⟩ | hports
    · exact Or.inl rfl
    · exact Or.inl (run_threw isV4 sys undefined ((mem_listens addresses ep).mpr hep) hip)
    · cases hthrew : (run isV4 sys undefined iosThreadNum (listens addresses)).threw with
      | true => exact Or.inl rfl
      | false =>
        refine Or.inr ?_
        rw [run_calls isV4 sys undefined hthrew, forall₂_portGiven_iff]
        intro ep hep
        exact hports ep ((mem_listens addresses ep).mp hep)

/-- On `"1.1.1.1:70000"` a server listens at port 4464. -/
theorem port_truncated : ¬ ∀ (isV4 : Bytes → Bool) (sys : System) (undefined : Bytes → ℤ)
    (iosThreadNum : ℕ) (addresses : List Bytes),
    (run isV4 sys undefined iosThreadNum (listens addresses)).threw = true ∨
      List.Forall₂ PortGiven (listens addresses)
        (run isV4 sys undefined iosThreadNum (listens addresses)).calls := by
  intro hall
  let ip : Bytes := [0x31, 0x2e, 0x31, 0x2e, 0x31, 0x2e, 0x31]
  let port : Bytes := [0x37, 0x30, 0x30, 0x30, 0x30]
  have hrun := hall (· == ip) permissive (fun _ => 0) 1 [ip ++ colon :: port]
  have heps : listens [ip ++ colon :: port] = [⟨ip, port⟩] := by decide
  have hcalls : run (· == ip) permissive (fun _ => 0) 1 [⟨ip, port⟩] = ⟨[(ip, 4464)], false⟩ := by
    decide
  rw [heps, hcalls] at hrun
  simp only [Bool.false_eq_true, false_or, List.forall₂_cons, List.forall₂_nil_left_iff,
    and_true] at hrun
  exact absurd hrun.2.2 (by decide)

end Czrpc.ListenPort
