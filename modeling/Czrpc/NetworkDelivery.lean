import Czrpc.LinkProgress
import Czrpc.NetworkTraffic

/-! A connection that stays up brings everything over: what it does by itself, without the clients and
the server, comes to an end, and at the end both sides have what the other one has sent. -/
namespace Czrpc.Network
open Execution Framing Protocol ServerWrites
open Dispatch (Protobuf)
open Pipe (frames)

variable {C H : Type*} {M D : Type} {n : ℕ} [DecidableEq C] {pb : Protobuf M D} {type : C → ClientType}

/-- What one connection does by itself, with both sockets open. -/
def OwnOf (c : C) : Action C H M n → Prop
  | .up d a => d = c ∧ Link.Own a
  | .read d a expired => d = c ∧ a ≠ .disconnect ∧ c ∉ expired
  | .down d a => d = c ∧ Link.Own a
  | .request _ _ | .server _ => False

instance (c : C) : (a : Action C H M n) → Decidable (OwnOf c a)
  | .up d a => inferInstanceAs (Decidable (d = c ∧ Link.Own a))
  | .read d a expired => inferInstanceAs (Decidable (d = c ∧ a ≠ .disconnect ∧ c ∉ expired))
  | .down d a => inferInstanceAs (Decidable (d = c ∧ Link.Own a))
  | .request _ _ | .server _ => .isFalse nofun

/-- The connection is accepted and up in both directions. -/
structure Alive (c : C) (s : State C H n) : Prop where
  accepted : (s.server.core.conns c).isSome
  up : Link.Up (s.up c)
  down : Link.Up (s.down c)

def work (c : C) (s : State C H n) : ℕ := Link.work (s.up c) + Link.work (s.down c)

theorem link_read {link : Link.State RequestContent} {a : ReadLoop.Action}
    {reader : ReadLoop.State RequestContent}
    (h : ReadLoop.step requestEnds.loop link.reader a = some reader) :
    Link.step requestEnds link (.read a) = some { link with reader := reader } := by
  simp [Link.step, h]

theorem own_read {a : ReadLoop.Action} (ha : a ≠ .disconnect) : Link.Own (.read a) := by
  cases a with
  | disconnect => exact absurd rfl ha
  | transfer | complete | resume => trivial

theorem step_alive {s t : State C H n} {c : C} {a : Action C H M n} (hs : Inv type s) (hc : Alive c s)
    (ha : OwnOf c a) (h : step type pb s a = some t) :
    Alive c t ∧ work c t < work c s ∧ t.requests = s.requests ∧
      t.server.written = s.server.written := by
  cases a with
  | request | server => exact ha.elim
  | up d a =>
    obtain ⟨rfl, hown⟩ := ha
    cases a with
    | read b => cases h
    | runPosted | send | written | arrive | lose =>
      simp only [step, Option.map_eq_some_iff] at h
      obtain ⟨link, hlink, rfl⟩ := h
      have hup := Link.step_up (hs.up d) hc.up hown hlink
      have hwork := Link.step_work (hs.up d) hc.up hown hlink
      refine ⟨⟨hc.accepted, by simpa using hup, hc.down⟩, ?_, rfl, rfl⟩
      simpa [work] using hwork
  | read d a expired =>
    obtain ⟨rfl, hne, hexp⟩ := ha
    obtain ⟨hacc, h⟩ := Option.ite_none_right_eq_some.mp h
    obtain ⟨reader, hr, h⟩ := Option.bind_eq_some_iff.mp h
    obtain ⟨server, hserver, rfl⟩ := Option.map_eq_some_iff.mp h
    have hfollowed := hear_followed (step_hearing hr) (hs.follows d) hacc hserver
    have hup := Link.step_up (hs.up d) hc.up (own_read hne) (link_read hr)
    have hwork := Link.step_work (hs.up d) hc.up (own_read hne) (link_read hr)
    refine ⟨⟨hfollowed.accepted, by simpa using hup, hc.down⟩, ?_, rfl, hfollowed.written⟩
    simpa [work] using hwork
  | down d a =>
    obtain ⟨rfl, hown⟩ := ha
    obtain ⟨link, hlink, rfl⟩ := Option.map_eq_some_iff.mp h
    have hup := Link.step_up (hs.down d) hc.down hown hlink
    have hwork := Link.step_work (hs.down d) hc.down hown hlink
    refine ⟨⟨hc.accepted, hc.up, by simpa using hup⟩, ?_, rfl, rfl⟩
    simpa [work] using hwork

theorem settled_of_stuck {s : State C H n} {c : C} (hs : Inv type s) (hc : Alive c s)
    (h : ∀ a : Action C H M n, OwnOf c a → step type pb s a = none) :
    Link.Settled requestEnds (s.up c) ∧ Link.Settled (frameEnds (type c)) (s.down c) := by
  constructor
  · intro a ha
    cases a with
    | read b =>
      have hne : b ≠ .disconnect := by
        rintro rfl
        exact ha
      by_contra hsome
      obtain ⟨link, hlink⟩ := Option.ne_none_iff_exists'.mp hsome
      obtain ⟨reader, hr, rfl⟩ := Option.map_eq_some_iff.mp hlink
      have hhearing : Hearing c [] (s.up c).reader reader
          (heard c [] (s.up c).reader reader : Option (Server.Action C n)) := step_hearing hr
      obtain ⟨server, hserver⟩ := exists_hear pb hhearing (hs.follows c) hc.accepted List.not_mem_nil
      have hnone := h (.read c b []) ⟨rfl, hne, List.not_mem_nil⟩
      simp [step, hc.accepted, hr, hserver] at hnone
    | runPosted | send | written | arrive | lose =>
      have hnone := h (.up c _) ⟨rfl, ha⟩
      simpa [step] using hnone
  · intro a ha
    simpa [step] using h (.down c a) ⟨rfl, ha⟩

theorem run_alive {s t : State C H n} {c : C} {more : List (Action C H M n)} (hs : Inv type s)
    (hc : Alive c s) (hmore : ∀ a ∈ more, OwnOf c a) (ht : run (step type pb) s more = some t) :
    Inv type t ∧ Alive c t ∧ more.length + work c t ≤ work c s ∧ t.requests = s.requests ∧
      t.server.written = s.server.written := by
  induction more generalizing s with
  | nil =>
    obtain rfl : s = t := by simpa using ht
    exact ⟨hs, hc, by simp, rfl, rfl⟩
  | cons a more ih =>
    obtain ⟨u, hu, ht⟩ := run_cons_eq_some.mp ht
    obtain ⟨halive, hwork, hrequests, hwritten⟩ := step_alive hs hc (hmore a List.mem_cons_self) hu
    obtain ⟨hinv, hend, hlen, hsame, hsame'⟩ :=
      ih (step_inv hs hu) halive (fun b hb => hmore b (List.mem_cons_of_mem _ hb)) ht
    refine ⟨hinv, hend, ?_, hsame.trans hrequests, hsame'.trans hwritten⟩
    rw [List.length_cons]
    omega

end Czrpc.Network
