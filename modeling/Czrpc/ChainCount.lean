import Czrpc.AsyncClient
import Czrpc.SubClient

/-! How many operations a client has in flight. A handler takes its operation out of flight and
initiates one, with two exceptions: the handler of a content read that fails initiates two, and
the handler of a connect that ends with `already_connected` none. What a client has in flight is
therefore known from the completions that it has seen, and only the second exception can leave it
with nothing to wait for. -/
namespace Czrpc.IoChain
open Execution

variable {φ : Type*}

/-- The handler initiates one operation more than it takes. -/
def Completion.adds : Completion φ → Bool
  | .content _ ec _ => ec
  | _ => false

def Completion.ends : Completion φ → Bool
  | .connect _ result => result = .alreadyConnected
  | _ => false

/-- The client has run and seen the completions `cs`. -/
structure Counted (s : State) (cs : List (Completion φ)) : Prop where
  isOpen : s.isOpen = true
  count : inFlight s + cs.countP Completion.ends = 1 + cs.countP Completion.adds

def Tally (s : State) (cs : List (Completion φ)) : Prop := s = initial ∧ cs = [] ∨ Counted s cs

theorem connectHandler_count (s : State) (i : ℕ) (result : ConnectResult) :
    inFlight (@connectHandler φ s result).1 + [(Completion.connect i result : Completion φ)].countP
      Completion.ends = inFlight s + 1 := by
  cases result with
  | ok => simp [connectHandler, asyncReadHead, Completion.ends]
  | alreadyConnected => simp [connectHandler, Completion.ends]
  | failed => simp [connectHandler, Completion.ends]

theorem step_initial (c : Completion φ) : step initial c = none := by
  cases c <;> rfl

theorem Counted.complete {s t : State} {cs : List (Completion φ)} {c : Completion φ} {e : Event φ}
    (hs : Counted s cs) (h : step s c = some (t, e)) : Counted t (cs ++ [c]) := by
  have hcount := hs.count
  obtain ⟨i, ec, op, rfl, hr, -, -, rfl, -⟩ | ⟨i, ec, frame, op, rfl, hr, -, -, ht⟩ |
    ⟨i, result, aborted, rfl, hr, -, ht⟩ := step_cases h
  · have herase := inFlight_erase_read hr
    refine ⟨headHandler_isOpen _ _, ?_⟩
    rw [headHandler_inFlight, List.countP_append, List.countP_append]
    simp [Completion.ends, Completion.adds]
    omega
  · have herase := inFlight_erase_read hr
    obtain rfl : t = (contentHandler { s with reads := s.reads.eraseIdx i } ec frame).1 :=
      congrArg Prod.fst ht
    refine ⟨contentHandler_isOpen _ _ _, ?_⟩
    rw [contentHandler_inFlight, List.countP_append, List.countP_append]
    cases ec with
    | false =>
      rw [if_pos ⟨hs.isOpen, rfl⟩]
      simp [Completion.ends, Completion.adds]
      omega
    | true =>
      simp [Completion.ends, Completion.adds]
      omega
  · have herase := inFlight_erase_connect hr
    have hhandler := @connectHandler_count φ { s with connects := s.connects.eraseIdx i } i result
    obtain rfl : t = (@connectHandler φ { s with connects := s.connects.eraseIdx i } result).1 :=
      congrArg Prod.fst ht
    refine ⟨connectHandler_isOpen _ _ hs.isOpen, ?_⟩
    rw [List.countP_append, List.countP_append]
    simp only [List.countP_singleton, Completion.adds] at hhandler ⊢
    simp
    omega

/-- What an action of a client does to its chain, with the completion that it is. -/
inductive Advances (s : State) : Option (Completion φ) → State → Prop
  | started (hs : s = initial) : Advances s none connected
  | completed {c : Completion φ} {t : State} {e : Event φ} (h : step s c = some (t, e)) :
      Advances s (some c) t
  | written (ec : Bool) : Advances s none { s with isConnected := s.isConnected && !ec }
  | other : Advances s none s

theorem Tally.advances {s t : State} {cs : List (Completion φ)} {c : Option (Completion φ)}
    (hs : Tally s cs) (h : Advances s c t) : Tally t (cs ++ c.toList) := by
  cases h with
  | started hi =>
    rcases hs with ⟨-, rfl⟩ | hs
    · exact Or.inr ⟨rfl, rfl⟩
    · rw [hi] at hs
      exact absurd hs.isOpen nofun
  | completed h =>
    rcases hs with ⟨rfl, -⟩ | hs
    · rw [step_initial] at h
      cases h
    · exact Or.inr (hs.complete h)
  | written ec =>
    rw [Option.toList_none, List.append_nil]
    rcases hs with ⟨rfl, hc⟩ | hs
    · exact Or.inl ⟨rfl, hc⟩
    · exact Or.inr ⟨hs.isOpen, hs.count⟩
  | other => simpa using hs

theorem Tally.run {σ α : Type*} {next : σ → α → Option σ} {chain : σ → State}
    {completion : α → Option (Completion φ)}
    (hnext : ∀ s a t, next s a = some t → Advances (chain s) (completion a) (chain t))
    {s t : σ} {as : List α} {cs : List (Completion φ)} (hs : Tally (chain s) cs)
    (hr : Execution.run next s as = some t) : Tally (chain t) (cs ++ as.filterMap completion) := by
  induction as generalizing s cs with
  | nil =>
    obtain rfl : s = t := by simpa using hr
    simpa using hs
  | cons a as ih =>
    obtain ⟨u, hu, hr⟩ := run_cons_eq_some.mp hr
    have hrest := ih (hs.advances (hnext s a u hu)) hr
    cases hc : completion a with
    | none => simpa [hc] using hrest
    | some c => simpa [hc] using hrest

theorem exists_completion {s : State} (h : 0 < inFlight s) (frame : φ) :
    ∃ c : Completion φ, (step s c).isSome = true := by
  obtain ⟨isOpen, isConnected, reads, connects⟩ := s
  cases reads with
  | cons op rest =>
    obtain ⟨kind, aborted⟩ := op
    cases kind with
    | head => exact ⟨.head 0 true, by simp [step]⟩
    | content => exact ⟨.content 0 true frame, by simp [step]⟩
  | nil =>
    cases connects with
    | cons aborted rest => exact ⟨.connect 0 .failed, by simp [step]⟩
    | nil => exact absurd h (Nat.lt_irrefl 0)

theorem Counted.goes_on {s : State} {cs : List (Completion φ)} (hs : Counted s cs)
    (hends : cs.countP Completion.ends = 0) (frame : φ) :
    ∃ c : Completion φ, (step s c).isSome = true := by
  have hcount := hs.count
  exact exists_completion (by omega) frame

end Czrpc.IoChain

namespace Czrpc.AsyncClient
open Execution IoChain

def Action.completion : Action → Option (Completion Protocol.ResponseContent)
  | .complete c => some c
  | _ => none

theorem step_advances {cfg : Config} {s t : State} {a : Action} (h : step cfg s a = some t) :
    Advances s.chain a.completion t.chain := by
  cases step_effect h with
  | run hc => exact .started hc
  | complete _ hc => exact .completed hc
  | @writeDone _ ec => exact .written ec
  | _ => exact .other

end Czrpc.AsyncClient

namespace Czrpc.SubClient
open Execution IoChain

variable {F G : Type*}

def Action.completion : Action F G → Option (Completion Protocol.PushContent)
  | .complete c => some c
  | _ => none

theorem step_advances {isResend : Bool} {s t : State F G} {a : Action F G}
    (h : step isResend s a = some t) : Advances s.chain a.completion t.chain := by
  cases step_effect h with
  | run =>
    simp only [step] at h
    split_ifs at h with hc
    exact .started hc
  | complete hc =>
    rw [handleEvent_chain]
    exact .completed hc
  | @writeDone _ ec => exact .written ec
  | _ => exact .other

end Czrpc.SubClient

namespace Czrpc.IoChain
open Execution

def failedContent : List AsyncClient.Action :=
  [.run, .complete (.head 0 false), .complete (.content 0 true ⟨0, .ok, [], []⟩)]

end Czrpc.IoChain
