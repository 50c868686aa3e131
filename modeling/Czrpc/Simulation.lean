import Czrpc.Execution

/-! Two machines for one system. A step of the first one shows an action of the second one, or
it is a step of its own that the second one has no word for. When each step shows what the second
machine can do, and each step of the second one can be shown, the two have the same runs. -/
namespace Czrpc.Simulation
open Execution

variable {σ τ α β : Type*}

/-- The first machine, what its steps show, and how the second machine sees its states. `inv`
holds in the states that it reaches. -/
structure Layer (σ τ α β : Type*) where
  step : σ → α → Option σ
  spec : τ → β → Option τ
  shows : α → Option β
  view : σ → τ
  inv : σ → Prop

variable (L : Layer σ τ α β)

/-- Every step shows an action that the second machine can take, or changes nothing that it
sees. -/
def Layer.Sound : Prop :=
  ∀ s a t, L.inv s → L.step s a = some t →
    L.inv t ∧ run L.spec (L.view s) (L.shows a).toList = some (L.view t)

/-- Every action of the second machine is shown, after some steps that it does not see. -/
def Layer.Complete : Prop :=
  ∀ s b u, L.inv s → L.spec (L.view s) b = some u →
    ∃ as t, run L.step s as = some t ∧ as.filterMap L.shows = [b]

variable {L}

theorem Layer.Sound.run (hL : L.Sound) {s t : σ} {as : List α} (hs : L.inv s)
    (hr : run L.step s as = some t) :
    L.inv t ∧ Execution.run L.spec (L.view s) (as.filterMap L.shows) = some (L.view t) := by
  induction as generalizing s with
  | nil =>
    obtain rfl : s = t := by simpa using hr
    exact ⟨hs, rfl⟩
  | cons a as ih =>
    obtain ⟨u, hu, hr⟩ := run_cons_eq_some.mp hr
    obtain ⟨hinv, hshown⟩ := hL s a u hs hu
    obtain ⟨hlast, hrest⟩ := ih hinv hr
    refine ⟨hlast, ?_⟩
    have hall := run_trans hshown hrest
    cases hs : L.shows a with
    | none => simpa [List.filterMap_cons, hs] using hall
    | some b => simpa [List.filterMap_cons, hs] using hall

theorem Layer.Complete.run (hL : L.Sound) (hC : L.Complete) {s : σ} {u : τ} {bs : List β}
    (hs : L.inv s) (hr : run L.spec (L.view s) bs = some u) :
    ∃ as t, Execution.run L.step s as = some t ∧ as.filterMap L.shows = bs ∧ L.view t = u := by
  induction bs generalizing s with
  | nil => exact ⟨[], s, rfl, rfl, by simpa using hr⟩
  | cons b bs ih =>
    obtain ⟨v, hv, hr⟩ := run_cons_eq_some.mp hr
    obtain ⟨as, t, hrun, has⟩ := hC s b v hs hv
    obtain ⟨hinv, hshown⟩ := hL.run hs hrun
    rw [has] at hshown
    obtain rfl : v = L.view t := by
      simpa [Execution.run, hv] using hshown
    obtain ⟨as', t', hrun', has', hview⟩ := ih hinv hr
    exact ⟨as ++ as', t', run_trans hrun hrun', by rw [List.filterMap_append, has, has']; rfl, hview⟩

theorem Layer.run_iff (hL : L.Sound) (hC : L.Complete) {s : σ} (hs : L.inv s) (bs : List β) (u : τ) :
    (∃ as t, Execution.run L.step s as = some t ∧ as.filterMap L.shows = bs ∧ L.view t = u) ↔
      Execution.run L.spec (L.view s) bs = some u := by
  constructor
  · rintro ⟨as, t, hrun, rfl, rfl⟩
    exact (hL.run hs hrun).2
  · exact hC.run hL hs

end Czrpc.Simulation
