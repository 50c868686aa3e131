import Mathlib.Data.List.Basic
import Mathlib.Tactic.Common

/-! Runs of a partial step function. An action carries every choice its step
makes, so a run is determined by its first state and its list of actions, and
any finite run can be executed. -/
namespace Czrpc.Execution
variable {σ α : Type*}

/-- Take the actions in order. The run is `none` as soon as one is not enabled. -/
def run (step : σ → α → Option σ) : σ → List α → Option σ
  | s, [] => some s
  | s, a :: as => (step s a).bind fun t => run step t as

/-- Every action of the run is taken from a state in which `ok` allows it. -/
def Conforms (step : σ → α → Option σ) (ok : σ → α → Prop) : σ → List α → Prop
  | _, [] => True
  | s, a :: as => ok s a ∧ ∀ t ∈ step s a, Conforms step ok t as

variable {step : σ → α → Option σ} {ok : σ → α → Prop}

@[simp] theorem run_nil (s : σ) : run step s [] = some s := rfl

theorem run_cons (s : σ) (a : α) (as : List α) :
    run step s (a :: as) = (step s a).bind fun t => run step t as := rfl

theorem run_cons_eq_some {s t : σ} {a : α} {as : List α} :
    run step s (a :: as) = some t ↔ ∃ u, step s a = some u ∧ run step u as = some t := by
  simp [run_cons, Option.bind_eq_some_iff]

theorem run_append (s : σ) (as bs : List α) :
    run step s (as ++ bs) = (run step s as).bind fun t => run step t bs := by
  induction as generalizing s with
  | nil => rfl
  | cons a as ih =>
    simp only [List.cons_append, run_cons]
    cases step s a with
    | none => rfl
    | some t => simp [ih]

theorem run_trans {s t u : σ} {as bs : List α} (h : run step s as = some t)
    (g : run step t bs = some u) : run step s (as ++ bs) = some u := by
  rw [run_append, h]
  exact g

instance decidableConforms [∀ s a, Decidable (ok s a)] :
    ∀ (s : σ) (as : List α), Decidable (Conforms step ok s as)
  | _, [] => .isTrue trivial
  | s, a :: as =>
    match h : step s a with
    | none => decidable_of_iff (ok s a) (by simp [Conforms, h])
    | some t =>
      haveI := decidableConforms t as
      decidable_of_iff (ok s a ∧ Conforms step ok t as) (by simp [Conforms, h])

theorem conforms_of_forall {as : List α} (h : ∀ a ∈ as, ∀ s, ok s a) (s : σ) :
    Conforms step ok s as := by
  induction as generalizing s with
  | nil => trivial
  | cons a as ih =>
    exact ⟨h a List.mem_cons_self s, fun t _ => ih (fun b hb => h b (List.mem_cons_of_mem _ hb)) t⟩

theorem Conforms.mono {ok' : σ → α → Prop} {s : σ} {as : List α} (h : Conforms step ok s as)
    (hok : ∀ s a, ok s a → ok' s a) : Conforms step ok' s as := by
  induction as generalizing s with
  | nil => trivial
  | cons a as ih => exact ⟨hok s a h.1, fun t ht => ih (h.2 t ht)⟩

theorem Conforms.append {s t : σ} {as bs : List α} (ha : Conforms step ok s as)
    (hr : run step s as = some t) (hb : Conforms step ok t bs) : Conforms step ok s (as ++ bs) := by
  induction as generalizing s with
  | nil =>
    obtain rfl : s = t := by simpa using hr
    exact hb
  | cons a as ih =>
    obtain ⟨u, hu, hr⟩ := run_cons_eq_some.mp hr
    refine ⟨ha.1, ?_⟩
    intro v hv
    obtain rfl := Option.some.inj (hu.symm.trans hv)
    exact ih (ha.2 u hv) hr

/-- What every allowed step keeps holds at the end of every conforming run, hence
in every state it reaches, since a prefix of a conforming run is one. -/
theorem conforming_invariant {I : σ → Prop}
    (hI : ∀ s a t, I s → ok s a → step s a = some t → I t)
    {s t : σ} {as : List α} (hs : I s) (hc : Conforms step ok s as)
    (hr : run step s as = some t) : I t := by
  induction as generalizing s with
  | nil =>
    obtain rfl : s = t := by simpa using hr
    exact hs
  | cons a as ih =>
    obtain ⟨u, hu, hr⟩ := run_cons_eq_some.mp hr
    exact ih (hI s a u hs hc.1 hu) (hc.2 u hu) hr

theorem run_invariant {I : σ → Prop} (hI : ∀ s a t, I s → step s a = some t → I t)
    {s t : σ} {as : List α} (hs : I s) (hr : run step s as = some t) : I t := by
  induction as generalizing s with
  | nil =>
    obtain rfl : s = t := by simpa using hr
    exact hs
  | cons a as ih =>
    obtain ⟨u, hu, hr⟩ := run_cons_eq_some.mp hr
    exact ih (hI s a u hs hu) hr

theorem run_length_le {μ : σ → ℕ} (hμ : ∀ s a t, step s a = some t → μ t < μ s)
    {s t : σ} {as : List α} (hr : run step s as = some t) : as.length + μ t ≤ μ s := by
  induction as generalizing s with
  | nil =>
    obtain rfl : s = t := by simpa using hr
    simp
  | cons a as ih =>
    obtain ⟨u, hu, hr⟩ := run_cons_eq_some.mp hr
    have hstep := hμ s a u hu
    have hrest := ih hr
    simp only [List.length_cons]
    omega

/-- Where every state that is not done has a step of the kind `p` that takes something
from a measure, a run of such steps leads to one that is. -/
theorem exists_run_done {μ : σ → ℕ} {I done : σ → Prop} {p : α → Prop}
    (hI : ∀ s, I s → ¬ done s → ∃ a t, p a ∧ step s a = some t ∧ I t ∧ μ t < μ s)
    {s : σ} (hs : I s) : ∃ as t, (∀ a ∈ as, p a) ∧ run step s as = some t ∧ I t ∧ done t := by
  induction hn : μ s using Nat.strongRecOn generalizing s with
  | ind n ih =>
    by_cases hd : done s
    · exact ⟨[], s, by simp, rfl, hs, hd⟩
    · obtain ⟨a, t, ha, hstep, ht, hlt⟩ := hI s hs hd
      obtain ⟨as, u, hp, hrun, hu, hdone⟩ := ih (μ t) (by omega) ht rfl
      refine ⟨a :: as, u, ?_, run_cons_eq_some.mpr ⟨t, hstep, hrun⟩, hu, hdone⟩
      intro b hb
      rcases List.mem_cons.mp hb with rfl | hb
      · exact ha
      · exact hp b hb

end Czrpc.Execution
