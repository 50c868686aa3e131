import Czrpc.Monitor

/-! Every call of a method that holds the mutex can return. The thread that has the mutex comes to
the end of its method, since each access but the last brings it nearer; then the mutex is free,
and the next one can take it. -/
namespace Czrpc.Monitor
open Execution

variable {σ ι ρ π ε : Type*} {N : ℕ}

/-- A step of a call that is in progress, with surroundings that are allowed for it. -/
def Serving (allowed : ι → ε → Prop) (s : State N σ ι ρ π) : Action N ι ε → Prop
  | .call _ _ => False
  | a => Allowed allowed s a

/-- The calls in progress can take the threads from `s` to `t`, without any new call. -/
def Leads (M : Methods σ ι ρ π ε) (allowed : ι → ε → Prop) (s t : State N σ ι ρ π) : Prop :=
  ∃ as, Conforms (step M) (Serving allowed) s as ∧ run (step M) s as = some t

section Progress
variable {M : Methods σ ι ρ π ε} {spec : σ → ι → σ × ρ} {allowed : ι → ε → Prop}
  {During : ι → σ → π → σ → Prop} {rank : π → σ → ℕ} {init base : σ}
  {s t u : State N σ ι ρ π} {points : List (Linearizability.Point ι ρ)}

theorem Leads.refl (s : State N σ ι ρ π) : Leads M allowed s s := ⟨[], trivial, rfl⟩

theorem Leads.trans (h : Leads M allowed s t) (g : Leads M allowed t u) : Leads M allowed s u := by
  obtain ⟨as, has, hr⟩ := h
  obtain ⟨bs, hbs, hr'⟩ := g
  exact ⟨as ++ bs, has.append hr hbs, run_trans hr hr'⟩

theorem Leads.step {a : Action N ι ε} (ha : Serving allowed s a) (h : step M s a = some t) :
    Leads M allowed s t := by
  refine ⟨[a], ⟨ha, fun v _ => trivial⟩, ?_⟩
  rw [run_cons, h]
  rfl

structure Freed (s t : State N σ ι ρ π) (j : Fin N) : Prop where
  idle : t.threads j = .idle
  mutex : t.mutex = none
  others : ∀ i, i ≠ j → t.threads i = s.threads i

theorem Freed.after {j : Fin N} (h : Freed t u j) (ht : ∀ i, i ≠ j → t.threads i = s.threads i) :
    Freed s u j :=
  ⟨h.idle, h.mutex, fun i hi => (h.others i hi).trans (ht i hi)⟩

theorem leads_leaving (M : Methods σ ι ρ π ε) (allowed : ι → ε → Prop)
    (hs : Inv spec During init s base points) {j : Fin N} {k : ℕ} {y : ρ}
    (hj : s.threads j = .leaving k y) :
    ∃ t, Leads M allowed s t ∧ Freed s t j ∧ ∃ base points, Inv spec During init t base points := by
  have hunlock : step M s (.unlock j) =
      some { setThread s j (.returning k y) with mutex := none } := by simp only [step, hj]
  have hreturning : (setThread s j (.returning k y)).threads j = .returning k y :=
    Function.update_self _ _ _
  refine ⟨_, (Leads.step (a := .unlock j) trivial hunlock).trans
    (Leads.step (a := .ret j) trivial (by simp only [step, hreturning]; rfl)), ?_, ?_⟩
  · refine ⟨Function.update_self _ _ _, rfl, fun i hi => ?_⟩
    simp [setThread, hi]
  · exact ⟨base, points, (hs.unlock hj).ret hreturning⟩

theorem leads_inside (hC : Correct M spec allowed During rank) (hallowed : ∀ x, ∃ e, allowed x e)
    (hs : Inv spec During init s base points) {j : Fin N} {k : ℕ} {x : ι} {p : π}
    (hj : s.threads j = .inside k x p) :
    ∃ t, Leads M allowed s t ∧ Freed s t j ∧ ∃ base points, Inv spec During init t base points := by
  obtain ⟨e, he⟩ := hallowed x
  induction hn : rank p s.object using Nat.strongRecOn generalizing s p with
  | ind n ih =>
    have hserving : Serving allowed s (.access j e) := by
      intro k' x' p' hj'
      rw [hj] at hj'
      obtain ⟨-, rfl, -⟩ := Pc.inside.inj hj'
      exact he
    have hother : ∀ pc i, i ≠ j → (setThread s j pc).threads i = s.threads i := by
      intro pc i hi
      simp [setThread, hi]
    cases hb : M.body e p s.object with
    | mk object r =>
      have hstep : step M s (.access j e) =
          some { setThread s j (.after k x r) with object := object } := by
        simp only [step, hj, hb]
      cases r with
      | inl p' =>
        have hinv := hs.next hC hj he hb
        have hless := (hC.next (hs.during j k x p hj) he hb).2
        obtain ⟨t, hleads, hfreed, hinv'⟩ :=
          ih (rank p' object) (by omega) hinv (Function.update_self _ _ _) rfl
        exact ⟨t, (Leads.step hserving hstep).trans hleads, hfreed.after (hother _), hinv'⟩
      | inr y =>
        have hinv := hs.last hC hj he hb
        obtain ⟨t, hleads, hfreed, hinv'⟩ :=
          leads_leaving M allowed hinv (Function.update_self _ _ _)
        exact ⟨t, (Leads.step hserving hstep).trans hleads, hfreed.after (hother _), hinv'⟩

theorem leads_free (hC : Correct M spec allowed During rank) (hallowed : ∀ x, ∃ e, allowed x e)
    (hs : Inv spec During init s base points) {j : Fin N} (hj : s.mutex = some j) :
    ∃ t, Leads M allowed s t ∧ Freed s t j ∧ ∃ base points, Inv spec During init t base points := by
  have hlocked := (hs.holder j).mpr hj
  cases hpc : s.threads j with
  | inside k x p => exact leads_inside hC hallowed hs hpc
  | leaving k y => exact leads_leaving M allowed hs hpc
  | idle | calling | returning =>
    rw [hpc] at hlocked
    cases hlocked

theorem leads_calling (hC : Correct M spec allowed During rank) (hallowed : ∀ x, ∃ e, allowed x e)
    (hs : Inv spec During init s base points) {i : Fin N} {k : ℕ} {x : ι}
    (hi : s.threads i = .calling k x) (hm : s.mutex = none) :
    ∃ t, Leads M allowed s t ∧ t.threads i = .idle := by
  have hlock : step M s (.lock i) =
      some { setThread s i (.inside k x (M.enter x)) with mutex := some i } := by
    simp only [step, hi, hm]
  obtain ⟨t, hleads, hfreed, -⟩ :=
    leads_inside hC hallowed (hs.lock hC hi hm) (Function.update_self _ _ _)
  exact ⟨t, (Leads.step (a := .lock i) trivial hlock).trans hleads, hfreed.idle⟩

theorem Inv.returns (hC : Correct M spec allowed During rank) (hallowed : ∀ x, ∃ e, allowed x e)
    (hs : Inv spec During init s base points) (i : Fin N) :
    ∃ t, Leads M allowed s t ∧ t.threads i = .idle := by
  cases hpc : s.threads i with
  | idle => exact ⟨s, .refl s, hpc⟩
  | calling k x =>
    cases hm : s.mutex with
    | none => exact leads_calling hC hallowed hs hpc hm
    | some j =>
      obtain ⟨t, hleads, hfreed, base', points', hinv⟩ := leads_free hC hallowed hs hm
      have hij : i ≠ j := by
        rintro rfl
        have hlocked := (hs.holder i).mpr hm
        rw [hpc] at hlocked
        cases hlocked
      obtain ⟨u, hleads', hidle⟩ :=
        leads_calling hC hallowed hinv ((hfreed.others i hij).trans hpc) hfreed.mutex
      exact ⟨u, hleads.trans hleads', hidle⟩
  | inside k x p =>
    obtain ⟨t, hleads, hfreed, -⟩ := leads_inside hC hallowed hs hpc
    exact ⟨t, hleads, hfreed.idle⟩
  | leaving k y =>
    obtain ⟨t, hleads, hfreed, -⟩ := leads_leaving M allowed hs hpc
    exact ⟨t, hleads, hfreed.idle⟩
  | returning k y =>
    exact ⟨_, .step (a := .ret i) trivial (by simp only [step, hpc]; rfl), Function.update_self _ _ _⟩

/-- In every run the calls look like operations of the specification, one after another, and
those in progress can return. -/
theorem Correct.serves (hC : Correct M spec allowed During rank) (hallowed : ∀ x, ∃ e, allowed x e)
    {as : List (Action N ι ε)} (hc : Conforms (step M) (Allowed allowed) (initial init) as)
    (hr : run (step M) (initial init) as = some s) :
    Linearizability.Linearizable spec init s.ops ∧
      ∀ i, ∃ t, Leads M allowed s t ∧ t.threads i = .idle := by
  obtain ⟨base, points, hinv⟩ := hC.run_inv hc hr
  exact ⟨hinv.explains.linearizable, hinv.returns hC hallowed⟩

end Progress

end Czrpc.Monitor
