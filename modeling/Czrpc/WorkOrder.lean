import Mathlib.Data.Fintype.Card
import Mathlib.Data.List.TakeWhile
import Czrpc.WorkPool

/-! In which order the tasks of a pool end. A worker takes the front of the queue, so when it ends
a task, every task queued before that one is done or with another worker: with `n` workers a task
is overtaken by what was queued behind it, but it never ends ahead of `n` others. -/
namespace Czrpc.WorkPool
variable {τ : Type*} {n : ℕ} [DecidableEq τ]

def before (queued : List τ) (x : τ) : List τ := queued.takeWhile (· ≠ x)

def overtaken (queued done : List τ) (x : τ) : List τ := (before queued x).filter (· ∉ done)

theorem before_append {queued : List τ} {x : τ} (hx : x ∈ queued) (more : List τ) :
    before (queued ++ more) x = before queued x := by
  induction queued with
  | nil => cases hx
  | cons y queued ih =>
    simp only [before, List.cons_append, List.takeWhile_cons]
    by_cases hy : y = x
    · simp [hy]
    · have htail : x ∈ queued := by
        rcases List.mem_cons.mp hx with rfl | hx
        · exact absurd rfl hy
        · exact hx
      simp only [ne_eq, hy, not_false_eq_true, decide_true, if_true]
      exact congrArg (y :: ·) (ih htail)

theorem ne_of_mem_before {queued : List τ} {x y : τ} (h : y ∈ before queued x) : y ≠ x := by
  simpa using List.mem_takeWhile_imp h

theorem before_subset (queued : List τ) (x : τ) : before queued x ⊆ queued :=
  (List.takeWhile_prefix _).subset

theorem overtaken_done_le (queued done more : List τ) (x : τ) :
    (overtaken queued (done ++ more) x).length ≤ (overtaken queued done x).length := by
  apply List.Sublist.length_le
  apply List.monotone_filter_right
  intro y hy
  simp only [decide_eq_true_eq, List.mem_append, not_or] at hy ⊢
  exact hy.1

/-- `queued` are all the tasks that were ever queued, in this order, and `done` those that ended.
What has been taken is done or with a worker. -/
structure Ordered (queued : List τ) (p : Pool n τ) (done : List τ) : Prop where
  nodup : queued.Nodup
  taken : ∃ taken, queued = taken ++ p.queue ∧
    ∀ x, x ∈ taken ↔ x ∈ done ∨ ∃ w, p.running w = some x
  bounded : ∀ x ∈ done, (overtaken queued done x).length < n

theorem ordered_empty : Ordered [] (empty : Pool n τ) [] where
  nodup := List.nodup_nil
  taken := ⟨[], rfl, by simp [empty]⟩
  bounded := nofun

theorem Ordered.mem_of_done {queued done : List τ} {p : Pool n τ} (h : Ordered queued p done)
    {x : τ} (hx : x ∈ done) : x ∈ queued := by
  obtain ⟨taken, hq, htaken⟩ := h.taken
  rw [hq]
  exact List.mem_append_left _ ((htaken x).mpr (Or.inl hx))

theorem Ordered.running_before {queued done : List τ} {p : Pool n τ} (h : Ordered queued p done)
    {w : Fin n} {x : τ} (hw : p.running w = some x) {y : τ} (hy : y ∈ overtaken queued done x) :
    ∃ v, v ≠ w ∧ p.running v = some y := by
  obtain ⟨taken, hq, htaken⟩ := h.taken
  obtain ⟨hbefore, hnot⟩ := List.mem_filter.mp hy
  have hx : x ∈ taken := (htaken x).mpr (Or.inr ⟨w, hw⟩)
  have hmem : y ∈ taken := by
    rw [hq, before_append hx] at hbefore
    exact before_subset taken x hbefore
  rcases (htaken y).mp hmem with hdone | ⟨v, hv⟩
  · exact absurd hdone (by simpa using hnot)
  · refine ⟨v, ?_, hv⟩
    rintro rfl
    rw [hw] at hv
    exact ne_of_mem_before hbefore (Option.some.inj hv).symm

/-- So there are fewer of those than workers. -/
theorem Ordered.running_bound {queued done : List τ} {p : Pool n τ} (h : Ordered queued p done)
    {w : Fin n} {x : τ} (hw : p.running w = some x) : (overtaken queued done x).length < n := by
  have hnodup : (overtaken queued done x).Nodup :=
    (h.nodup.sublist (List.takeWhile_sublist _)).filter _
  have hsub : (overtaken queued done x).toFinset.image some ⊆
      (Finset.univ.erase w).image p.running := by
    intro o ho
    obtain ⟨y, hy, rfl⟩ := Finset.mem_image.mp ho
    obtain ⟨v, hv, hrun⟩ := h.running_before hw (List.mem_toFinset.mp hy)
    exact Finset.mem_image.mpr ⟨v, Finset.mem_erase.mpr ⟨hv, Finset.mem_univ v⟩, hrun⟩
  have hworkers : (Finset.univ.erase w).card < n := by
    have hlt := Finset.card_erase_lt_of_mem (Finset.mem_univ w)
    rwa [Finset.card_univ, Fintype.card_fin] at hlt
  calc (overtaken queued done x).length
      = (overtaken queued done x).toFinset.card := (List.toFinset_card_of_nodup hnodup).symm
    _ = ((overtaken queued done x).toFinset.image some).card :=
        (Finset.card_image_of_injective _ (Option.some_injective τ)).symm
    _ ≤ ((Finset.univ.erase w).image p.running).card := Finset.card_le_card hsub
    _ ≤ (Finset.univ.erase w).card := Finset.card_image_le
    _ < n := hworkers

theorem Ordered.addTask {queued done : List τ} {p : Pool n τ} (h : Ordered queued p done) {x : τ}
    (hx : x ∉ queued) : Ordered (queued ++ [x]) (addTask p x) done := by
  obtain ⟨taken, hq, htaken⟩ := h.taken
  refine ⟨?_, ⟨taken, ?_, htaken⟩, ?_⟩
  · rw [List.nodup_append]
    exact ⟨h.nodup, List.nodup_singleton x, fun y hy z hz => by
      rw [List.mem_singleton.mp hz]
      rintro rfl
      exact hx hy⟩
  · rw [hq, List.append_assoc]
    rfl
  · intro y hy
    rw [overtaken, before_append (h.mem_of_done hy)]
    exact h.bounded y hy

theorem Ordered.take {queued done : List τ} {p q : Pool n τ} (h : Ordered queued p done)
    {w : Fin n} (ht : take p w = some q) : Ordered queued q done := by
  obtain ⟨taken, hq, htaken⟩ := h.taken
  obtain ⟨task, rest, hidle, hqueue, rfl⟩ := take_eq_some ht
  refine ⟨h.nodup, ⟨taken ++ [task], ?_, ?_⟩, h.bounded⟩
  · rw [hq, hqueue, List.append_assoc]
    rfl
  · intro x
    rw [List.mem_append, List.mem_singleton, htaken, exists_running_update]
    constructor
    · rintro ((hdone | ⟨v, hv⟩) | rfl)
      · exact Or.inl hdone
      · refine Or.inr (Or.inr ⟨v, ?_, hv⟩)
        rintro rfl
        rw [hidle] at hv
        cases hv
      · exact Or.inr (Or.inl rfl)
    · rintro (hdone | hnew | ⟨v, -, hv⟩)
      · exact Or.inl (Or.inl hdone)
      · exact Or.inr (Option.some.inj hnew).symm
      · exact Or.inl (Or.inr ⟨v, hv⟩)

theorem Ordered.finish {queued done : List τ} {p q : Pool n τ} (h : Ordered queued p done)
    {w : Fin n} {task : τ} (hf : finish p w = some (task, q)) :
    Ordered queued q (done ++ [task]) := by
  obtain ⟨taken, hq, htaken⟩ := h.taken
  obtain ⟨hrun, rfl⟩ := finish_eq_some hf
  refine ⟨h.nodup, ⟨taken, hq, ?_⟩, ?_⟩
  · intro x
    rw [htaken, List.mem_append, List.mem_singleton, exists_running_update]
    constructor
    · rintro (hdone | ⟨v, hv⟩)
      · exact Or.inl (Or.inl hdone)
      · by_cases hvw : v = w
        · subst hvw
          rw [hrun] at hv
          exact Or.inl (Or.inr (Option.some.inj hv).symm)
        · exact Or.inr (Or.inr ⟨v, hvw, hv⟩)
    · rintro ((hdone | rfl) | hnone | ⟨v, -, hv⟩)
      · exact Or.inl hdone
      · exact Or.inr ⟨w, hrun⟩
      · cases hnone
      · exact Or.inr ⟨v, hv⟩
  · intro x hx
    refine Nat.lt_of_le_of_lt (overtaken_done_le queued done [task] x) ?_
    rcases List.mem_append.mp hx with hx | hx
    · exact h.bounded x hx
    · rw [List.mem_singleton.mp hx]
      exact h.running_bound hrun

end Czrpc.WorkPool
