import Mathlib.Data.List.Basic
import Mathlib.Tactic.Common

/-! A log of writes to keyed cells, in which the last write to a key counts. -/
namespace Czrpc.LastWrite
variable {κ β : Type*} [DecidableEq κ]

/-- The value of the last write to `key` in the log. -/
def lastWrite (key : κ) : List (κ × β) → Option β
  | [] => none
  | (k, v) :: log => (lastWrite key log).or (if k = key then some v else none)

@[simp] theorem lastWrite_nil (key : κ) : lastWrite key ([] : List (κ × β)) = none := rfl

theorem lastWrite_cons (key k : κ) (v : β) (log : List (κ × β)) :
    lastWrite key ((k, v) :: log) = (lastWrite key log).or (if k = key then some v else none) := rfl

theorem lastWrite_append (key : κ) (as bs : List (κ × β)) :
    lastWrite key (as ++ bs) = (lastWrite key bs).or (lastWrite key as) := by
  induction as with
  | nil => simp
  | cons a as ih =>
    obtain ⟨k, v⟩ := a
    rw [List.cons_append, lastWrite_cons, lastWrite_cons, ih, Option.or_assoc]

theorem lastWrite_singleton (key k : κ) (v : β) :
    lastWrite key [(k, v)] = if k = key then some v else none := by
  simp [lastWrite_cons]

theorem lastWrite_eq_none_iff (key : κ) (log : List (κ × β)) :
    lastWrite key log = none ↔ ∀ v, (key, v) ∉ log := by
  induction log with
  | nil => simp
  | cons a log ih =>
    obtain ⟨k, v⟩ := a
    rw [lastWrite_cons, Option.or_eq_none_iff, ih]
    by_cases hk : k = key
    · subst k
      constructor
      · rintro ⟨-, h⟩
        simp at h
      · intro h
        exact absurd List.mem_cons_self (h v)
    · simp [hk, Ne.symm hk]

theorem mem_of_lastWrite {key : κ} {log : List (κ × β)} {v : β} (h : lastWrite key log = some v) :
    (key, v) ∈ log := by
  induction log with
  | nil => cases h
  | cons a log ih =>
    obtain ⟨k, w⟩ := a
    rw [lastWrite_cons, Option.or_eq_some_iff] at h
    rcases h with h | ⟨-, h⟩
    · exact List.mem_cons_of_mem _ (ih h)
    · split_ifs at h with hk
      subst k
      obtain rfl := Option.some.inj h
      exact List.mem_cons_self

theorem lastWrite_suffix {key : κ} {as bs : List (κ × β)} (h : bs <:+ as) {v : β}
    (hv : lastWrite key bs = some v) : lastWrite key as = some v := by
  obtain ⟨pre, rfl⟩ := h
  rw [lastWrite_append, hv, Option.some_or]

theorem lastWrite_of_forall {key : κ} {log : List (κ × β)} {v : β} (hm : (key, v) ∈ log)
    (h : ∀ w, (key, w) ∈ log → w = v) : lastWrite key log = some v := by
  cases hl : lastWrite key log with
  | none => exact absurd hm ((lastWrite_eq_none_iff key log).mp hl v)
  | some w => rw [h w (mem_of_lastWrite hl)]

/-- The order of the writes to a key does not matter if they agree. -/
theorem lastWrite_eq_of_mem_iff {key : κ} {as bs : List (κ × β)}
    (h : ∀ v, (key, v) ∈ as ↔ (key, v) ∈ bs)
    (hagree : ∀ v w, (key, v) ∈ as → (key, w) ∈ as → v = w) :
    lastWrite key as = lastWrite key bs := by
  cases hb : lastWrite key bs with
  | none =>
    rw [lastWrite_eq_none_iff] at hb ⊢
    exact fun v hv => hb v ((h v).mp hv)
  | some v =>
    have hv : (key, v) ∈ as := (h v).mpr (mem_of_lastWrite hb)
    exact lastWrite_of_forall hv fun w hw => hagree w v hw hv

theorem lastWrite_map_const (key : κ) (keys : List κ) (v : β) :
    lastWrite key (keys.map fun k => (k, v)) = if key ∈ keys then some v else none := by
  split_ifs with h
  · refine lastWrite_of_forall (List.mem_map.mpr ⟨key, h, rfl⟩) ?_
    intro w hw
    obtain ⟨k, -, he⟩ := List.mem_map.mp hw
    exact (Prod.mk.inj he).2.symm
  · rw [lastWrite_eq_none_iff]
    intro w hw
    obtain ⟨k, hk, he⟩ := List.mem_map.mp hw
    exact h ((Prod.mk.inj he).1 ▸ hk)

/-- The cell after the log, from the value it had before. -/
def written (before : β) (key : κ) (log : List (κ × β)) : β := (lastWrite key log).getD before

@[simp] theorem written_nil (before : β) (key : κ) :
    written before key ([] : List (κ × β)) = before := rfl

theorem written_append (before : β) (key : κ) (as bs : List (κ × β)) :
    written before key (as ++ bs) = written (written before key as) key bs := by
  unfold written
  rw [lastWrite_append]
  cases lastWrite key bs <;> rfl

theorem written_cons (before : β) (key k : κ) (v : β) (log : List (κ × β)) :
    written before key ((k, v) :: log) = written (if k = key then v else before) key log := by
  rw [← List.singleton_append, written_append]
  simp only [written, lastWrite_singleton]
  split_ifs <;> rfl

theorem written_false_eq_true_iff (key : κ) (log : List (κ × Bool)) :
    written false key log = true ↔ lastWrite key log = some true := by
  unfold written
  cases lastWrite key log <;> simp

end Czrpc.LastWrite
