import Czrpc.PendingCalls

/-! The timeout sweep of `async_rpc_client`, turn by turn. `for_each_erase` moves an
iterator through the table from which it erases, and the callback of
`check_request_timeout` queues a task before it answers that its entry is to be erased. -/
namespace Czrpc.TimeoutSweep
open Protocol PendingCalls

/-- The table in iteration order, the position of the iterator, and the state on which the
callback acts. -/
structure Cursor (K V σ : Type*) where
  entries : List (K × V)
  position : ℕ
  state : σ

namespace Cursor
variable {K V σ : Type*} (func : K → V → σ → Bool × σ)

/-- One turn of the loop: the erased entry's successor takes its position, or the iterator
moves on. There is no turn at the end of the table. -/
def turn (c : Cursor K V σ) : Option (Cursor K V σ) :=
  match c.entries[c.position]? with
  | none => none
  | some e =>
    if (func e.1 e.2 c.state).1 then
      some ⟨c.entries.eraseIdx c.position, c.position, (func e.1 e.2 c.state).2⟩
    else some ⟨c.entries, c.position + 1, (func e.1 e.2 c.state).2⟩

def turns : ℕ → Cursor K V σ → Cursor K V σ
  | 0, c => c
  | n + 1, c =>
    match c.turn func with
    | none => c
    | some d => turns n d

theorem turn_end (before : List (K × V)) (s : σ) :
    turn func ⟨before, before.length, s⟩ = none := by
  simp [turn]

theorem turn_middle (before after : List (K × V)) (e : K × V) (s : σ) :
    turn func ⟨before ++ e :: after, before.length, s⟩ =
      if (func e.1 e.2 s).1 then some ⟨before ++ after, before.length, (func e.1 e.2 s).2⟩
      else some ⟨before ++ e :: after, before.length + 1, (func e.1 e.2 s).2⟩ := by
  have hat : (before ++ e :: after)[before.length]? = some e := by simp
  have herase : (before ++ e :: after).eraseIdx before.length = before ++ after := by
    rw [List.eraseIdx_append_of_length_le (Nat.le_refl _), Nat.sub_self, List.eraseIdx_cons_zero]
  simp only [turn, hat, herase]

/-- What lies before the iterator has been kept. As many turns as there are entries after it
bring it to the end, and leave of these what the recursion over them leaves. -/
theorem turns_eq (before after : List (K × V)) (s : σ) (n : ℕ) (hn : after.length ≤ n) :
    turns func n ⟨before ++ after, before.length, s⟩ =
      ⟨before ++ (UnorderedMap.forEachEraseLoop func after s).1,
        (before ++ (UnorderedMap.forEachEraseLoop func after s).1).length,
        (UnorderedMap.forEachEraseLoop func after s).2⟩ := by
  induction after generalizing before s n with
  | nil =>
    have hend := turn_end func before s
    cases n with
    | zero => simp [turns, UnorderedMap.forEachEraseLoop]
    | succ n => simp [turns, hend, UnorderedMap.forEachEraseLoop]
  | cons e after ih =>
    cases n with
    | zero => exact absurd hn (Nat.not_succ_le_zero _)
    | succ n =>
      have hn' : after.length ≤ n := Nat.le_of_succ_le_succ hn
      rw [turns, turn_middle]
      cases hfunc : (func e.1 e.2 s).1 with
      | true =>
        have hlater := ih before (func e.1 e.2 s).2 n hn'
        simp only [if_true, hlater, UnorderedMap.forEachEraseLoop, hfunc]
      | false =>
        have hlater := ih (before ++ [e]) (func e.1 e.2 s).2 n hn'
        simp only [List.append_assoc, List.singleton_append, List.length_append,
          List.length_singleton] at hlater
        simp only [Bool.false_eq_true, if_false, hlater, UnorderedMap.forEachEraseLoop, hfunc,
          List.length_append, List.length_cons]

end Cursor

def onEntry (requestTimeout now : ℤ) (uninitialized : UInt32 → UInt32) (key : UInt32)
    (entry : TaskWithTimepoint) (queued : List (ℕ × ResponseContent)) :
    Bool × List (ℕ × ResponseContent) :=
  if expired requestTimeout now entry then
    (true, queued ++ [(entry.task, timeoutContent (uninitialized key))])
  else (false, queued)

def sweep (requestTimeout now : ℤ) (uninitialized : UInt32 → UInt32)
    (taskMap : UnorderedMap UInt32 TaskWithTimepoint) (queued : List (ℕ × ResponseContent)) :
    Cursor UInt32 TaskWithTimepoint (List (ℕ × ResponseContent)) :=
  Cursor.turns (onEntry requestTimeout now uninitialized) taskMap.entries.length
    ⟨taskMap.entries, 0, queued⟩

theorem sweep_eq (requestTimeout now : ℤ) (uninitialized : UInt32 → UInt32) (s : State) :
    sweep requestTimeout now uninitialized s.taskMap s.queued =
      ⟨(checkRequestTimeout requestTimeout now uninitialized s).taskMap.entries,
        (checkRequestTimeout requestTimeout now uninitialized s).taskMap.entries.length,
        (checkRequestTimeout requestTimeout now uninitialized s).queued⟩ :=
  Cursor.turns_eq (onEntry requestTimeout now uninitialized) [] s.taskMap.entries s.queued _
    (Nat.le_refl _)

/-- A sweep at the time `now` comes to the end of the table. It leaves, in their order and as
they are, the entries younger than the timeout, and queues for each of the others its own task
once, with a timeout. -/
theorem sweep_exact (requestTimeout now : ℤ) (uninitialized : UInt32 → UInt32)
    (taskMap : UnorderedMap UInt32 TaskWithTimepoint) (queued : List (ℕ × ResponseContent)) :
    (sweep requestTimeout now uninitialized taskMap queued).turn
        (onEntry requestTimeout now uninitialized) = none ∧
    (sweep requestTimeout now uninitialized taskMap queued).entries =
      taskMap.entries.filter (fun e => ¬ now - e.2.beginTime ≥ requestTimeout) ∧
    (sweep requestTimeout now uninitialized taskMap queued).state =
      queued ++ (taskMap.entries.filter fun e => now - e.2.beginTime ≥ requestTimeout).map
        fun e => (e.2.task, ⟨uninitialized e.1, .requestTimeout, [], []⟩) := by
  have hsweep := sweep_eq requestTimeout now uninitialized ⟨taskMap, [], queued, .idle⟩
  rw [checkRequestTimeout_eq] at hsweep
  simp only at hsweep
  rw [hsweep]
  refine ⟨Cursor.turn_end _ _ _, ?_, rfl⟩
  simp only [UnorderedMap.restrict, expired, decide_not]

end Czrpc.TimeoutSweep
