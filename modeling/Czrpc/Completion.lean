import Czrpc.PendingCalls

/-! How often the task of a registered call is queued: at most once if no sweep comes
between the two halves of `route`, and in the end once if the table is never cleared
under a pending call. -/
namespace Czrpc.PendingCalls
open Protocol

/-- A sweep does not expire the entry that `route` has found and not yet erased. -/
def SweepSpares (requestTimeout : ℤ) (s : State) : Action → Prop
  | .checkRequestTimeout now _ =>
    match s.route with
    | .found content _ => ∀ entry ∈ s.taskMap.find content.callId, expired requestTimeout now entry = false
    | _ => True
  | _ => True

instance (requestTimeout : ℤ) (s : State) : (a : Action) → Decidable (SweepSpares requestTimeout s a)
  | .checkRequestTimeout now _ =>
    match h : s.route with
    | .found content _ => decidable_of_iff (∀ entry ∈ s.taskMap.find content.callId,
        expired requestTimeout now entry = false) (by simp [SweepSpares, h])
    | .idle | .entered _ | .erased _ _ => .isTrue (by simp [SweepSpares, h])
  | .addBindFunc _ _ | .frame _ | .route | .start => .isTrue trivial

/-- A task that is pending or in the hands of `route` has not been queued, and
none has been queued twice. -/
structure OnceInv (s : State) : Prop where
  fresh : ∀ e ∈ s.taskMap.entries, e.2.task ∉ s.queuedTasks
  once : s.queuedTasks.Nodup
  found : ∀ content task, s.route = .found content task →
    ∃ entry, (content.callId, entry) ∈ s.taskMap.entries ∧ entry.task = task
  erased : ∀ content task, s.route = .erased content task →
    task ∉ s.queuedTasks ∧ ∀ e ∈ s.taskMap.entries, e.2.task ≠ task

theorem initial_once : OnceInv initial where
  fresh := by simp [initial, UnorderedMap.empty]
  once := by simp [initial, State.queuedTasks]
  found := by simp [initial]
  erased := by simp [initial]

theorem addBindFunc_once {s : State} (hk : RouteInv s) (h : OnceInv s) (callId : UInt32) (now : ℤ) :
    OnceInv (addBindFunc s callId now) := by
  refine ⟨?_, h.once, ?_, ?_⟩
  · intro e he hq
    rcases (s.taskMap.mem_emplace _ _ _).mp he with he | ⟨-, rfl⟩
    · exact h.fresh e he hq
    · exact Nat.lt_irrefl _ (hk.queued_lt hq)
  · intro content task hr
    obtain ⟨entry, he, ht⟩ := h.found content task hr
    exact ⟨entry, (s.taskMap.mem_emplace _ _ _).mpr (Or.inl he), ht⟩
  · intro content task hr
    obtain ⟨hq, hp⟩ := h.erased content task hr
    refine ⟨hq, ?_⟩
    intro e he
    rcases (s.taskMap.mem_emplace _ _ _).mp he with he | ⟨-, rfl⟩
    · exact hp e he
    · exact Nat.ne_of_gt (List.getElem?_eq_some_iff.mp (hk.held content task (Or.inr hr))).1

theorem routeStep_once {s t : State} (hk : RouteInv s) (h : OnceInv s) (hs : routeStep s = some t) :
    OnceInv t := by
  obtain ⟨content, entry, -, he, rfl⟩ | ⟨content, -, rfl⟩ | ⟨content, task, hr, rfl⟩ |
    ⟨content, task, hr, rfl⟩ := routeStep_cases hs
  · refine ⟨h.fresh, h.once, ?_, by simp⟩
    intro content' task' hr'
    obtain ⟨rfl, rfl⟩ := RoutePc.found.inj hr'
    exact ⟨entry, he, rfl⟩
  · exact ⟨h.fresh, h.once, by simp, by simp⟩
  · obtain ⟨entry, he, rfl⟩ := h.found content task hr
    refine ⟨fun e hm => h.fresh e ((s.taskMap.mem_erase _ _).mp hm).1, h.once, by simp, ?_⟩
    intro content' task' hr'
    obtain ⟨rfl, rfl⟩ := RoutePc.erased.inj hr'
    refine ⟨h.fresh _ he, ?_⟩
    intro e hm ht
    obtain ⟨hm, hne⟩ := (s.taskMap.mem_erase _ _).mp hm
    exact hne (congrArg Prod.fst (hk.task_inj hm he ht))
  · obtain ⟨hq, hp⟩ := h.erased content task hr
    have hqt : State.queuedTasks { s with queued := s.queued ++ [(task, content)], route := .idle } =
        s.queuedTasks ++ [task] := by simp [State.queuedTasks]
    refine ⟨?_, ?_, by simp, by simp⟩
    · intro e he hr
      rcases List.mem_append.mp (hqt ▸ hr) with hr | hr
      · exact h.fresh e he hr
      · exact hp e he (List.mem_singleton.mp hr)
    · rw [hqt]
      exact h.once.append (List.nodup_singleton _) (List.disjoint_singleton.mpr hq)

theorem mem_queuedTasks_checkRequestTimeout {requestTimeout now : ℤ}
    {uninitialized : UInt32 → UInt32} {s : State} {r : ℕ} :
    r ∈ (checkRequestTimeout requestTimeout now uninitialized s).queuedTasks ↔
      r ∈ s.queuedTasks ∨
        ∃ e ∈ s.taskMap.entries, expired requestTimeout now e.2 = true ∧ e.2.task = r := by
  rw [queuedTasks_checkRequestTimeout, List.mem_append, List.mem_map]
  simp only [List.mem_filter, and_assoc]

theorem checkRequestTimeout_once {requestTimeout : ℤ} {s : State} (hk : RouteInv s) (h : OnceInv s)
    (now : ℤ) (uninitialized : UInt32 → UInt32)
    (hok : SweepSpares requestTimeout s (.checkRequestTimeout now uninitialized)) :
    OnceInv (checkRequestTimeout requestTimeout now uninitialized s) := by
  have hroute : (checkRequestTimeout requestTimeout now uninitialized s).route = s.route := rfl
  refine ⟨?_, ?_, ?_, ?_⟩
  · intro e he hq
    obtain ⟨he, hx⟩ := mem_checkRequestTimeout.mp he
    rcases mem_queuedTasks_checkRequestTimeout.mp hq with hq | ⟨e', he', hx', ht⟩
    · exact h.fresh e he hq
    · obtain rfl := hk.task_inj he' he ht
      exact absurd hx' (by simpa using hx)
  · rw [queuedTasks_checkRequestTimeout]
    have hnd : (s.taskMap.entries.filter fun e => expired requestTimeout now e.2).Nodup :=
      (List.Nodup.of_map _ s.taskMap.nodup).filter _
    refine h.once.append ?_ ?_
    · refine hnd.map_on ?_
      intro e he e' he' ht
      exact hk.task_inj (List.mem_filter.mp he).1 (List.mem_filter.mp he').1 ht
    · intro r hr hm
      obtain ⟨e, he, rfl⟩ := List.mem_map.mp hm
      exact h.fresh e (List.mem_filter.mp he).1 hr
  · intro content task hr
    rw [hroute] at hr
    obtain ⟨entry, he, ht⟩ := h.found content task hr
    simp only [SweepSpares, hr] at hok
    exact ⟨entry, mem_checkRequestTimeout.mpr
      ⟨he, hok entry ((s.taskMap.find_eq_some_iff _ _).mpr he)⟩, ht⟩
  · intro content task hr
    rw [hroute] at hr
    obtain ⟨hq, hp⟩ := h.erased content task hr
    refine ⟨?_, fun e he => hp e (mem_checkRequestTimeout.mp he).1⟩
    intro hm
    rcases mem_queuedTasks_checkRequestTimeout.mp hm with hm | ⟨e, he, -, ht⟩
    · exact hq hm
    · exact hp e he ht

theorem start_once {s : State} (h : OnceInv s) (hr : s.route = .idle) : OnceInv (start s) where
  fresh e he := absurd he (s.taskMap.mem_clear e)
  once := h.once
  found content task hf := by simp [start, hr] at hf
  erased content task hf := by simp [start, hr] at hf

theorem step_once {requestTimeout : ℤ} {s t : State} {a : Action} (hk : RouteInv s)
    (h : OnceInv s) (hok : SweepSpares requestTimeout s a)
    (hs : step requestTimeout s a = some t) : OnceInv t := by
  cases a with
  | addBindFunc callId now =>
    obtain rfl := Option.some.inj hs
    exact addBindFunc_once hk h callId now
  | frame content =>
    simp only [step] at hs
    split_ifs at hs with hr
    obtain rfl := Option.some.inj hs
    exact ⟨h.fresh, h.once, by simp, by simp⟩
  | route => exact routeStep_once hk h hs
  | checkRequestTimeout now uninitialized =>
    obtain rfl := Option.some.inj hs
    exact checkRequestTimeout_once hk h now uninitialized hok
  | start =>
    simp only [step] at hs
    split_ifs at hs with hr
    obtain rfl := Option.some.inj hs
    exact start_once h hr

/-- The condition is sharp: when a sweep expires the entry that `route` has found,
the two steps `route` still takes queue the same task again. -/
theorem expired_sweep_duplicates {requestTimeout now : ℤ} {uninitialized : UInt32 → UInt32}
    {s : State} {content : ResponseContent} {entry : TaskWithTimepoint}
    (hr : s.route = .found content entry.task)
    (he : (content.callId, entry) ∈ s.taskMap.entries)
    (hx : expired requestTimeout now entry = true) :
    ∃ t, Execution.run (step requestTimeout) s
      [.checkRequestTimeout now uninitialized, .route, .route] = some t ∧
      2 ≤ t.queuedTasks.count entry.task := by
  let swept := checkRequestTimeout requestTimeout now uninitialized s
  have hr' : swept.route = .found content entry.task := hr
  have hq : entry.task ∈ swept.queuedTasks :=
    mem_queuedTasks_checkRequestTimeout.mpr (Or.inr ⟨_, he, hx, rfl⟩)
  refine ⟨{ swept with
    taskMap := swept.taskMap.erase content.callId
    queued := swept.queued ++ [(entry.task, content)]
    route := .idle }, ?_, ?_⟩
  · simp [Execution.run_cons, step, routeStep, hr', swept]
  · have hpos := List.count_pos_iff.mpr hq
    simp only [State.queuedTasks, List.map_append, List.map_singleton, List.count_append,
      List.count_singleton_self] at hpos ⊢
    omega

/-- A call is registered under an id that neither is pending nor is being routed,
and a connection starts with nothing pending. -/
def KeepsPending (s : State) : Action → Prop
  | .addBindFunc callId _ => s.taskMap.contains callId = false ∧
      match s.route with
      | .found content _ => content.callId ≠ callId
      | _ => True
  | .start => s.taskMap.entries = []
  | _ => True

instance (s : State) : (a : Action) → Decidable (KeepsPending s a)
  | .addBindFunc callId _ =>
    match h : s.route with
    | .found content _ => decidable_of_iff (s.taskMap.contains callId = false ∧ content.callId ≠ callId)
        (by simp [KeepsPending, h])
    | .idle | .entered _ | .erased _ _ => decidable_of_iff (s.taskMap.contains callId = false)
        (by simp [KeepsPending, h])
  | .start => inferInstanceAs (Decidable (s.taskMap.entries = []))
  | .frame _ | .route | .checkRequestTimeout _ _ => .isTrue trivial

def Pending (s : State) (r : ℕ) : Prop := ∃ e ∈ s.taskMap.entries, e.2.task = r

def Accounted (s : State) (r : ℕ) : Prop :=
  Pending s r ∨ r ∈ s.queuedTasks ∨ ∃ content, s.route = .erased content r

/-- Every registered call is accounted for, and what `route` is about to erase
is the entry it has found. -/
structure NoLossInv (s : State) : Prop where
  accounted : ∀ r < s.registered.length, Accounted s r
  found : ∀ content task, s.route = .found content task →
    ∀ entry, (content.callId, entry) ∈ s.taskMap.entries → entry.task = task

theorem Accounted.reroute {s : State} {r : ℕ} (h : Accounted s r)
    (hne : ∀ content task, s.route ≠ .erased content task) (pc : RoutePc) :
    Accounted { s with route := pc } r := by
  rcases h with hp | hq | ⟨content, hc⟩
  · exact Or.inl hp
  · exact Or.inr (Or.inl hq)
  · exact absurd hc (hne content r)

theorem initial_noLoss : NoLossInv initial := ⟨by simp [initial], by simp [initial]⟩

theorem addBindFunc_noLoss {s : State} (h : NoLossInv s) {callId : UInt32} {now : ℤ}
    (hok : KeepsPending s (.addBindFunc callId now)) : NoLossInv (addBindFunc s callId now) := by
  obtain ⟨hc, hroute⟩ := hok
  refine ⟨?_, ?_⟩
  · intro r hr
    simp only [addBindFunc, List.length_append, List.length_singleton] at hr
    rcases Nat.lt_succ_iff_lt_or_eq.mp hr with hr | rfl
    · rcases h.accounted r hr with ⟨e, he, ht⟩ | hq | hr
      · exact Or.inl ⟨e, (s.taskMap.mem_emplace _ _ _).mpr (Or.inl he), ht⟩
      · exact Or.inr (Or.inl hq)
      · exact Or.inr (Or.inr hr)
    · exact Or.inl ⟨_, (s.taskMap.mem_emplace _ _ _).mpr (Or.inr ⟨hc, rfl⟩), rfl⟩
  · intro content task hr entry he
    have hr' : s.route = .found content task := hr
    simp only [hr'] at hroute
    rcases (s.taskMap.mem_emplace _ _ _).mp he with he | ⟨-, he⟩
    · exact h.found content task hr' entry he
    · exact absurd (congrArg Prod.fst he) hroute

theorem routeStep_noLoss {s t : State} (h : NoLossInv s) (hs : routeStep s = some t) :
    NoLossInv t := by
  obtain ⟨content, entry, hr, he, rfl⟩ | ⟨content, hr, rfl⟩ | ⟨content, task, hr, rfl⟩ |
    ⟨content, task, hr, rfl⟩ := routeStep_cases hs
  · refine ⟨fun r hl => (h.accounted r hl).reroute (by simp [hr]) _, ?_⟩
    intro content' task' hr' entry' he'
    simp only [RoutePc.found.injEq] at hr'
    obtain ⟨rfl, rfl⟩ := hr'
    have hf := (s.taskMap.find_eq_some_iff _ _).mpr he
    rw [(s.taskMap.find_eq_some_iff _ _).mpr he', Option.some.injEq] at hf
    rw [hf]
  · exact ⟨fun r hl => (h.accounted r hl).reroute (by simp [hr]) _, by simp⟩
  · refine ⟨?_, by simp⟩
    intro r hl
    rcases h.accounted r hl with ⟨e, he, ht⟩ | hq | ⟨c, hc⟩
    · by_cases hk : e.1 = content.callId
      · have hf := h.found content task hr e.2 (hk ▸ he)
        exact Or.inr (Or.inr ⟨content, by rw [← ht, hf]⟩)
      · exact Or.inl ⟨e, (s.taskMap.mem_erase _ _).mpr ⟨he, hk⟩, ht⟩
    · exact Or.inr (Or.inl hq)
    · rw [hr] at hc
      cases hc
  · refine ⟨?_, by simp⟩
    intro r hl
    rcases h.accounted r hl with hp | hq | ⟨c, hc⟩
    · exact Or.inl hp
    · refine Or.inr (Or.inl ?_)
      simp only [State.queuedTasks, List.map_append, List.mem_append]
      exact Or.inl hq
    · rw [hr] at hc
      obtain ⟨rfl, rfl⟩ := RoutePc.erased.inj hc
      exact Or.inr (Or.inl (by simp [State.queuedTasks]))

theorem checkRequestTimeout_noLoss {s : State} (h : NoLossInv s) (requestTimeout now : ℤ)
    (uninitialized : UInt32 → UInt32) :
    NoLossInv (checkRequestTimeout requestTimeout now uninitialized s) := by
  refine ⟨?_, ?_⟩
  · intro r hl
    unfold Accounted
    rw [queuedTasks_checkRequestTimeout, List.mem_append]
    rcases h.accounted r hl with ⟨e, he, ht⟩ | hq | hr
    · cases hx : expired requestTimeout now e.2 with
      | true =>
        exact Or.inr (Or.inl (Or.inr (List.mem_map.mpr ⟨e, List.mem_filter.mpr ⟨he, hx⟩, ht⟩)))
      | false => exact Or.inl ⟨e, mem_checkRequestTimeout.mpr ⟨he, hx⟩, ht⟩
    · exact Or.inr (Or.inl (Or.inl hq))
    · exact Or.inr (Or.inr hr)
  · intro content task hr entry he
    exact h.found content task hr entry (mem_checkRequestTimeout.mp he).1

theorem step_noLoss {requestTimeout : ℤ} {s t : State} {a : Action} (h : NoLossInv s)
    (hok : KeepsPending s a) (hs : step requestTimeout s a = some t) : NoLossInv t := by
  cases a with
  | addBindFunc callId now =>
    obtain rfl := Option.some.inj hs
    exact addBindFunc_noLoss h hok
  | frame content =>
    simp only [step] at hs
    split_ifs at hs with hr
    obtain rfl := Option.some.inj hs
    exact ⟨fun r hl => (h.accounted r hl).reroute (by simp [hr]) _, by simp⟩
  | route => exact routeStep_noLoss h hs
  | checkRequestTimeout now uninitialized =>
    obtain rfl := Option.some.inj hs
    exact checkRequestTimeout_noLoss h requestTimeout now uninitialized
  | start =>
    simp only [step] at hs
    split_ifs at hs with hr
    obtain rfl := Option.some.inj hs
    have hclear : start s = s := by
      obtain ⟨⟨entries, nodup⟩, registered, queued, route⟩ := s
      obtain rfl : entries = [] := hok
      rfl
    rwa [hclear]

end Czrpc.PendingCalls
