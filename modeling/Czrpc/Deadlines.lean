import Czrpc.AsyncClient

/-! How long a call of `async_rpc_client` can wait. `start_timer` has the timer
thread sweep the pending table again and again, `time` is read before the table's
lock is taken, both by `add_bind_func` and by `check_request_timeout`, and the
clock of the machine does not go back. How late the threads can be is a parameter:
how long after one sweep the next one comes, and how long after reading the clock a
thread holds the lock. -/
namespace Czrpc.Deadlines
open Execution

structure Timing where
  period : ℕ
  delay : ℕ
  deriving DecidableEq, Repr

structure Timer where
  startedAt : ℤ
  sweptAt : ℤ
  deriving DecidableEq, Repr

/-- `begins` records the time each call was registered with and `timedOut` the calls
that a sweep has given up, with the time of the sweep. -/
structure State where
  client : AsyncClient.State
  clock : ℤ
  timer : Option Timer
  begins : List ℤ
  timedOut : List (ℕ × ℤ)
  deriving DecidableEq

def initial (clock : ℤ) : State := ⟨AsyncClient.initial, clock, none, [], []⟩

inductive Action
  | tick (seconds : ℕ)
  | startTimer
  | act (a : AsyncClient.Action)

/-- `run` connects after it has started the timer, and a time that a thread goes by
is one it has just read. -/
def OnTime (timing : Timing) (s : State) : AsyncClient.Action → Prop
  | .run => s.timer.isSome
  | .addBindFunc _ now => now ≤ s.clock ∧ s.clock ≤ now + timing.delay
  | .checkRequestTimeout now _ => s.timer.isSome ∧ now ≤ s.clock ∧ s.clock ≤ now + timing.delay
  | _ => True

instance (timing : Timing) (s : State) : (a : AsyncClient.Action) → Decidable (OnTime timing s a)
  | .run => inferInstanceAs (Decidable (s.timer.isSome = true))
  | .addBindFunc _ now => inferInstanceAs (Decidable (now ≤ s.clock ∧ s.clock ≤ now + timing.delay))
  | .checkRequestTimeout now _ => inferInstanceAs
      (Decidable (s.timer.isSome = true ∧ now ≤ s.clock ∧ s.clock ≤ now + timing.delay))
  | .asyncCall | .asyncWrite _ | .route | .complete _ | .runPosted | .writeDone _ _ => .isTrue trivial

def beginTimes : AsyncClient.Action → List ℤ
  | .addBindFunc _ now => [now]
  | _ => []

def Timer.after (timer : Timer) (clock : ℤ) : AsyncClient.Action → Timer
  | .checkRequestTimeout _ _ => { timer with sweptAt := clock }
  | _ => timer

def givenUp (s t : AsyncClient.State) : AsyncClient.Action → List ℕ
  | .checkRequestTimeout _ _ => t.calls.queuedTasks.drop s.calls.queuedTasks.length
  | _ => []

/-- Time passes only until the next sweep is due. -/
def step (cfg : AsyncClient.Config) (timing : Timing) (s : State) : Action → Option State
  | .tick seconds =>
    if ∀ timer ∈ s.timer, s.clock + seconds ≤ timer.sweptAt + timing.period then
      some { s with clock := s.clock + seconds }
    else none
  | .startTimer =>
    if s.timer = none then some { s with timer := some ⟨s.clock, s.clock⟩ } else none
  | .act a =>
    if OnTime timing s a then
      (AsyncClient.step cfg s.client a).map fun client =>
        { s with
          client := client
          timer := s.timer.map fun timer => timer.after s.clock a
          begins := s.begins ++ beginTimes a
          timedOut := s.timedOut ++ (givenUp s.client client a).map fun r => (r, s.clock) }
    else none

/-- How long a call registered at `begin` has waited at `now`, counted from the start of the timer
when that came later. -/
def Timer.waited (timer : Timer) (begin now : ℤ) : ℤ := now - max begin timer.startedAt

theorem Timer.waited_le (timer : Timer) (begin now : ℤ) : timer.waited begin now ≤ now - begin := by
  unfold Timer.waited
  omega

variable {cfg : AsyncClient.Config} {timing : Timing}

theorem mem_entries_step {s t : AsyncClient.State} {a : AsyncClient.Action}
    (h : AsyncClient.step cfg s a = some t) {e : UInt32 × PendingCalls.TaskWithTimepoint}
    (he : e ∈ t.calls.taskMap.entries) :
    e ∈ s.calls.taskMap.entries ∨
      ∃ j now, a = .addBindFunc j now ∧ e.2 = ⟨s.calls.registered.length, now⟩ := by
  rcases AsyncClient.step_calls h with hc | ⟨b, hb, hstep⟩
  · rw [hc] at he
    exact Or.inl he
  · cases hb with
    | run | started =>
      simp only [PendingCalls.step] at hstep
      obtain ⟨-, hstep⟩ := Option.ite_none_right_eq_some.mp hstep
      rw [← Option.some.inj hstep] at he
      exact absurd he (UnorderedMap.mem_clear s.calls.taskMap e)
    | addBindFunc ht =>
      rw [← Option.some.inj hstep] at he
      rcases (UnorderedMap.mem_emplace _ _ _ _).mp he with he | ⟨-, rfl⟩
      · exact Or.inl he
      · exact Or.inr ⟨_, _, rfl, rfl⟩
    | route =>
      obtain ⟨content, entry, -, -, ht⟩ | ⟨content, -, ht⟩ | ⟨content, task, -, ht⟩ |
        ⟨content, task, -, ht⟩ := PendingCalls.routeStep_cases hstep <;> rw [ht] at he
      · exact Or.inl he
      · exact Or.inl he
      · exact Or.inl ((UnorderedMap.mem_erase _ _ _).mp he).1
      · exact Or.inl he
    | checkRequestTimeout =>
      rw [← Option.some.inj hstep] at he
      exact Or.inl (PendingCalls.mem_checkRequestTimeout.mp he).1
    | frame =>
      simp only [PendingCalls.step] at hstep
      obtain ⟨-, hstep⟩ := Option.ite_none_right_eq_some.mp hstep
      rw [← Option.some.inj hstep] at he
      exact Or.inl he

theorem registered_length_step {s t : AsyncClient.State} {a : AsyncClient.Action}
    (h : AsyncClient.step cfg s a = some t) :
    t.calls.registered.length = s.calls.registered.length + (beginTimes a).length := by
  cases AsyncClient.step_effect h with
  | addBindFunc ht => simp [PendingCalls.addBindFunc, beginTimes]
  | route hc =>
    obtain ⟨content, entry, -, -, rfl⟩ | ⟨content, -, rfl⟩ | ⟨content, task, -, rfl⟩ |
      ⟨content, task, -, rfl⟩ := PendingCalls.routeStep_cases hc <;> rfl
  | @complete c chain event hr hc => cases event <;> rfl
  | run | asyncCall | asyncWrite | checkRequestTimeout | runPosted | writeDone => rfl

theorem sweep_step {s t : AsyncClient.State} {now : ℤ} {uninitialized : UInt32 → UInt32}
    (h : AsyncClient.step cfg s (.checkRequestTimeout now uninitialized) = some t) :
    (∀ e ∈ t.calls.taskMap.entries, now - e.2.beginTime < cfg.requestTimeout) ∧
    ∀ r ∈ givenUp s t (.checkRequestTimeout now uninitialized), ∃ e ∈ s.calls.taskMap.entries,
      e.2.task = r ∧ cfg.requestTimeout ≤ now - e.2.beginTime := by
  obtain rfl := Option.some.inj h
  constructor
  · intro e he
    have hexp := (PendingCalls.mem_checkRequestTimeout.mp he).2
    simpa [PendingCalls.expired] using hexp
  · intro r hr
    simp only [givenUp, PendingCalls.queuedTasks_checkRequestTimeout, List.drop_left] at hr
    obtain ⟨e, he, rfl⟩ := List.mem_map.mp hr
    obtain ⟨hm, hexp⟩ := List.mem_filter.mp he
    exact ⟨e, hm, rfl, by simpa [PendingCalls.expired] using hexp⟩

/-- Every entry carries the time its call was registered with, was younger than the
timeout at the last sweep, and every call given up was given up in time. -/
structure Inv (cfg : AsyncClient.Config) (timing : Timing) (s : State) : Prop where
  length : s.begins.length = s.client.calls.registered.length
  dated : ∀ e ∈ s.client.calls.taskMap.entries, s.begins[e.2.task]? = some e.2.beginTime
  unstarted : s.timer = none → s.timedOut = []
  punctual : ∀ timer ∈ s.timer, timer.sweptAt ≤ s.clock ∧ s.clock ≤ timer.sweptAt + timing.period
  young : ∀ timer ∈ s.timer, ∀ e ∈ s.client.calls.taskMap.entries,
    timer.waited e.2.beginTime timer.sweptAt < cfg.requestTimeout + timing.delay
  givenUp : ∀ timer ∈ s.timer, ∀ v ∈ s.timedOut, ∃ b, s.begins[v.1]? = some b ∧
    cfg.requestTimeout ≤ v.2 - b ∧
    timer.waited b v.2 < cfg.requestTimeout + timing.period + timing.delay

theorem initial_inv (clock : ℤ) : Inv cfg timing (initial clock) where
  length := rfl
  dated := by simp [initial, AsyncClient.initial, PendingCalls.initial, UnorderedMap.empty]
  unstarted := fun _ => rfl
  punctual := by simp [initial]
  young := by simp [initial]
  givenUp := by simp [initial]

theorem Inv.waited_lt {s : State} (hs : Inv cfg timing s) {timer : Timer} (ht : timer ∈ s.timer)
    {e : UInt32 × PendingCalls.TaskWithTimepoint} (he : e ∈ s.client.calls.taskMap.entries) :
    timer.waited e.2.beginTime s.clock < cfg.requestTimeout + timing.period + timing.delay := by
  have hyoung := hs.young timer ht e he
  have hpunctual := (hs.punctual timer ht).2
  unfold Timer.waited at hyoung ⊢
  omega

theorem getElem?_begins {begins : List ℤ} {r : ℕ} {b : ℤ} (h : begins[r]? = some b)
    (more : List ℤ) : (begins ++ more)[r]? = some b := by
  rw [List.getElem?_append_left (List.getElem?_eq_some_iff.mp h).1]
  exact h

theorem act_dated {s : State} (hs : Inv cfg timing s) {a : AsyncClient.Action}
    {client : AsyncClient.State} (h : AsyncClient.step cfg s.client a = some client) :
    ∀ e ∈ client.calls.taskMap.entries,
      (s.begins ++ beginTimes a)[e.2.task]? = some e.2.beginTime := by
  intro e he
  rcases mem_entries_step h he with he | ⟨j, now, rfl, hnew⟩
  · exact getElem?_begins (hs.dated e he) _
  · simp [hnew, ← hs.length, beginTimes]

theorem act_young (hpos : 0 < cfg.requestTimeout) {s : State} (hs : Inv cfg timing s)
    {a : AsyncClient.Action} (hok : OnTime timing s a) {client : AsyncClient.State}
    (h : AsyncClient.step cfg s.client a = some client) {timer : Timer} (ht : timer ∈ s.timer)
    {e : UInt32 × PendingCalls.TaskWithTimepoint} (he : e ∈ client.calls.taskMap.entries) :
    (timer.after s.clock a).waited e.2.beginTime (timer.after s.clock a).sweptAt <
      cfg.requestTimeout + timing.delay := by
  rcases mem_entries_step h he with hold | ⟨j, now, rfl, hnew⟩
  · cases a with
    | checkRequestTimeout now uninitialized =>
      have hleft := (sweep_step h).1 e he
      have hread := hok.2.2
      refine Int.lt_of_le_of_lt (Timer.waited_le _ _ _) ?_
      dsimp only [Timer.after]
      omega
    | run | asyncCall | addBindFunc | asyncWrite | route | complete | runPosted | writeDone =>
      exact hs.young timer ht e hold
  · have hread := hok.2
    have hswept := (hs.punctual timer ht).1
    refine Int.lt_of_le_of_lt (Timer.waited_le _ _ _) ?_
    rw [hnew]
    dsimp only [Timer.after]
    omega

theorem act_givenUp {s : State} (hs : Inv cfg timing s) {a : AsyncClient.Action}
    (hok : OnTime timing s a) {client : AsyncClient.State}
    (h : AsyncClient.step cfg s.client a = some client) {timer : Timer} (ht : timer ∈ s.timer)
    {r : ℕ} (hr : r ∈ givenUp s.client client a) :
    ∃ b, s.begins[r]? = some b ∧ cfg.requestTimeout ≤ s.clock - b ∧
      timer.waited b s.clock < cfg.requestTimeout + timing.period + timing.delay := by
  cases a with
  | checkRequestTimeout now uninitialized =>
    obtain ⟨e, he, rfl, hexp⟩ := (sweep_step h).2 r hr
    have hread := hok.2.1
    exact ⟨e.2.beginTime, hs.dated e he, by omega, hs.waited_lt ht he⟩
  | run | asyncCall | addBindFunc | asyncWrite | route | complete | runPosted | writeDone => cases hr

theorem after_startedAt (timer : Timer) (clock : ℤ) (a : AsyncClient.Action) :
    (timer.after clock a).startedAt = timer.startedAt := by
  cases a <;> rfl

theorem after_waited (timer : Timer) (clock : ℤ) (a : AsyncClient.Action) (begin now : ℤ) :
    (timer.after clock a).waited begin now = timer.waited begin now := by
  unfold Timer.waited
  rw [after_startedAt]

theorem after_punctual {s : State} (hs : Inv cfg timing s) {timer : Timer} (ht : timer ∈ s.timer)
    (a : AsyncClient.Action) : (timer.after s.clock a).sweptAt ≤ s.clock ∧
      s.clock ≤ (timer.after s.clock a).sweptAt + timing.period := by
  cases a with
  | checkRequestTimeout now uninitialized =>
    dsimp only [Timer.after]
    omega
  | run | asyncCall | addBindFunc | asyncWrite | route | complete | runPosted | writeDone =>
    exact hs.punctual timer ht

theorem givenUp_unstarted {s : State} {a : AsyncClient.Action} (hok : OnTime timing s a)
    (ht : s.timer = none) (client : AsyncClient.State) : givenUp s.client client a = [] := by
  cases a with
  | checkRequestTimeout now uninitialized =>
    have hsome := hok.1
    rw [ht] at hsome
    cases hsome
  | run | asyncCall | addBindFunc | asyncWrite | route | complete | runPosted | writeDone => rfl

theorem act_inv (hpos : 0 < cfg.requestTimeout) {s t : State} (hs : Inv cfg timing s)
    {a : AsyncClient.Action} (h : step cfg timing s (.act a) = some t) : Inv cfg timing t := by
  obtain ⟨hok, h⟩ := Option.ite_none_right_eq_some.mp h
  obtain ⟨client, hc, rfl⟩ := Option.map_eq_some_iff.mp h
  constructor
  · rw [registered_length_step hc, ← hs.length]
    exact List.length_append
  · exact act_dated hs hc
  · intro hnone
    have hnone := Option.map_eq_none_iff.mp hnone
    simp [hs.unstarted hnone, givenUp_unstarted hok hnone]
  · intro timer' ht'
    obtain ⟨timer, ht, rfl⟩ := Option.map_eq_some_iff.mp ht'
    exact after_punctual hs ht a
  · intro timer' ht' e he
    obtain ⟨timer, ht, rfl⟩ := Option.map_eq_some_iff.mp ht'
    exact act_young hpos hs hok hc ht he
  · intro timer' ht' v hv
    obtain ⟨timer, ht, rfl⟩ := Option.map_eq_some_iff.mp ht'
    simp only [after_waited]
    rcases List.mem_append.mp hv with hv | hv
    · obtain ⟨b, hb, hle, hlt⟩ := hs.givenUp timer ht v hv
      exact ⟨b, getElem?_begins hb _, hle, hlt⟩
    · obtain ⟨r, hr, rfl⟩ := List.mem_map.mp hv
      obtain ⟨b, hb, hle, hlt⟩ := act_givenUp hs hok hc ht hr
      exact ⟨b, getElem?_begins hb _, hle, hlt⟩

theorem tick_inv {s t : State} (hs : Inv cfg timing s) {seconds : ℕ}
    (h : step cfg timing s (.tick seconds) = some t) : Inv cfg timing t := by
  obtain ⟨hdue, h⟩ := Option.ite_none_right_eq_some.mp h
  obtain rfl := Option.some.inj h
  refine ⟨hs.length, hs.dated, hs.unstarted, ?_, hs.young, hs.givenUp⟩
  intro timer ht
  have hpunctual := hs.punctual timer ht
  have hnext := hdue timer ht
  dsimp only
  omega

theorem startTimer_inv (hpos : 0 < cfg.requestTimeout) {s t : State} (hs : Inv cfg timing s)
    (h : step cfg timing s .startTimer = some t) : Inv cfg timing t := by
  obtain ⟨hnone, h⟩ := Option.ite_none_right_eq_some.mp h
  obtain rfl := Option.some.inj h
  refine ⟨hs.length, hs.dated, by simp, ?_, ?_, ?_⟩
  · intro timer ht
    obtain rfl := Option.some.inj ht
    dsimp only
    omega
  · intro timer ht e he
    obtain rfl := Option.some.inj ht
    dsimp only [Timer.waited]
    omega
  · intro timer ht v hv
    rw [show s.timedOut = [] from hs.unstarted hnone] at hv
    cases hv

theorem step_inv (hpos : 0 < cfg.requestTimeout) {s t : State} {a : Action}
    (hs : Inv cfg timing s) (h : step cfg timing s a = some t) : Inv cfg timing t := by
  cases a with
  | tick seconds => exact tick_inv hs h
  | startTimer => exact startTimer_inv hpos hs h
  | act a => exact act_inv hpos hs h

/-- The first call is registered four seconds before the timer starts, and the second one when
the first has been given up. -/
def earlyCall : List Action :=
  [.act .asyncCall, .act .asyncCall, .act (.addBindFunc 0 0), .tick 4, .startTimer, .tick 2,
    .act (.checkRequestTimeout 6 id), .act .run, .act (.addBindFunc 1 6), .tick 2,
    .act (.checkRequestTimeout 8 id), .tick 2, .act (.checkRequestTimeout 10 id), .tick 2,
    .act (.checkRequestTimeout 12 id)]

def KeepsPending (s : State) : Action → Prop
  | .act a => AsyncClient.KeepsPending s.client a
  | _ => True

instance (s : State) : (a : Action) → Decidable (KeepsPending s a)
  | .act a => inferInstanceAs (Decidable (AsyncClient.KeepsPending s.client a))
  | .tick _ | .startTimer => .isTrue trivial

theorem step_noLoss {s t : State} {a : Action} (hs : AsyncClient.NoLossInv s.client)
    (hok : KeepsPending s a) (h : step cfg timing s a = some t) :
    AsyncClient.NoLossInv t.client := by
  cases a with
  | tick seconds =>
    obtain ⟨-, h⟩ := Option.ite_none_right_eq_some.mp h
    obtain rfl := Option.some.inj h
    exact hs
  | startTimer =>
    obtain ⟨-, h⟩ := Option.ite_none_right_eq_some.mp h
    obtain rfl := Option.some.inj h
    exact hs
  | act a =>
    obtain ⟨-, h⟩ := Option.ite_none_right_eq_some.mp h
    obtain ⟨client, hc, rfl⟩ := Option.map_eq_some_iff.mp h
    exact AsyncClient.step_noLoss hs hok hc

/-- In every run that loses no pending call: when the timeout, a period and a delay have passed
since a call was registered and the timer started, its task has been queued, for its response or
for the timeout, or `route` is about to queue it. -/
theorem calls_settled_in_time (cfg : AsyncClient.Config) (timing : Timing)
    (hpos : 0 < cfg.requestTimeout) (clock : ℤ) {as : List Action} {s : State}
    (hc : Conforms (step cfg timing) KeepsPending (initial clock) as)
    (hr : run (step cfg timing) (initial clock) as = some s) {timer : Timer}
    (ht : s.timer = some timer) {r : ℕ} {b : ℤ} (hb : s.begins[r]? = some b)
    (hlong : cfg.requestTimeout + timing.period + timing.delay ≤ timer.waited b s.clock) :
    r ∈ s.client.calls.queuedTasks ∨ ∃ content, s.client.calls.route = .erased content r := by
  have hinv : Inv cfg timing s := run_invariant (fun _ _ _ => step_inv hpos) (initial_inv clock) hr
  have hloss : AsyncClient.NoLossInv s.client :=
    conforming_invariant (I := fun s => AsyncClient.NoLossInv s.client)
      (fun _ _ _ => step_noLoss) AsyncClient.initial_noLoss hc hr
  have hlt : r < s.client.calls.registered.length := by
    rw [← hinv.length]
    exact (List.getElem?_eq_some_iff.mp hb).1
  rcases hloss.calls.accounted r hlt with ⟨e, he, rfl⟩ | hsettled
  · -- a call still in the table has not waited that long
    have hdated := hinv.dated e he
    rw [hb, Option.some.injEq] at hdated
    subst hdated
    exact absurd (hinv.waited_lt ht he) (Int.not_lt.mpr hlong)
  · exact hsettled

def twoCalls : List Action :=
  [.startTimer, .act .run, .act .asyncCall, .act .asyncCall, .act (.addBindFunc 0 0), .tick 2,
    .act (.checkRequestTimeout 2 id), .tick 1, .act (.addBindFunc 1 3), .tick 1,
    .act (.checkRequestTimeout 4 id), .tick 2, .act (.checkRequestTimeout 6 id), .tick 2]

theorem calls_settled_in_time_two : ∃ s,
    run (step ⟨false, 5⟩ ⟨2, 0⟩) (initial 0) twoCalls = some s ∧
    s.timedOut = [(0, 6)] ∧ s.clock = 8 ∧ 0 ∈ s.client.calls.queuedTasks := by
  have hrun : (run (step ⟨false, 5⟩ ⟨2, 0⟩) (initial 0) twoCalls).map
      (fun s => (s.timedOut, s.clock, s.timer, s.begins, s.client.calls.route)) =
      some ([(0, 6)], 8, some ⟨0, 6⟩, [0, 3], .idle) := by decide +kernel
  obtain ⟨s, hs, he⟩ := Option.map_eq_some_iff.mp hrun
  simp only [Prod.mk.injEq] at he
  obtain ⟨hout, hclock, htimer, hbegins, hroute⟩ := he
  have hfirst : s.begins[0]? = some 0 := by rw [hbegins]; rfl
  have hsettled := calls_settled_in_time ⟨false, 5⟩ ⟨2, 0⟩ (by decide) 0 (by decide +kernel) hs
    htimer hfirst (by rw [hclock]; decide)
  refine ⟨s, hs, hout, hclock, ?_⟩
  rcases hsettled with hq | ⟨content, hc⟩
  · exact hq
  · rw [hroute] at hc
    cases hc

end Czrpc.Deadlines
