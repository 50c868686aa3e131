import Mathlib.Data.List.Count
import Czrpc.Execution

/-! The class `atimer`: a `deadline_timer` with an io_service and a thread of its own. Setting
the expiry time aborts the waits that are under way; a wait that has expired has its handler
queued, and neither `cancel` nor a new expiry time withdraws it. `start()` sets the expiry time
and waits in one step here, and the functions are bound before the timer is started: neither the
`deadline_timer` nor `func_vec_` is guarded against two threads at once. -/
namespace Czrpc.Atimer
open Execution

/-- Where the timer's thread stands: not created, between two handlers, in a handler before its
call of the function number `k`, or behind `run()`. -/
inductive ThreadPc
  | absent
  | idle
  | calling (k : ℕ)
  | exited
  deriving DecidableEq, Repr

/-- `waits` are the waits under way. `queue` are the handlers that are ready to run, each with
its error code. `calls` are the functions that have been called, named by their place in
`func_vec_`, and `starts` counts the calls of `start`, with an argument or without, that set the
timer from outside. -/
structure State where
  isSingleShot : Bool
  duration : ℕ
  funcs : ℕ
  stopped : Bool
  waits : ℕ
  queue : List Bool
  thread : ThreadPc
  calls : List ℕ
  starts : ℕ
  deriving DecidableEq, Repr

def initial : State := ⟨false, 0, 0, false, 0, [], .absent, [], 0⟩

inductive Action
  | bind
  | setSingleShot (isSingleShot : Bool)
  | start (duration : ℕ)
  | startAgain
  | stop
  | destroy
  | expire
  | run
  | call
  | finish
  | exit
  deriving DecidableEq, Repr

def cancel (s : State) : State :=
  { s with waits := 0, queue := s.queue ++ List.replicate s.waits true }

/-- `start()`, as the handler of a wait calls it. -/
def arm (s : State) : State := if s.duration = 0 then s else { cancel s with waits := 1 }

def start (s : State) (duration : ℕ) : State :=
  if s.stopped = true ∨ duration = 0 then s
  else
    arm { s with
      duration := duration
      thread := if s.thread = .absent then .idle else s.thread
      starts := s.starts + 1 }

/-- `start()` from outside. It sets a destroyed timer too. -/
def startAgain (s : State) : State :=
  if s.duration = 0 then s else { arm s with starts := s.starts + 1 }

/-- The functions are bound before the timer is started. `destroy` then waits for the thread,
which leaves when no handler is running. -/
def step (s : State) : Action → Option State
  | .bind => if s.thread = .absent then some { s with funcs := s.funcs + 1 } else none
  | .setSingleShot isSingleShot => some { s with isSingleShot := isSingleShot }
  | .start duration => some (start s duration)
  | .startAgain => some (startAgain s)
  | .stop => some (cancel s)
  | .destroy => some { cancel s with stopped := true }
  | .expire =>
    if 0 < s.waits then
      some { s with waits := 0, queue := s.queue ++ List.replicate s.waits false }
    else none
  -- a stopped io_service runs no more handlers, and an aborted wait calls nothing
  | .run =>
    match s.thread, s.stopped, s.queue with
    | .idle, false, ec :: rest =>
      some { s with queue := rest, thread := if ec then .idle else .calling 0 }
    | _, _, _ => none
  | .call =>
    match s.thread with
    | .calling k =>
      if k < s.funcs then some { s with thread := .calling (k + 1), calls := s.calls ++ [k] } else none
    | _ => none
  | .finish =>
    match s.thread with
    | .calling k =>
      if s.funcs ≤ k then
        some { (if s.isSingleShot then s else arm s) with thread := .idle }
      else none
    | _ => none
  | .exit =>
    if s.thread = .idle ∧ s.stopped = true then some { s with thread := .exited } else none

inductive Effect (s : State) : Action → State → Prop
  | bind (ht : s.thread = .absent) : Effect s .bind { s with funcs := s.funcs + 1 }
  | setSingleShot {b : Bool} : Effect s (.setSingleShot b) { s with isSingleShot := b }
  | ignored {d : ℕ} (hd : s.stopped = true ∨ d = 0) : Effect s (.start d) s
  | started {d : ℕ} (hs : s.stopped = false) (hd : d ≠ 0) : Effect s (.start d) { cancel s with
      duration := d
      waits := 1
      thread := if s.thread = .absent then .idle else s.thread
      starts := s.starts + 1 }
  | unset (hd : s.duration = 0) : Effect s .startAgain s
  | startedAgain (hd : s.duration ≠ 0) :
      Effect s .startAgain { cancel s with waits := 1, starts := s.starts + 1 }
  | stop : Effect s .stop (cancel s)
  | destroy : Effect s .destroy { cancel s with stopped := true }
  | expire (hw : 0 < s.waits) : Effect s .expire
      { s with waits := 0, queue := s.queue ++ List.replicate s.waits false }
  | aborted {rest : List Bool} (ht : s.thread = .idle) (hs : s.stopped = false)
      (hq : s.queue = true :: rest) : Effect s .run { s with queue := rest }
  | round {rest : List Bool} (ht : s.thread = .idle) (hs : s.stopped = false)
      (hq : s.queue = false :: rest) :
      Effect s .run { s with queue := rest, thread := .calling 0 }
  | call {k : ℕ} (ht : s.thread = .calling k) (hk : k < s.funcs) :
      Effect s .call { s with thread := .calling (k + 1), calls := s.calls ++ [k] }
  | finishOnce {k : ℕ} (ht : s.thread = .calling k) (hk : s.funcs ≤ k)
      (hs : s.isSingleShot = true ∨ s.duration = 0) : Effect s .finish { s with thread := .idle }
  | finishAgain {k : ℕ} (ht : s.thread = .calling k) (hk : s.funcs ≤ k)
      (hs : s.isSingleShot = false) (hd : s.duration ≠ 0) :
      Effect s .finish { cancel s with waits := 1, thread := .idle }
  | exit (ht : s.thread = .idle) (hs : s.stopped = true) : Effect s .exit { s with thread := .exited }

theorem start_effect (s : State) (d : ℕ) : Effect s (.start d) (start s d) := by
  unfold start
  by_cases hd : s.stopped = true ∨ d = 0
  · rw [if_pos hd]
    exact .ignored hd
  · rw [if_neg hd]
    obtain ⟨hs, hd⟩ := not_or.mp hd
    have hstart := Effect.started (s := s) (Bool.eq_false_iff.mpr hs) hd
    simpa only [arm, cancel, hd, if_false] using hstart

theorem startAgain_effect (s : State) : Effect s .startAgain (startAgain s) := by
  unfold startAgain
  by_cases hd : s.duration = 0
  · rw [if_pos hd]
    exact .unset hd
  · rw [if_neg hd]
    have hstart := Effect.startedAgain hd
    simpa only [arm, cancel, hd, if_false] using hstart

theorem step_effect {s t : State} {a : Action} (h : step s a = some t) : Effect s a t := by
  cases a with
  | bind =>
    simp only [step] at h
    split_ifs at h with ht
    obtain rfl := Option.some.inj h
    exact .bind ht
  | setSingleShot b =>
    obtain rfl := Option.some.inj h
    exact .setSingleShot
  | start d =>
    obtain rfl := Option.some.inj h
    exact start_effect s d
  | startAgain =>
    obtain rfl := Option.some.inj h
    exact startAgain_effect s
  | stop =>
    obtain rfl := Option.some.inj h
    exact .stop
  | destroy =>
    obtain rfl := Option.some.inj h
    exact .destroy
  | expire =>
    simp only [step] at h
    split_ifs at h with hw
    obtain rfl := Option.some.inj h
    exact .expire hw
  | run =>
    simp only [step] at h
    split at h
    · rename_i ec rest ht hs hq
      obtain rfl := Option.some.inj h
      cases ec with
      | true =>
        have haborted := Effect.aborted ht hs hq
        simpa only [if_true, ← ht] using haborted
      | false => exact .round ht hs hq
    · cases h
  | call =>
    simp only [step] at h
    split at h
    · rename_i k ht
      split_ifs at h with hk
      obtain rfl := Option.some.inj h
      exact .call ht hk
    · cases h
  | finish =>
    simp only [step] at h
    split at h
    · rename_i k ht
      split_ifs at h with hk hs
      · obtain rfl := Option.some.inj h
        exact .finishOnce ht hk (Or.inl hs)
      · obtain rfl := Option.some.inj h
        unfold arm
        split_ifs with hd
        · exact .finishOnce ht hk (Or.inr hd)
        · exact .finishAgain ht hk (by simpa using hs) hd
    · cases h
  | exit =>
    simp only [step] at h
    split_ifs at h with ht
    obtain rfl := Option.some.inj h
    exact .exit ht.1 ht.2

/-- The timer is started once and then left to itself, as `async_rpc_client` does. -/
def LeftAlone (s : State) : Action → Prop
  | .start _ | .startAgain => s.thread = .absent
  | .setSingleShot _ | .stop | .destroy => False
  | _ => True

instance (s : State) : (a : Action) → Decidable (LeftAlone s a)
  | .start _ | .startAgain => inferInstanceAs (Decidable (s.thread = .absent))
  | .setSingleShot _ | .stop | .destroy => .isFalse id
  | .bind | .expire | .run | .call | .finish | .exit => .isTrue trivial

def WholeRounds (funcs : ℕ) (calls : List ℕ) : Prop :=
  ∃ r, calls = (List.replicate r (List.range funcs)).flatten

/-- One round of the functions is waited for, due or under way, and never a second one. -/
inductive Ticking (s : State) : Prop
  | unset (ht : s.thread = .absent) (hw : s.waits = 0) (hq : s.queue = []) (hc : s.calls = [])
  | waiting (ht : s.thread = .idle) (hw : s.waits = 1) (hq : s.queue = [])
      (hc : WholeRounds s.funcs s.calls)
  | due (ht : s.thread = .idle) (hw : s.waits = 0) (hq : s.queue = [false])
      (hc : WholeRounds s.funcs s.calls)
  | calling {k : ℕ} {before : List ℕ} (ht : s.thread = .calling k) (hw : s.waits = 0)
      (hq : s.queue = []) (hk : k ≤ s.funcs) (hb : WholeRounds s.funcs before)
      (hc : s.calls = before ++ List.range k)

structure Repeats (s : State) : Prop where
  periodic : s.isSingleShot = false
  running : s.stopped = false
  set : s.thread = .absent ↔ s.duration = 0
  ticking : Ticking s

theorem wholeRounds_nil (funcs : ℕ) : WholeRounds funcs [] := ⟨0, rfl⟩

theorem WholeRounds.next {funcs : ℕ} {calls : List ℕ} (h : WholeRounds funcs calls) :
    WholeRounds funcs (calls ++ List.range funcs) := by
  obtain ⟨r, rfl⟩ := h
  exact ⟨r + 1, by rw [List.replicate_succ', List.flatten_append, List.flatten_singleton]⟩

theorem step_repeats {s t : State} {a : Action} (hs : Repeats s) (hok : LeftAlone s a)
    (h : step s a = some t) : Repeats t := by
  obtain ⟨hperiodic, hrunning, hset, htick⟩ := hs
  cases step_effect h with
  | bind ht =>
    refine ⟨hperiodic, hrunning, hset, ?_⟩
    cases htick with
    | unset _ hw hq hc => exact .unset ht hw hq hc
    | waiting ht' | due ht' | calling ht' =>
      rw [ht] at ht'
      cases ht'
  | setSingleShot | stop | destroy => exact hok.elim
  | ignored | unset => exact ⟨hperiodic, hrunning, hset, htick⟩
  -- without a thread there is no duration, and `start()` does nothing
  | startedAgain hd => exact absurd (hset.mp hok) hd
  | started hst hd =>
    have habsent : s.thread = .absent := hok
    refine ⟨hperiodic, hst, by simp [habsent, hd], ?_⟩
    cases htick with
    | unset ht hw hq hc =>
      refine .waiting (if_pos ht) rfl ?_ ?_
      · simp [cancel, hw, hq]
      · simp only [cancel, hc]
        exact wholeRounds_nil _
    | waiting ht' | due ht' | calling ht' =>
      rw [habsent] at ht'
      cases ht'
  | expire hpos =>
    refine ⟨hperiodic, hrunning, hset, ?_⟩
    cases htick with
    | waiting ht hw hq hc => exact .due ht rfl (by simp [hw, hq]) hc
    | unset _ hw | due _ hw | calling _ hw =>
      rw [hw] at hpos
      exact absurd hpos (Nat.lt_irrefl 0)
  | aborted _ _ hqueue =>
    cases htick with
    | unset _ _ hq | waiting _ _ hq | due _ _ hq | calling _ _ hq =>
      rw [hq] at hqueue
      cases hqueue
  | @round rest ht _ hqueue =>
    refine ⟨hperiodic, hrunning, by simpa [ht] using hset, ?_⟩
    cases htick with
    | due _ hw hq hc =>
      rw [hq] at hqueue
      obtain rfl : [] = rest := (List.cons.inj hqueue).2
      exact .calling rfl hw rfl (Nat.zero_le _) hc (by simp)
    | unset _ _ hq | waiting _ _ hq | calling _ _ hq =>
      rw [hq] at hqueue
      cases hqueue
  | @call k ht hk =>
    refine ⟨hperiodic, hrunning, by simpa [ht] using hset, ?_⟩
    cases htick with
    | calling ht' hw hq hk' hb hc =>
      rw [ht] at ht'
      obtain rfl := ThreadPc.calling.inj ht'
      refine .calling rfl hw hq hk hb ?_
      simp only [hc, List.append_assoc, List.range_succ]
    | unset ht' | waiting ht' | due ht' =>
      rw [ht] at ht'
      cases ht'
  | finishOnce ht hk hs =>
    rcases hs with hs | hs
    · rw [hperiodic] at hs
      cases hs
    · rw [hset.mpr hs] at ht
      cases ht
  | @finishAgain k ht hk hs hd =>
    refine ⟨hperiodic, hrunning, by simpa [cancel] using hd, ?_⟩
    cases htick with
    | calling ht' hw hq hk' hb hc =>
      rw [ht] at ht'
      obtain rfl := ThreadPc.calling.inj ht'
      refine .waiting rfl rfl (by simp [cancel, hw, hq]) ?_
      simp only [cancel, hc, Nat.le_antisymm hk' hk]
      exact hb.next
    | unset ht' | waiting ht' | due ht' =>
      rw [ht] at ht'
      cases ht'
  | exit ht hs =>
    rw [hrunning] at hs
    cases hs

theorem Repeats.goes_on {s : State} (hs : Repeats s) (ht : s.thread ≠ .absent) :
    ∃ a ∈ [Action.expire, .run, .call, .finish], ∃ t, step s a = some t := by
  cases hs.ticking with
  | unset ht' => exact absurd ht' ht
  | waiting _ hw => exact ⟨.expire, by simp, _, if_pos (by omega)⟩
  | due ht' _ hq =>
    exact ⟨.run, by simp, { s with queue := [], thread := .calling 0 }, by
      simp [step, ht', hs.running, hq]⟩
  | @calling k _ ht' =>
    by_cases hk : k < s.funcs
    · refine ⟨.call, by simp, ?_⟩
      simp only [step, ht', if_pos hk]
      exact ⟨_, rfl⟩
    · refine ⟨.finish, by simp, ?_⟩
      simp only [step, ht', if_pos (Nat.le_of_not_lt hk)]
      exact ⟨_, rfl⟩

/-- A timer that is started once, and neither stopped nor made single-shot, has from then on
always one round of its functions waited for, due or under way, never two and never none. All
rounds are complete and call the functions in the order in which they were bound, and there is
always a next step of the timer or of its thread. -/
theorem rounds_one_at_a_time {as : List Action} {s : State}
    (hc : Conforms step LeftAlone initial as) (hr : run step initial as = some s) :
    Ticking s ∧ (s.thread ≠ .absent →
      ∃ a ∈ [Action.expire, .run, .call, .finish], ∃ t, step s a = some t) := by
  have hinit : Repeats initial := ⟨rfl, rfl, by decide, .unset rfl rfl rfl rfl⟩
  have hinv : Repeats s := conforming_invariant (fun _ _ _ => step_repeats) hinit hc hr
  exact ⟨hinv.ticking, hinv.goes_on⟩

def secondRound : List Action :=
  [.bind, .bind, .start 1, .expire, .run, .call, .call, .finish, .expire, .run, .call]

theorem rounds_one_at_a_time_twice : ∃ s, run step initial secondRound = some s ∧
    s.calls = [0, 1, 0] ∧ Ticking s :=
  ⟨_, rfl, rfl, (rounds_one_at_a_time (show Conforms step LeftAlone initial secondRound by decide)
    rfl).1⟩

def ThreadPc.ahead (j : ℕ) : ThreadPc → ℕ
  | .calling k => if k ≤ j then 1 else 0
  | _ => 0

/-- How often the function number `j` will be called at most, unless the timer is set again. -/
def State.owed (s : State) (j : ℕ) : ℕ := s.waits + s.queue.count false + s.thread.ahead j

def StaysSingle : Action → Prop
  | .setSingleShot isSingleShot => isSingleShot = true
  | _ => True

instance : (a : Action) → Decidable (StaysSingle a)
  | .setSingleShot isSingleShot => inferInstanceAs (Decidable (isSingleShot = true))
  | .bind | .start _ | .startAgain | .stop | .destroy | .expire | .run | .call | .finish | .exit =>
    .isTrue trivial

theorem count_aborted (queue : List Bool) (n : ℕ) :
    (queue ++ List.replicate n true).count false = queue.count false := by
  rw [List.count_append, List.count_replicate]
  rfl

theorem count_expired (queue : List Bool) (n : ℕ) :
    (queue ++ List.replicate n false).count false = queue.count false + n := by
  rw [List.count_append, List.count_replicate]
  rfl

theorem step_single {s t : State} {a : Action} (hs : s.isSingleShot = true) (hok : StaysSingle a)
    (h : step s a = some t) : t.isSingleShot = true := by
  cases step_effect h with
  | setSingleShot => exact hok
  | _ => exact hs

/-- Whatever happens to a single-shot timer, the calls made and the calls owed together do not
become more, except by one when it is set. -/
theorem step_owed {s t : State} {a : Action} (hs : s.isSingleShot = true)
    (h : step s a = some t) (j : ℕ) :
    t.calls.count j + t.owed j + s.starts ≤ s.calls.count j + s.owed j + t.starts := by
  cases step_effect h with
  | bind | setSingleShot | ignored | unset => exact Nat.le_refl _
  | startedAgain hd =>
    simp only [State.owed, cancel, count_aborted]
    omega
  | started hst hd =>
    have hahead : (if s.thread = .absent then ThreadPc.idle else s.thread).ahead j =
        s.thread.ahead j := by
      split_ifs with ht
      · rw [ht]
        rfl
      · rfl
    simp only [State.owed, cancel, count_aborted, hahead]
    omega
  | stop =>
    simp only [State.owed, cancel, count_aborted]
    omega
  | destroy =>
    simp only [State.owed, cancel, count_aborted]
    omega
  | expire hw =>
    simp only [State.owed, count_expired]
    omega
  | aborted ht hst hq =>
    simp only [State.owed, hq, List.count_cons]
    simp
  | round ht hst hq =>
    simp only [State.owed, hq, ht, List.count_cons_self, ThreadPc.ahead, Nat.zero_le, if_true]
    omega
  | @call k ht hk =>
    simp only [State.owed, ht, ThreadPc.ahead, List.count_append, List.count_singleton, beq_iff_eq]
    split_ifs <;> omega
  | finishOnce ht hk hst =>
    simp only [State.owed, ThreadPc.ahead]
    omega
  | finishAgain ht hk hst =>
    rw [hs] at hst
    cases hst
  | exit ht hst =>
    simp only [State.owed, ht, ThreadPc.ahead]
    omega

theorem run_owed {s t : State} {as : List Action} (hs : s.isSingleShot = true)
    (hok : ∀ a ∈ as, StaysSingle a) (hr : run step s as = some t) (j : ℕ) :
    t.calls.count j + t.owed j + s.starts ≤ s.calls.count j + s.owed j + t.starts := by
  induction as generalizing s with
  | nil =>
    obtain rfl : s = t := by simpa using hr
    exact Nat.le_refl _
  | cons a as ih =>
    obtain ⟨u, hu, hr⟩ := run_cons_eq_some.mp hr
    have hstep := step_owed hs hu j
    have hrest := ih (step_single hs (hok a List.mem_cons_self) hu)
      (fun b hb => hok b (List.mem_cons_of_mem _ hb)) hr
    omega

theorem run_destroyed {s t : State} {as : List Action} (hstop : s.stopped = true)
    (hthread : s.thread = .exited ∨ s.thread = .absent) (hr : run step s as = some t) :
    t.calls = s.calls := by
  have hinv : t.stopped = true ∧ (t.thread = .exited ∨ t.thread = .absent) ∧ t.calls = s.calls := by
    refine run_invariant (I := fun u : State => u.stopped = true ∧
      (u.thread = .exited ∨ u.thread = .absent) ∧ u.calls = s.calls) ?_ ⟨hstop, hthread, rfl⟩ hr
    rintro u a v ⟨hst, hth, hcalls⟩ h
    cases step_effect h with
    | bind | setSingleShot | ignored | unset | startedAgain | stop | expire =>
      exact ⟨hst, hth, hcalls⟩
    | destroy => exact ⟨rfl, hth, hcalls⟩
    | started hs | aborted _ hs | round _ hs =>
      rw [hst] at hs
      cases hs
    | call ht | finishOnce ht | finishAgain ht | exit ht =>
      rw [ht] at hth
      rcases hth with hth | hth <;> cases hth
  exact hinv.2.2

/-- Every function of a single-shot timer is called at most once for each time the timer is set by
one of its two `start`s, however starts, stops, expiries and handlers interleave. After `stop`, and
until it is set again, the timer makes at most the calls of the handlers that were queued or running
by then; and after `destroy` has joined the thread it makes none, even if it is set again. -/
theorem single_shot_calls {as : List Action} {s : State} (hok : ∀ a ∈ as, StaysSingle a)
    (hr : run step initial (.setSingleShot true :: as) = some s) :
    (∀ j, s.calls.count j ≤ s.starts) ∧
    (∀ bs t, (∀ b ∈ bs, StaysSingle b) → run step s (.stop :: bs) = some t → t.starts = s.starts →
      ∀ j, t.calls.count j ≤ s.calls.count j + s.queue.count false + s.thread.ahead j) ∧
    (s.stopped = true → s.thread = .exited ∨ s.thread = .absent → ∀ bs t,
      run step s bs = some t → t.calls = s.calls) := by
  obtain ⟨u, hu, hr'⟩ := run_cons_eq_some.mp hr
  obtain rfl : { initial with isSingleShot := true } = u := Option.some.inj hu
  have hsingle : s.isSingleShot = true := conforming_invariant (I := fun s => s.isSingleShot = true)
    (fun _ _ _ => step_single) rfl (conforms_of_forall (fun a ha _ => hok a ha) _) hr'
  refine ⟨?_, ?_, fun hstop hthread bs t => run_destroyed hstop hthread⟩
  · intro j
    have howed := run_owed rfl hok hr' j
    simp only [initial, State.owed, ThreadPc.ahead, List.count_nil] at howed
    omega
  · intro bs t hbs hrun hstarts j
    obtain ⟨u, hu, hrun⟩ := run_cons_eq_some.mp hrun
    obtain rfl : cancel s = u := Option.some.inj hu
    have howed := run_owed (s := cancel s) hsingle hbs hrun j
    simp only [State.owed, cancel, count_aborted, hstarts] at howed
    omega

def expired : State :=
  { initial with
    isSingleShot := true
    duration := 1
    funcs := 1
    queue := [false]
    thread := .idle
    starts := 1 }

def destroyed : State := { expired with stopped := true, thread := .exited }

theorem single_shot_calls_late :
    (∃ t, run step expired [.stop, .run, .call] = some t ∧
      t.calls = [0] ∧ t.calls.count 0 ≤ 0 + 1 + 0) ∧
    ∃ t, run step destroyed [.startAgain, .expire] = some t ∧ t.starts = 2 ∧ t.calls = [] := by
  have hexpired := single_shot_calls (s := expired)
    (show ∀ a ∈ [.bind, .start 1, .expire], StaysSingle a by decide) rfl
  have hdestroyed := single_shot_calls (s := destroyed)
    (show ∀ a ∈ [.bind, .start 1, .expire, .destroy, .exit], StaysSingle a by decide) rfl
  exact ⟨⟨_, rfl, rfl, hexpired.2.1 [.run, .call] _ (by decide) rfl rfl 0⟩,
    ⟨_, rfl, rfl, hdestroyed.2.2 rfl (Or.inl rfl) [.startAgain, .expire] _ rfl⟩⟩

end Czrpc.Atimer
