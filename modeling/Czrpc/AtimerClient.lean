import Czrpc.Atimer
import Czrpc.RequestTimer
import Czrpc.Simulation

/-! The client `rpc_client` with the `atimer` that it has. The model of the client speaks of its
request timer as a flag, a count and a flag: whether a wait is under way, how many handlers of
expired waits are still to run, and whether one is between the two steps of `disconnect`. Here the
timer is the class itself, with its queue of handlers, the aborted ones included, and its own
thread; and it has the same runs. -/
namespace Czrpc.AtimerClient
open Execution SyncClient RequestTimer Simulation

variable {N : ℕ}

/-- `guarded` are the threads that have made the guard of `write_and_read`. `half` tells that the
timer's thread is between the two steps of `disconnect`. The field `timer` of `client` is not
used. -/
structure State (N : ℕ) where
  client : SyncClient.State N
  timer : Atimer.State
  guarded : Fin N → Bool
  half : Bool

def initTimer : List Atimer.Action := [.bind, .setSingleShot true]

def initial : State N :=
  ⟨SyncClient.initial, { Atimer.initial with funcs := 1, isSingleShot := true }, fun _ => false, false⟩

example : run Atimer.step Atimer.initial initTimer = some (initial (N := 1)).timer := rfl

/-- The timer's thread begins a handler and comes to the end of one. -/
inductive Action (N : ℕ)
  | client (a : SyncClient.Action N)
  | run
  | finish

/-- What a thread of the client does with the timer. The guard stops it. -/
def useTimer (requestTimeout : ℕ) (s : State N) : SyncClient.Action N → Atimer.State
  | .arm _ => Atimer.start s.timer requestTimeout
  | .leave i => if s.guarded i then Atimer.cancel s.timer else s.timer
  | _ => s.timer

def useGuard (guarded : Fin N → Bool) : SyncClient.Action N → Fin N → Bool
  | .arm i => Function.update guarded i true
  | .leave i => Function.update guarded i false
  | _ => guarded

def step (requestTimeout : ℕ) (s : State N) : Action N → Option (State N)
  | .client .expire => (Atimer.step s.timer .expire).map fun timer => { s with timer := timer }
  | .client .fire =>
    if s.timer.thread = .calling 0 ∧ s.half = false then
      some { s with client := { s.client with isConnected := false }, half := true }
    else none
  | .client .timerClose =>
    if s.half = true then
      (Atimer.step s.timer .call).map fun timer =>
        { s with client := closeSocket s.client, timer := timer, half := false }
    else none
  | .client a =>
    (SyncClient.step requestTimeout s.client a).map fun client =>
      { s with
        client := client
        timer := useTimer requestTimeout s a
        guarded := useGuard s.guarded a }
  | .run => (Atimer.step s.timer .run).map fun timer => { s with timer := timer }
  | .finish => (Atimer.step s.timer .finish).map fun timer => { s with timer := timer }

def shows : Action N → Option (SyncClient.Action N)
  | .client a => some a
  | _ => none

def withTimer (s : SyncClient.State N) (timer : Timer) : SyncClient.State N :=
  { s with timer := timer }

/-- What the model of the client has of the timer. -/
def timerView (timer : Atimer.State) (half : Bool) : Timer :=
  ⟨timer.waits ≠ 0,
    timer.queue.count false + (if timer.thread = .calling 0 ∧ half = false then 1 else 0), half⟩

def view (s : State N) : SyncClient.State N := withTimer s.client (timerView s.timer s.half)

def Own : SyncClient.Action N → Prop
  | .expire | .fire | .timerClose => False
  | _ => True

theorem closeSocket_withTimer (s : SyncClient.State N) (timer : Timer) :
    closeSocket (withTimer s timer) = withTimer (closeSocket s) timer := by
  obtain ⟨threads, connMutex, mutex, isConnected, socket, conns, next, _, returned⟩ := s
  cases socket with
  | none => rfl
  | some c => rfl

theorem step_withTimer (requestTimeout : ℕ) (s : SyncClient.State N) (timer : Timer)
    {a : SyncClient.Action N} (ha : Own a) :
    SyncClient.step requestTimeout (withTimer s timer) a =
      (SyncClient.step requestTimeout s a).map
        fun t => withTimer t (timerAfter requestTimeout timer a) := by
  obtain ⟨threads, connMutex, mutex, isConnected, socket, conns, next, _, returned⟩ := s
  cases a with
  | expire | fire | timerClose => exact ha.elim
  | call i | test i | setConnected i | clear i | arm i | readFailed i | leave i =>
    simp only [SyncClient.step, withTimer]
    cases threads i <;> rfl
  | retest i =>
    simp only [SyncClient.step, withTimer]
    cases threads i <;> cases isConnected <;> rfl
  | lockConn i =>
    simp only [SyncClient.step, withTimer]
    cases threads i <;> cases connMutex <;> rfl
  | lock i =>
    simp only [SyncClient.step, withTimer]
    cases threads i <;> cases mutex <;> rfl
  | write i | writeFailed i =>
    simp only [SyncClient.step, withTimer]
    cases threads i <;> cases socket <;> rfl
  | connect i | connectRetry i | connectFailed i | close i =>
    simp only [SyncClient.step, SyncClient.connect, closeSocket_withTimer]
    simp only [withTimer]
    cases threads i <;> rfl
  | read i n =>
    cases socket with
    | none => rfl
    | some c =>
      unfold withTimer
      simp only [SyncClient.step, SyncClient.read]
      split_ifs
      · rw [Option.map_map]
        rfl
      · rfl
  | lose c => rfl
  | parse c =>
    simp only [SyncClient.step, withTimer]
    split <;> rfl
  | answer c k code messageName body =>
    simp only [SyncClient.step, withTimer, Option.map_map]
    rfl

theorem step_own {requestTimeout : ℕ} {s : State N} {a : SyncClient.Action N} (ha : Own a) :
    step requestTimeout s (.client a) =
      (SyncClient.step requestTimeout s.client a).map fun client =>
        { s with
          client := client
          timer := useTimer requestTimeout s a
          guarded := useGuard s.guarded a } := by
  cases a with
  | expire | fire | timerClose => exact ha.elim
  | _ => rfl

/-- The timer as the client uses it: with one function, for one round, and not destroyed. Until
its thread is created nothing waits and nothing is queued. -/
structure Used (timer : Atimer.State) (half : Bool) : Prop where
  funcs : timer.funcs = 1
  single : timer.isSingleShot = true
  running : timer.stopped = false
  waits : timer.waits ≤ 1
  half : half = true → timer.thread = .calling 0
  unset : timer.thread = .absent → timer.waits = 0 ∧ timer.queue = []
  place : timer.thread ∈ [.absent, .idle, .calling 0, .calling 1]

/-- The timer waits for a thread that has the guard, and this is the thread that has the call
mutex. -/
structure Inv (s : State N) : Prop where
  used : Used s.timer s.half
  exclusive : Exclusive s.client
  waiting : s.timer.waits ≠ 0 → ∃ i, s.guarded i = true
  owner : ∀ i, s.guarded i = true → s.client.mutex = some i

theorem initial_inv : Inv (initial : State N) where
  used := ⟨rfl, rfl, rfl, Nat.zero_le 1, nofun, fun _ => ⟨rfl, rfl⟩, List.mem_cons_self⟩
  exclusive := nofun
  waiting h := absurd rfl h
  owner := nofun

theorem Used.cancel {timer : Atimer.State} {half : Bool} (h : Used timer half) :
    Used (Atimer.cancel timer) half where
  funcs := h.funcs
  single := h.single
  running := h.running
  waits := Nat.zero_le 1
  half := h.half
  unset ht := by
    obtain ⟨hw, hq⟩ := h.unset ht
    exact ⟨rfl, by simp [Atimer.cancel, hw, hq]⟩
  place := h.place

theorem Used.start {timer : Atimer.State} {half : Bool} (h : Used timer half) (duration : ℕ) :
    Used (Atimer.start timer duration) half := by
  have heffect := Atimer.start_effect timer duration
  generalize Atimer.start timer duration = timer' at heffect
  cases heffect with
  | ignored => exact h
  | started _ _ =>
    refine ⟨h.funcs, h.single, h.running, Nat.le_refl 1, fun hh => ?_, fun ht => ?_, ?_⟩
    · simp [h.half hh]
    · dsimp only at ht
      split_ifs at ht with habsent
      exact absurd ht habsent
    · have hplace := h.place
      by_cases ht : timer.thread = .absent
      · simp [ht]
      · simpa [ht] using hplace

theorem timerView_start {timer : Atimer.State} {half : Bool} (h : Used timer half) (duration : ℕ) :
    timerView (Atimer.start timer duration) half =
      { timerView timer half with armed := (timerView timer half).armed || duration ≠ 0 } := by
  have heffect := Atimer.start_effect timer duration
  generalize Atimer.start timer duration = timer' at heffect
  cases heffect with
  | ignored hd =>
    have hzero : duration = 0 := by simpa [h.running] using hd
    simp [timerView, hzero]
  | started _ hd =>
    by_cases ht : timer.thread = .absent
    · simp [timerView, Atimer.cancel, List.count_replicate, hd, ht]
    · simp [timerView, Atimer.cancel, List.count_replicate, hd, ht]

theorem timerView_cancel (timer : Atimer.State) (half : Bool) :
    timerView (Atimer.cancel timer) half = { timerView timer half with armed := false } := by
  simp only [timerView, Atimer.cancel, Atimer.count_aborted]
  rfl

theorem Inv.leave {s : State N} (hs : Inv s) {i : Fin N} (hi : holds (s.client.threads i) = true)
    (hg : ¬ s.guarded i = true) : s.timer.waits = 0 := by
  by_contra hw
  obtain ⟨j, hj⟩ := hs.waiting hw
  have hji : j = i := Option.some.inj ((hs.owner j hj).symm.trans (hs.exclusive i hi))
  rw [hji] at hj
  exact hg hj

theorem timerView_use {requestTimeout : ℕ} {s : State N} {a : SyncClient.Action N} (hs : Inv s)
    (ha : Own a) (hon : Enabled s.client a) :
    timerView (useTimer requestTimeout s a) s.half =
      timerAfter requestTimeout (timerView s.timer s.half) a := by
  cases a with
  | arm i => exact timerView_start hs.used requestTimeout
  | leave i =>
    simp only [useTimer, timerAfter]
    split_ifs with hg
    · exact timerView_cancel s.timer s.half
    · simp [timerView, hs.leave hon hg]
  | expire | fire | timerClose => exact ha.elim
  | _ => rfl

theorem Used.use {requestTimeout : ℕ} {s : State N} (hs : Used s.timer s.half)
    (a : SyncClient.Action N) : Used (useTimer requestTimeout s a) s.half := by
  cases a with
  | arm i => exact hs.start requestTimeout
  | leave i =>
    simp only [useTimer]
    split_ifs
    · exact hs.cancel
    · exact hs
  | _ => exact hs

theorem Inv.own {requestTimeout : ℕ} {s : State N} {client : SyncClient.State N}
    {a : SyncClient.Action N} (hs : Inv s) (ha : Own a)
    (h : SyncClient.step requestTimeout s.client a = some client) :
    Inv { s with
      client := client
      timer := useTimer requestTimeout s a
      guarded := useGuard s.guarded a } := by
  obtain ⟨hon, -⟩ := step_timer h
  have hmutex := step_mutex h
  refine ⟨hs.used.use a, step_exclusive hs.exclusive h, ?_, ?_⟩
  · cases a with
    | arm i => exact fun _ => ⟨i, Function.update_self _ _ _⟩
    | leave i =>
      intro hw
      simp only [useTimer] at hw
      split_ifs at hw with hg
      · exact absurd rfl hw
      · exact absurd (hs.leave hon hg) hw
    | _ => exact hs.waiting
  · intro j hj
    simp only [hmutex]
    cases a with
    | arm i =>
      by_cases hji : j = i
      · subst hji
        exact hs.exclusive j hon
      · exact hs.owner j (by simpa [useGuard, hji] using hj)
    | leave i =>
      by_cases hji : j = i
      · simp [useGuard, hji] at hj
      · have hjm := hs.owner j (by simpa [useGuard, hji] using hj)
        exact absurd (Option.some.inj (hjm.symm.trans (hs.exclusive i hon))) hji
    | lock i =>
      have hjm := hs.owner j hj
      rw [show s.client.mutex = none from hon] at hjm
      cases hjm
    | _ => exact hs.owner j hj

theorem Inv.timer {s : State N} (hs : Inv s) {client : SyncClient.State N} {timer : Atimer.State}
    {half : Bool} (hused : Used timer half) (hw : timer.waits = 0 ∨ timer.waits = s.timer.waits)
    (hthreads : client.threads = s.client.threads) (hmutex : client.mutex = s.client.mutex) :
    Inv { s with client := client, timer := timer, half := half } := by
  refine ⟨hused, hs.exclusive.keep hthreads hmutex, fun hne => ?_, fun i hi => ?_⟩
  · rcases hw with hw | hw
    · exact absurd hw hne
    · exact hs.waiting (hw ▸ hne)
  · exact hmutex.trans (hs.owner i hi)

theorem Used.expire {timer timer' : Atimer.State} {half : Bool} (h : Used timer half)
    (hstep : Atimer.step timer .expire = some timer') :
    Used timer' half ∧ timer'.waits = 0 ∧ (timerView timer half).armed = true ∧
      timerView timer' half =
        { timerView timer half with armed := false, expired := (timerView timer half).expired + 1 } := by
  cases Atimer.step_effect hstep with
  | expire hw =>
    have hone : timer.waits = 1 := Nat.le_antisymm h.waits hw
    refine ⟨⟨h.funcs, h.single, h.running, Nat.zero_le 1, h.half, fun ht => ?_, h.place⟩, rfl, ?_, ?_⟩
    · exact absurd (h.unset ht).1 (by omega)
    · simp [timerView, hone]
    · simp [timerView, hone]
      omega

theorem Used.run {timer timer' : Atimer.State} {half : Bool} (h : Used timer half)
    (hstep : Atimer.step timer .run = some timer') :
    Used timer' half ∧ timer'.waits = timer.waits ∧ timerView timer' half = timerView timer half := by
  have hidle : timer.thread = .idle → half = false := by
    intro ht
    by_contra hh
    rw [h.half (by simpa using hh)] at ht
    cases ht
  cases Atimer.step_effect hstep with
  | aborted ht _ hq =>
    refine ⟨⟨h.funcs, h.single, h.running, h.waits, h.half, fun ht' => ?_, h.place⟩, rfl, ?_⟩
    · rw [ht] at ht'
      cases ht'
    · simp [timerView, hq]
  | round ht _ hq =>
    have hh := hidle ht
    refine ⟨⟨h.funcs, h.single, h.running, h.waits, fun _ => rfl, nofun, by simp⟩, rfl, ?_⟩
    simp [timerView, hq, hh, ht]

theorem Used.finish {timer timer' : Atimer.State} {half : Bool} (h : Used timer half)
    (hstep : Atimer.step timer .finish = some timer') :
    Used timer' half ∧ timer'.waits = timer.waits ∧ timerView timer' half = timerView timer half := by
  have hnot : ∀ k, timer.thread = .calling k → timer.funcs ≤ k → timer.thread ≠ .calling 0 := by
    intro k ht hk ht'
    rw [ht] at ht'
    have hfuncs := h.funcs
    have hk0 : k = 0 := Atimer.ThreadPc.calling.inj ht'
    omega
  cases Atimer.step_effect hstep with
  | finishOnce ht hk _ =>
    have hne := hnot _ ht hk
    refine ⟨⟨h.funcs, h.single, h.running, h.waits, fun hh => absurd (h.half hh) hne, nofun,
      by simp⟩, rfl, ?_⟩
    simp [timerView, hne]
  | finishAgain ht hk hs _ =>
    rw [h.single] at hs
    cases hs

theorem Used.fire {timer : Atimer.State} {half : Bool} (h : Used timer half)
    (ht : timer.thread = .calling 0) : Used timer true :=
  ⟨h.funcs, h.single, h.running, h.waits, fun _ => ht, h.unset, h.place⟩

theorem Used.call {timer timer' : Atimer.State} (h : Used timer true)
    (hstep : Atimer.step timer .call = some timer') :
    Used timer' false ∧ timer'.waits = timer.waits ∧
      timerView timer' false = { timerView timer true with closing := false } := by
  cases Atimer.step_effect hstep with
  | @call k ht hk =>
    have hk0 : k = 0 := Atimer.ThreadPc.calling.inj (ht.symm.trans (h.half rfl))
    refine ⟨⟨h.funcs, h.single, h.running, h.waits, nofun, nofun, by simp [hk0]⟩, rfl, ?_⟩
    simp [timerView, hk0]

def layer (N requestTimeout : ℕ) :
    Layer (State N) (SyncClient.State N) (Action N) (SyncClient.Action N) where
  step := step requestTimeout
  spec := SyncClient.step requestTimeout
  shows := shows
  view := view
  inv := Inv

/-- What a step of the composition shows, the model's client does. -/
theorem step_shown {requestTimeout : ℕ} {s t : State N} {a : Action N} (hs : Inv s)
    (h : step requestTimeout s a = some t) :
    Inv t ∧ run (SyncClient.step requestTimeout) (view s) (shows a).toList = some (view t) := by
  cases a with
  | run =>
    obtain ⟨timer, htimer, rfl⟩ := Option.map_eq_some_iff.mp h
    obtain ⟨hused, hw, hview⟩ := hs.used.run htimer
    exact ⟨hs.timer hused (Or.inr hw) rfl rfl, by simp [shows, view, hview]⟩
  | finish =>
    obtain ⟨timer, htimer, rfl⟩ := Option.map_eq_some_iff.mp h
    obtain ⟨hused, hw, hview⟩ := hs.used.finish htimer
    exact ⟨hs.timer hused (Or.inr hw) rfl rfl, by simp [shows, view, hview]⟩
  | client a =>
    suffices hgoal : Inv t ∧ SyncClient.step requestTimeout (view s) a = some (view t) by
      simpa [shows, run_cons] using hgoal
    by_cases ha : Own a
    · rw [step_own ha] at h
      obtain ⟨client, hclient, rfl⟩ := Option.map_eq_some_iff.mp h
      refine ⟨hs.own ha hclient, ?_⟩
      rw [view, step_withTimer requestTimeout _ _ ha, hclient,
        ← timerView_use hs ha (step_timer hclient).1]
      rfl
    · cases a with
      | expire =>
        obtain ⟨timer, htimer, rfl⟩ := Option.map_eq_some_iff.mp h
        obtain ⟨hused, hw, harmed, hview⟩ := hs.used.expire htimer
        refine ⟨hs.timer hused (Or.inl hw) rfl rfl, ?_⟩
        simp only [view, hview]
        exact if_pos harmed
      | fire =>
        simp only [step] at h
        split_ifs at h with hfire
        obtain rfl := Option.some.inj h
        obtain ⟨hthread, hhalf⟩ := hfire
        refine ⟨hs.timer (hs.used.fire hthread) (Or.inr rfl) rfl rfl, ?_⟩
        simp [SyncClient.step, view, withTimer, timerView, hthread, hhalf]
      | timerClose =>
        simp only [step] at h
        split_ifs at h with hhalf
        obtain ⟨timer, htimer, rfl⟩ := Option.map_eq_some_iff.mp h
        have hused := hs.used
        rw [hhalf] at hused
        obtain ⟨hused', hw, hview⟩ := hused.call htimer
        refine ⟨hs.timer hused' (Or.inr hw) (closeSocket_threads _) (closeSocket_mutex _), ?_⟩
        simp only [view, hview, hhalf, SyncClient.step, closeSocket_withTimer]
        rfl
      | _ => exact absurd trivial ha

theorem exists_round (requestTimeout : ℕ) {s : State N} (hrunning : s.timer.stopped = false)
    (ht : s.timer.thread = .idle) (hq : 0 < s.timer.queue.count false) :
    ∃ as t, run (step requestTimeout) s as = some t ∧ as.filterMap shows = [] ∧
      t.timer.thread = .calling 0 ∧ t.half = s.half := by
  induction hqueue : s.timer.queue generalizing s with
  | nil =>
    rw [hqueue] at hq
    exact absurd hq (Nat.lt_irrefl 0)
  | cons ec rest ih =>
    cases ec with
    | false =>
      refine ⟨[.run], { s with timer := { s.timer with queue := rest, thread := .calling 0 } }, ?_,
        rfl, rfl, rfl⟩
      simp [run_cons, step, Atimer.step, ht, hrunning, hqueue]
    | true =>
      have hstep : step requestTimeout s .run =
          some { s with timer := { s.timer with queue := rest, thread := .idle } } := by
        simp [step, Atimer.step, ht, hrunning, hqueue]
      have hrest : 0 < rest.count false := by simpa [hqueue] using hq
      obtain ⟨as, t, hrun, hshows, hthread, hhalf⟩ :=
        ih (s := { s with timer := { s.timer with queue := rest, thread := .idle } }) hrunning rfl
          hrest rfl
      exact ⟨.run :: as, t, run_cons_eq_some.mpr ⟨_, hstep, hrun⟩, hshows, hthread, hhalf⟩

theorem exists_disconnect {requestTimeout : ℕ} {s : State N} (hs : Inv s)
    (hexpired : 0 < (timerView s.timer s.half).expired) (hhalf : s.half = false) :
    ∃ as t, run (step requestTimeout) s as = some t ∧ as.filterMap shows = [] ∧
      t.timer.thread = .calling 0 ∧ t.half = false := by
  have hplace := hs.used.place
  simp only [List.mem_cons, List.not_mem_nil, or_false] at hplace
  rcases hplace with ht | ht | ht | ht
  · simp [timerView, ht, (hs.used.unset ht).2] at hexpired
  · simp only [← hhalf]
    exact exists_round requestTimeout hs.used.running ht (by simpa [timerView, ht] using hexpired)
  · exact ⟨[], s, rfl, rfl, ht, hhalf⟩
  · have hstep : step requestTimeout s .finish =
        some { s with timer := { s.timer with thread := .idle } } := by
      simp [step, Atimer.step, ht, hs.used.funcs, hs.used.single]
    obtain ⟨as, t, hrun, hshows, hthread, hhalf'⟩ :=
      exists_round requestTimeout (s := { s with timer := { s.timer with thread := .idle } })
        hs.used.running rfl (by simpa [timerView, ht] using hexpired)
    exact ⟨.finish :: as, t, run_cons_eq_some.mpr ⟨_, hstep, hrun⟩, hshows, hthread,
      hhalf'.trans hhalf⟩

theorem shown_of_enabled {requestTimeout : ℕ} {s t : State N} {as : List (Action N)}
    {b : SyncClient.Action N} (hrun : run (step requestTimeout) s as = some t)
    (hshows : as.filterMap shows = []) (hb : (step requestTimeout t (.client b)).isSome = true) :
    ∃ as t, run (step requestTimeout) s as = some t ∧ as.filterMap shows = [b] := by
  obtain ⟨u, hu⟩ := Option.isSome_iff_exists.mp hb
  refine ⟨as ++ [.client b], u, run_trans hrun (run_cons_eq_some.mpr ⟨u, hu, rfl⟩), ?_⟩
  rw [List.filterMap_append, hshows]
  rfl

theorem exists_shown {requestTimeout : ℕ} {s : State N} {u : SyncClient.State N}
    {b : SyncClient.Action N} (hs : Inv s)
    (h : SyncClient.step requestTimeout (view s) b = some u) :
    ∃ as t, run (step requestTimeout) s as = some t ∧ as.filterMap shows = [b] := by
  by_cases hb : Own b
  · rw [view, step_withTimer requestTimeout _ _ hb] at h
    obtain ⟨client, hclient, -⟩ := Option.map_eq_some_iff.mp h
    refine shown_of_enabled (run_nil s) rfl ?_
    rw [step_own hb, hclient]
    rfl
  · obtain ⟨hon, -⟩ := step_timer h
    cases b with
    | expire =>
      have harmed : (timerView s.timer s.half).armed = true := hon
      have hwaits : 0 < s.timer.waits := Nat.pos_of_ne_zero (by simpa [timerView] using harmed)
      exact shown_of_enabled (run_nil s) rfl (by simp [step, Atimer.step, hwaits])
    | fire =>
      obtain ⟨hexpired, hhalf⟩ := hon
      obtain ⟨as, t, hrun, hshows, hthread, hhalf'⟩ := exists_disconnect hs hexpired hhalf
      exact shown_of_enabled hrun hshows (by simp [step, hthread, hhalf'])
    | timerClose =>
      have hhalf : s.half = true := hon
      refine shown_of_enabled (run_nil s) rfl ?_
      simp [step, Atimer.step, hhalf, hs.used.half hhalf, hs.used.funcs]
    | _ => exact absurd trivial hb

/-- The client with the `atimer` of the class has the runs of the model's client, and no others:
the threads, the connections and the two steps of each `disconnect` are the same, whatever handlers
the timer's queue holds and however its thread is scheduled. -/
theorem atimer_client_exact (requestTimeout : ℕ) (bs : List (SyncClient.Action N))
    (u : SyncClient.State N) :
    (∃ as t, run (step requestTimeout) initial as = some t ∧ as.filterMap shows = bs ∧ view t = u) ↔
      run (SyncClient.step requestTimeout) SyncClient.initial bs = some u := by
  have hsound : (layer N requestTimeout).Sound := fun _ _ _ => step_shown
  have hcomplete : (layer N requestTimeout).Complete := fun _ _ _ => exists_shown
  have hinitial : view (initial : State N) = SyncClient.initial := rfl
  rw [← hinitial]
  exact Layer.run_iff hsound hcomplete initial_inv bs u

end Czrpc.AtimerClient
