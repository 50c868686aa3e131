import Czrpc.SyncClient

/-! The request timer of `rpc_client`. One timer serves all calls: `write_and_read` arms it
after the write and stops it on its way out, under the call mutex. `stop` cancels a wait that
has not expired; the handler of one that has is queued, and it runs `disconnect` whenever the
timer thread gets to it. -/
namespace Czrpc.RequestTimer
open Execution SyncClient

variable {N : ℕ}

/-- The client with, for each wait, the call that it was armed for. Calls are numbered as they
enter `write_and_read`: `entered` counts them, and `inside` is the one that has not left. Each
of the two steps of a `disconnect` of the timer thread adds to `disconnects` the call whose
wait it belongs to and the call that is inside. -/
structure State (N : ℕ) where
  client : SyncClient.State N
  entered : ℕ
  inside : Option ℕ
  armed : Option ℕ
  expired : List ℕ
  closing : Option ℕ
  disconnects : List (Option ℕ × Option ℕ)

def initial : State N := ⟨SyncClient.initial, 0, none, none, [], none, []⟩

def record (requestTimeout : ℕ) (s : State N) (a : Action N) (t : SyncClient.State N) : State N :=
  match a with
  | .lock _ => { s with client := t, entered := s.entered + 1, inside := some s.entered }
  | .arm _ => { s with client := t, armed := if requestTimeout ≠ 0 then s.inside else s.armed }
  | .leave _ => { s with client := t, inside := none, armed := none }
  | .expire => { s with client := t, armed := none, expired := s.expired ++ s.armed.toList }
  | .fire => { s with
      client := t
      expired := s.expired.tail
      closing := s.expired.head?
      disconnects := s.disconnects ++ [(s.expired.head?, s.inside)] }
  | .timerClose => { s with
      client := t
      closing := none
      disconnects := s.disconnects ++ [(s.closing, s.inside)] }
  | _ => { s with client := t }

def step (requestTimeout : ℕ) (s : State N) (a : Action N) : Option (State N) :=
  (SyncClient.step requestTimeout s.client a).map (record requestTimeout s a)

def holds : Pc → Bool
  | .writing _ | .writeFailed | .arming _ | .readingHead _ _ | .readingContent _ _ _ | .readFailed _
  | .closing _ | .leaving _ => true
  | _ => false

def mutexAfter (mutex : Option (Fin N)) : Action N → Option (Fin N)
  | .lock i => some i
  | .leave _ => none
  | _ => mutex

def timerAfter (requestTimeout : ℕ) (timer : Timer) : Action N → Timer
  | .arm _ => { timer with armed := timer.armed || requestTimeout ≠ 0 }
  | .leave _ => { timer with armed := false }
  | .expire => { timer with armed := false, expired := timer.expired + 1 }
  | .fire => { timer with expired := timer.expired - 1, closing := true }
  | .timerClose => { timer with closing := false }
  | _ => timer

def Enabled (s : SyncClient.State N) : Action N → Prop
  | .lock _ => s.mutex = none
  | .arm i | .leave i => holds (s.threads i) = true
  | .expire => s.timer.armed = true
  | .fire => 0 < s.timer.expired ∧ s.timer.closing = false
  | .timerClose => s.timer.closing = true
  | _ => True

theorem closeSocket_mutex (s : SyncClient.State N) : (closeSocket s).mutex = s.mutex := by
  unfold closeSocket
  split <;> rfl

theorem closeSocket_timer (s : SyncClient.State N) : (closeSocket s).timer = s.timer := by
  unfold closeSocket
  split <;> rfl

theorem step_mutex {requestTimeout : ℕ} {s t : SyncClient.State N} {a : Action N}
    (h : SyncClient.step requestTimeout s a = some t) : t.mutex = mutexAfter s.mutex a := by
  cases step_effect h with
  | connect => exact closeSocket_mutex s
  | connectRetry => exact closeSocket_mutex s
  | connectFailed => exact closeSocket_mutex s
  | close => exact closeSocket_mutex s
  | timerClose => exact closeSocket_mutex s
  | _ => rfl

theorem step_timer {requestTimeout : ℕ} {s t : SyncClient.State N} {a : Action N}
    (h : SyncClient.step requestTimeout s a = some t) :
    Enabled s a ∧ t.timer = timerAfter requestTimeout s.timer a := by
  cases step_effect h with
  | connect => exact ⟨trivial, closeSocket_timer s⟩
  | connectRetry => exact ⟨trivial, closeSocket_timer s⟩
  | connectFailed => exact ⟨trivial, closeSocket_timer s⟩
  | close => exact ⟨trivial, closeSocket_timer s⟩
  | lock _ hm => exact ⟨hm, rfl⟩
  | arm hi =>
    rw [SyncClient.step, hi] at h
    exact ⟨by rw [Enabled, hi]; rfl, congrArg SyncClient.State.timer (Option.some.inj h).symm⟩
  | leave hi =>
    rw [SyncClient.step, hi] at h
    exact ⟨by rw [Enabled, hi]; rfl, congrArg SyncClient.State.timer (Option.some.inj h).symm⟩
  | expire =>
    rw [SyncClient.step] at h
    split_ifs at h with harmed
    exact ⟨harmed, congrArg SyncClient.State.timer (Option.some.inj h).symm⟩
  | fire =>
    rw [SyncClient.step] at h
    split_ifs at h with hfire
    exact ⟨hfire, congrArg SyncClient.State.timer (Option.some.inj h).symm⟩
  | timerClose =>
    rw [SyncClient.step] at h
    split_ifs at h with hclosing
    exact ⟨hclosing, congrArg SyncClient.State.timer (Option.some.inj h).symm⟩
  | _ => exact ⟨trivial, rfl⟩

def Exclusive (s : SyncClient.State N) : Prop :=
  ∀ i, holds (s.threads i) = true → s.mutex = some i

theorem Exclusive.move {s t : SyncClient.State N} (hs : Exclusive s) {i : Fin N} {pc : Pc}
    (ht : t.threads = Function.update s.threads i pc) (hm : t.mutex = s.mutex)
    (hpc : holds pc = true → holds (s.threads i) = true) : Exclusive t := by
  intro j hj
  rw [hm]
  rw [ht] at hj
  by_cases hji : j = i
  · subst j
    rw [Function.update_self] at hj
    exact hs i (hpc hj)
  · rw [Function.update_of_ne hji] at hj
    exact hs j hj

theorem holds_of_received {pc pc' : Pc} {bytes : Framing.Bytes} (h : pc.received bytes = some pc') :
    holds pc = true := by
  unfold Pc.received at h
  split at h
  · rfl
  · rfl
  · cases h

theorem Exclusive.keep {s t : SyncClient.State N} (hs : Exclusive s) (ht : t.threads = s.threads)
    (hm : t.mutex = s.mutex) : Exclusive t := by
  intro i hi
  rw [ht] at hi
  rw [hm]
  exact hs i hi

theorem Exclusive.of_lock {s : SyncClient.State N} (hs : Exclusive s) (hm : s.mutex = none)
    (i : Fin N) (pc : Pc) : Exclusive { setThread s i pc with mutex := some i } := by
  intro j hj
  change holds ((setThread s i pc).threads j) = true at hj
  by_cases hji : j = i
  · rw [hji]
  · rw [setThread_of_ne _ hji] at hj
    have howner := hs j hj
    rw [hm] at howner
    cases howner

theorem Exclusive.of_leave {s t : SyncClient.State N} (hs : Exclusive s) {i : Fin N}
    (hi : holds (s.threads i) = true) (ht : t.threads = Function.update s.threads i .idle) :
    Exclusive t := by
  intro j hj
  rw [ht] at hj
  by_cases hji : j = i
  · subst j
    rw [Function.update_self] at hj
    cases hj
  · rw [Function.update_of_ne hji] at hj
    exact absurd (Option.some.inj ((hs j hj).symm.trans (hs i hi))) hji

theorem step_exclusive {requestTimeout : ℕ} {s t : SyncClient.State N} {a : Action N}
    (hs : Exclusive s) (h : SyncClient.step requestTimeout s a = some t) : Exclusive t := by
  have hmutex := step_mutex h
  cases step_effect h with
  | connect => exact hs.move (setThread_closeSocket_threads s _ _) hmutex nofun
  | connectRetry => exact hs.keep (closeSocket_threads s) hmutex
  | connectFailed => exact hs.move (setThread_closeSocket_threads s _ _) hmutex nofun
  | lock _ hm => exact hs.of_lock hm _ _
  | write hi => exact hs.move rfl rfl fun _ => by rw [hi]; rfl
  | writeFailed hi => exact hs.move rfl rfl fun _ => by rw [hi]; rfl
  | writeClosed hi => exact hs.move rfl rfl fun _ => by rw [hi]; rfl
  | clearWrite hi => exact hs.move rfl rfl fun _ => by rw [hi]; rfl
  | clearRead hi => exact hs.move rfl rfl fun _ => by rw [hi]; rfl
  | arm hi => exact hs.move rfl rfl fun _ => by rw [hi]; rfl
  | read _ _ hpc => exact hs.move rfl rfl fun _ => holds_of_received hpc
  | readFailed hi =>
    refine hs.move rfl rfl fun _ => ?_
    rcases hi with ⟨buf, hi⟩ | ⟨head, buf, hi⟩
    · rw [hi]
      rfl
    · rw [hi]
      rfl
  | close hi => exact hs.move (setThread_closeSocket_threads s _ _) hmutex fun _ => by rw [hi]; rfl
  | leave hi => exact hs.of_leave (by rw [hi]; rfl) rfl
  | timerClose => exact hs.keep (closeSocket_threads s) hmutex
  | expire => exact hs
  | fire => exact hs
  | lose => exact hs
  | parse => exact hs
  | answer => exact hs
  | _ => exact hs.move rfl rfl nofun

structure Accurate (s : State N) : Prop where
  exclusive : Exclusive s.client
  inside : s.inside.isSome = s.client.mutex.isSome
  armed : s.armed.isSome = s.client.timer.armed
  expired : s.expired.length = s.client.timer.expired
  closing : s.closing.isSome = s.client.timer.closing

theorem initial_accurate : Accurate (initial : State N) := ⟨nofun, rfl, rfl, rfl, rfl⟩

theorem Accurate.inside_isSome {s : State N} (hs : Accurate s) {i : Fin N}
    (hi : holds (s.client.threads i) = true) : s.inside.isSome = true := by
  rw [hs.inside, hs.exclusive i hi]
  rfl

theorem record_client (requestTimeout : ℕ) (s : State N) (a : Action N) (t : SyncClient.State N) :
    (record requestTimeout s a t).client = t := by
  cases a <;> rfl

theorem step_accurate {requestTimeout : ℕ} {s t : State N} {a : Action N} (hs : Accurate s)
    (h : step requestTimeout s a = some t) : Accurate t := by
  obtain ⟨client, hclient, rfl⟩ := Option.map_eq_some_iff.mp h
  obtain ⟨henabled, htimer⟩ := step_timer hclient
  constructor
  · rw [record_client]
    exact step_exclusive hs.exclusive hclient
  · rw [record_client, step_mutex hclient]
    cases a with
    | lock => rfl
    | leave => rfl
    | _ => exact hs.inside
  · rw [record_client, htimer]
    cases a with
    | arm i =>
      have hinside := hs.inside_isSome henabled
      by_cases hzero : requestTimeout = 0
      · simpa [record, timerAfter, hzero] using hs.armed
      · simpa [record, timerAfter, hzero] using hinside
    | leave => rfl
    | expire => rfl
    | _ => exact hs.armed
  · rw [record_client, htimer]
    cases a with
    | expire =>
      obtain ⟨k, hk⟩ := Option.isSome_iff_exists.mp (hs.armed.trans henabled)
      simp [record, timerAfter, hk, hs.expired]
    | fire => simp [record, timerAfter, hs.expired]
    | _ => exact hs.expired
  · rw [record_client, htimer]
    cases a with
    | fire =>
      have hne : s.expired ≠ [] := List.ne_nil_of_length_pos (hs.expired ▸ henabled.1)
      simp [record, timerAfter, hne]
    | timerClose => rfl
    | _ => exact hs.closing

/-- No call leaves `write_and_read` while the handler of an expired wait is queued or running. -/
def Quiet (s : State N) : Action N → Prop
  | .leave _ => s.client.timer.expired = 0 ∧ s.client.timer.closing = false
  | _ => True

/-- Both steps of a disconnect are taken while the call of its wait is inside. -/
def OwnCall (d : Option ℕ × Option ℕ) : Prop := ∃ k, d = (some k, some k)

/-- Every wait and every handler belongs to the call that is inside. -/
structure Inv (s : State N) : Prop where
  accurate : Accurate s
  armed : ∀ k ∈ s.armed, s.inside = some k
  expired : ∀ k ∈ s.expired, s.inside = some k
  closing : ∀ k ∈ s.closing, s.inside = some k
  disconnects : ∀ d ∈ s.disconnects, OwnCall d

theorem initial_inv : Inv (initial : State N) := ⟨initial_accurate, nofun, nofun, nofun, nofun⟩

theorem own_of_mem {inside call : Option ℕ} (hcall : call.isSome = true)
    (hown : ∀ k ∈ call, inside = some k) : OwnCall (call, inside) := by
  obtain ⟨k, rfl⟩ := Option.isSome_iff_exists.mp hcall
  exact ⟨k, by rw [hown k rfl]⟩

theorem Inv.none_left {s : State N} (hs : Inv s) (hinside : s.inside = none) :
    s.armed = none ∧ s.expired = [] ∧ s.closing = none := by
  refine ⟨Option.eq_none_iff_forall_not_mem.mpr fun k hk => ?_,
    List.eq_nil_iff_forall_not_mem.mpr fun k hk => ?_,
    Option.eq_none_iff_forall_not_mem.mpr fun k hk => ?_⟩
  · exact absurd (hinside.symm.trans (hs.armed k hk)) nofun
  · exact absurd (hinside.symm.trans (hs.expired k hk)) nofun
  · exact absurd (hinside.symm.trans (hs.closing k hk)) nofun

theorem step_inv {requestTimeout : ℕ} {s t : State N} {a : Action N} (hs : Inv s) (hok : Quiet s a)
    (h : step requestTimeout s a = some t) : Inv t := by
  have haccurate := step_accurate hs.accurate h
  obtain ⟨client, hclient, rfl⟩ := Option.map_eq_some_iff.mp h
  obtain ⟨henabled, -⟩ := step_timer hclient
  cases a with
  | lock i =>
    have hmutex : s.client.mutex = none := henabled
    have hinside : s.inside = none := by
      have hsome := hs.accurate.inside
      rw [hmutex] at hsome
      exact Option.not_isSome_iff_eq_none.mp (by simp [hsome])
    obtain ⟨harmed, hexpired, hclosing⟩ := hs.none_left hinside
    refine ⟨haccurate, ?_, ?_, ?_, hs.disconnects⟩
    · simp [record, harmed]
    · simp [record, hexpired]
    · simp [record, hclosing]
  | arm i =>
    refine ⟨haccurate, ?_, hs.expired, hs.closing, hs.disconnects⟩
    intro k hk
    simp only [record] at hk
    split_ifs at hk
    · exact hk
    · exact hs.armed k hk
  | leave i =>
    obtain ⟨hzero, hclosing⟩ := hok
    -- the next call may be inside before a handler that is left runs: `Quiet` leaves none
    have hexpired : s.expired = [] := List.length_eq_zero_iff.mp (hs.accurate.expired.trans hzero)
    have hnone : s.closing = none := by
      have hsome := hs.accurate.closing
      rw [hclosing] at hsome
      exact Option.not_isSome_iff_eq_none.mp (by simp [hsome])
    refine ⟨haccurate, nofun, ?_, ?_, hs.disconnects⟩
    · simp [record, hexpired]
    · simp [record, hnone]
  | expire =>
    refine ⟨haccurate, nofun, ?_, hs.closing, hs.disconnects⟩
    intro k hk
    rcases List.mem_append.mp hk with hk | hk
    · exact hs.expired k hk
    · exact hs.armed k (Option.mem_toList.mp hk)
  | fire =>
    have hne : s.expired ≠ [] := List.ne_nil_of_length_pos (hs.accurate.expired ▸ henabled.1)
    have hhead : ∀ k ∈ s.expired.head?, s.inside = some k := fun k hk =>
      hs.expired k (List.mem_of_mem_head? hk)
    have hown : OwnCall (s.expired.head?, s.inside) :=
      own_of_mem (List.isSome_head?.mpr hne) hhead
    exact ⟨haccurate, hs.armed, fun k hk => hs.expired k (List.mem_of_mem_tail hk), hhead,
      List.forall_mem_append.mpr ⟨hs.disconnects, List.forall_mem_singleton.mpr hown⟩⟩
  | timerClose =>
    have hown : OwnCall (s.closing, s.inside) :=
      own_of_mem (hs.accurate.closing.trans henabled) hs.closing
    exact ⟨haccurate, hs.armed, hs.expired, nofun,
      List.forall_mem_append.mpr ⟨hs.disconnects, List.forall_mem_singleton.mpr hown⟩⟩
  | _ => exact ⟨haccurate, hs.armed, hs.expired, hs.closing, hs.disconnects⟩

/-- In every run in which no call leaves while a handler is queued or running, the timer's
`disconnect` is executed only while the call that its wait was armed for is inside. -/
theorem disconnects_own_call (requestTimeout : ℕ) {as : List (Action N)} {s : State N}
    (hc : Conforms (step requestTimeout) Quiet initial as)
    (hr : run (step requestTimeout) initial as = some s) : ∀ d ∈ s.disconnects, OwnCall d := by
  have hinv : Inv s := conforming_invariant (fun _ _ _ => step_inv) initial_inv hc hr
  exact hinv.disconnects

instance (s : State N) : (a : Action N) → Decidable (Quiet s a)
  | .leave _ => inferInstanceAs (Decidable (_ = 0 ∧ _ = false))
  | .call _ _ | .test _ | .lockConn _ | .retest _ | .connect _ | .connectRetry _ | .connectFailed _
  | .setConnected _ | .lock _ | .write _ | .writeFailed _ _ | .clear _ | .arm _ | .read _ _
  | .readFailed _ | .close _ | .expire | .fire | .timerClose | .lose _ | .parse _
  | .answer _ _ _ _ _ => .isTrue trivial

def timedOut (i : Fin N) : List (Action N) :=
  writeRequest i echoRequest ++
    [.expire, .fire, .timerClose, .readFailed i, .clear i, .close i, .leave i]

/-- After a call that times out, another thread connects again and is answered in time; a later
call on this connection times out. -/
def timedOutAgain (i j : Fin N) : List (Action N) :=
  timedOut i ++ writeRequest j echoRequest ++ [.parse 1, .answer 1 0 .ok [] [104, 105], .read j 8,
    .read j 10, .leave j, .call i echoRequest, .test i, .lock i, .write i, .arm i, .expire, .fire,
    .timerClose, .readFailed i, .clear i, .close i, .leave i]

theorem disconnects_own_call_timedOut :
    ∃ s : State 2, run (step 3) initial (timedOutAgain 0 1) = some s ∧
      s.disconnects = [(some 0, some 0), (some 0, some 0), (some 2, some 2), (some 2, some 2)] ∧
      ∀ d ∈ s.disconnects, OwnCall d := by
  have hrun : (run (step 3) (initial : State 2) (timedOutAgain 0 1)).map State.disconnects =
      some [(some 0, some 0), (some 0, some 0), (some 2, some 2), (some 2, some 2)] := by
    decide +kernel
  obtain ⟨s, hs, he⟩ := Option.map_eq_some_iff.mp hrun
  exact ⟨s, hs, he, disconnects_own_call 3 (by decide +kernel) hs⟩

/-- The wait expires as the response arrives, and the call returns; the handler runs when the
next call has been written. -/
def answeredLate (i : Fin N) : List (Action N) :=
  writeRequest i echoRequest ++ [.parse 0, .answer 0 0 .ok [] [104, 105], .expire, .read i 8,
    .read i 10, .leave i, .call i echoRequest, .test i, .lock i, .write i, .fire, .timerClose]

theorem disconnects_other_call : ¬ ∀ (N requestTimeout : ℕ) (as : List (Action N)) (s : State N),
    run (step requestTimeout) initial as = some s → ∀ d ∈ s.disconnects, OwnCall d := by
  intro h
  have hrun : (run (step 3) (initial : State 1) (answeredLate 0)).map State.disconnects =
      some [(some 0, some 1), (some 0, some 1)] := by decide
  obtain ⟨s, hs, he⟩ := Option.map_eq_some_iff.mp hrun
  have hmem : (some 0, some 1) ∈ s.disconnects := by
    rw [he]
    exact List.mem_cons_self
  obtain ⟨k, hk⟩ := h 1 3 _ s hs _ hmem
  obtain ⟨hwait, hinside⟩ := Prod.mk.inj hk
  exact absurd (hwait.trans hinside.symm) (by decide)

end Czrpc.RequestTimer
