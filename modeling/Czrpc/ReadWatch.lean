import Czrpc.RequestTimer
import Czrpc.SyncSocket

/-! Whether a call of `rpc_client` can be left waiting for its response. The blocking
reads have no limit of their own: it is the timer, armed before the first read and
stopped when the call leaves, that ends them by closing the socket. -/
namespace Czrpc.ReadWatch
open Execution SyncClient RequestTimer

variable {N : ℕ} {requestTimeout : ℕ}

def waits : Pc → Bool
  | .readingHead _ _ | .readingContent _ _ _ => true
  | _ => false

/-- The timer is going to close the socket, or the socket is closed. -/
def Watched (s : SyncClient.State N) : Prop :=
  s.timer.armed = true ∨ 0 < s.timer.expired ∨ s.timer.closing = true ∨ s.socket = none

theorem waits_holds {pc : Pc} (h : waits pc = true) : holds pc = true := by
  cases pc <;> first | rfl | cases h

theorem waits_reading {pc : Pc} (h : waits pc = true) : ∃ q, pc.reading = some q := by
  cases pc <;> first | exact ⟨_, rfl⟩ | cases h

theorem waits_of_received {pc pc' : Pc} {bytes : Framing.Bytes}
    (h : pc.received bytes = some pc') : waits pc = true := by
  unfold Pc.received at h
  split at h
  · rfl
  · rfl
  · cases h

theorem waits_update {s : SyncClient.State N} {i j : Fin N} {pc : Pc}
    (hpc : waits pc = true → waits (s.threads i) = true)
    (h : waits (Function.update s.threads i pc j) = true) : waits (s.threads j) = true := by
  by_cases hji : j = i
  · subst hji
    rw [Function.update_self] at h
    exact hpc h
  · rwa [Function.update_of_ne hji] at h

theorem waits_update_out {s : SyncClient.State N} {i j : Fin N} {pc : Pc} (hpc : waits pc = false)
    (h : waits (Function.update s.threads i pc j) = true) : waits (s.threads j) = true := by
  refine waits_update (fun hw => ?_) h
  rw [hpc] at hw
  cases hw

theorem waits_before {s t : SyncClient.State N} {a : Action N}
    (h : SyncClient.step requestTimeout s a = some t) {j : Fin N}
    (hj : waits (t.threads j) = true) : waits (s.threads j) = true ∨ a = .arm j := by
  cases step_effect h with
  | @arm i q timer hi =>
    by_cases hji : j = i
    · exact Or.inr (by rw [hji])
    · change waits (Function.update s.threads i _ j) = true at hj
      rw [Function.update_of_ne hji] at hj
      exact Or.inl hj
  | connect =>
    rw [setThread, connect_threads] at hj
    exact Or.inl (waits_update_out rfl hj)
  | connectFailed | close =>
    rw [show SyncClient.State.threads _ = _ from setThread_closeSocket_threads s _ _] at hj
    exact Or.inl (waits_update_out rfl hj)
  | connectRetry | timerClose =>
    rw [show SyncClient.State.threads _ = _ from closeSocket_threads s] at hj
    exact Or.inl hj
  | read hc hn hpc => exact Or.inl (waits_update (fun _ => waits_of_received hpc) hj)
  | expire | fire | lose | parse | answer => exact Or.inl hj
  | _ => exact Or.inl (waits_update_out rfl hj)

theorem socket_closed_step {s t : SyncClient.State N} {a : Action N}
    (h : SyncClient.step requestTimeout s a = some t) (ha : ∀ i, a ≠ .connect i)
    (hs : s.socket = none) : t.socket = none := by
  cases step_effect h with
  | @connect i => exact absurd rfl (ha i)
  | connectRetry | connectFailed | close | timerClose => exact closeSocket_socket s
  | _ => exact hs

theorem Watched.keep {s t : SyncClient.State N} (hs : Watched s)
    (harmed : s.timer.armed = true → t.timer.armed = true)
    (hexpired : t.timer.expired = s.timer.expired) (hclosing : t.timer.closing = s.timer.closing)
    (hsocket : s.socket = none → t.socket = none) : Watched t := by
  unfold Watched at hs ⊢
  rw [hexpired, hclosing]
  rcases hs with ha | he | hc | hn
  · exact Or.inl (harmed ha)
  · exact Or.inr (Or.inl he)
  · exact Or.inr (Or.inr (Or.inl hc))
  · exact Or.inr (Or.inr (Or.inr (hsocket hn)))

theorem watched_step {s t : SyncClient.State N} {a : Action N}
    (h : SyncClient.step requestTimeout s a = some t) (hconnect : ∀ i, a ≠ .connect i)
    (hleave : ∀ i, a ≠ .leave i) (hs : Watched s) : Watched t := by
  obtain ⟨henabled, htimer⟩ := step_timer h
  have hclosed := socket_closed_step h hconnect
  cases a with
  | arm i =>
    refine hs.keep (fun ha => ?_) (by rw [htimer]; rfl) (by rw [htimer]; rfl) hclosed
    simp [htimer, timerAfter, ha]
  | expire => exact Or.inr (Or.inl (by rw [htimer]; exact Nat.succ_pos _))
  | fire => exact Or.inr (Or.inr (Or.inl (by rw [htimer]; rfl)))
  | timerClose =>
    cases step_effect h with
    | timerClose => exact Or.inr (Or.inr (Or.inr (closeSocket_socket s)))
  | leave i => exact absurd rfl (hleave i)
  | connect i => exact absurd rfl (hconnect i)
  | call | test | lockConn | retest | connectRetry | connectFailed | setConnected | lock | write
  | writeFailed | clear | read | readFailed | close | lose | parse | answer =>
    exact hs.keep (by rw [htimer]; exact id) (by rw [htimer]; rfl) (by rw [htimer]; rfl) hclosed

/-- Whoever waits is watched. -/
structure Inv (s : SyncClient.State N) : Prop where
  exclusive : Exclusive s
  socket : SocketInv s
  watched : ∀ i, waits (s.threads i) = true → Watched s

theorem step_inv (hpos : requestTimeout ≠ 0) {s t : SyncClient.State N} {a : Action N} (hs : Inv s)
    (hok : KeepsSocket s a) (h : SyncClient.step requestTimeout s a = some t) : Inv t := by
  refine ⟨step_exclusive hs.exclusive h, step_socket hs.socket hok h, ?_⟩
  intro j hj
  rcases waits_before h hj with hwaited | rfl
  · refine watched_step h ?_ ?_ (hs.watched j hwaited)
    · rintro i rfl
      obtain ⟨q, hq⟩ := waits_reading hwaited
      have hfree := hs.socket.notConnecting j q hq i
      cases step_effect h with
      | connect hi =>
        rw [hi] at hfree
        cases hfree
    · rintro i rfl
      have hi : holds (s.threads i) = true := (step_timer h).1
      have hsame := (hs.exclusive j (waits_holds hwaited)).symm.trans (hs.exclusive i hi)
      obtain rfl := Option.some.inj hsame
      cases step_effect h with
      | leave =>
        rw [show SyncClient.State.threads _ j = _ from Function.update_self _ _ _] at hj
        cases hj
  · refine Or.inl ?_
    rw [(step_timer h).2]
    simp [timerAfter, hpos]

theorem initial_inv : Inv (SyncClient.initial : SyncClient.State N) where
  exclusive := nofun
  socket := SocketInv.of_none fun _ => rfl
  watched := nofun

def timerStep : Action N → Bool
  | .expire | .fire | .timerClose => true
  | _ => false

/-- The timer can close the socket in a few steps of its own, and no thread moves. -/
def Ends (requestTimeout n : ℕ) (s : SyncClient.State N) : Prop :=
  ∃ bs t, bs.length ≤ n ∧ (∀ b ∈ bs, timerStep b = true) ∧
    run (SyncClient.step requestTimeout) s bs = some t ∧ t.socket = none ∧ t.threads = s.threads

theorem ends_of_closing {s : SyncClient.State N} (h : s.timer.closing = true) :
    Ends requestTimeout 1 s := by
  refine ⟨[.timerClose], { closeSocket s with timer := { s.timer with closing := false } },
    Nat.le_refl 1, by simp [timerStep], ?_, closeSocket_socket s, closeSocket_threads s⟩
  simp [run_cons, SyncClient.step, h]

theorem Ends.step {n : ℕ} {s t : SyncClient.State N} {b : Action N} (hb : timerStep b = true)
    (h : SyncClient.step requestTimeout s b = some t) (ht : t.threads = s.threads)
    (he : Ends requestTimeout n t) : Ends requestTimeout (n + 1) s := by
  obtain ⟨bs, u, hlen, hall, hrun, hsocket, hthreads⟩ := he
  refine ⟨b :: bs, u, Nat.succ_le_succ hlen, ?_, run_cons_eq_some.mpr ⟨t, h, hrun⟩, hsocket,
    hthreads.trans ht⟩
  intro c hc
  rcases List.mem_cons.mp hc with rfl | hc
  · exact hb
  · exact hall c hc

theorem Ends.mono {n m : ℕ} {s : SyncClient.State N} (h : Ends requestTimeout n s) (hnm : n ≤ m) :
    Ends requestTimeout m s := by
  obtain ⟨bs, t, hlen, hrest⟩ := h
  exact ⟨bs, t, Nat.le_trans hlen hnm, hrest⟩

theorem ends_of_expired {s : SyncClient.State N} (h : 0 < s.timer.expired) :
    Ends requestTimeout 2 s := by
  by_cases hclosing : s.timer.closing = true
  · exact (ends_of_closing hclosing).mono (by decide)
  · have hfire : SyncClient.step requestTimeout s .fire = some { s with
        isConnected := false
        timer := { s.timer with expired := s.timer.expired - 1, closing := true } } := by
      simp [SyncClient.step, h, hclosing]
    exact Ends.step rfl hfire rfl (ends_of_closing rfl)

theorem ends_of_armed {s : SyncClient.State N} (h : s.timer.armed = true) :
    Ends requestTimeout 3 s := by
  have hexpire : SyncClient.step requestTimeout s .expire = some { s with
      timer := { s.timer with armed := false, expired := s.timer.expired + 1 } } := by
    simp [SyncClient.step, h]
  exact Ends.step rfl hexpire rfl (ends_of_expired (Nat.succ_pos _))

theorem Watched.ends {s : SyncClient.State N} (h : Watched s) (requestTimeout : ℕ) :
    Ends requestTimeout 3 s := by
  rcases h with harmed | hexpired | hclosing | hsocket
  · exact ends_of_armed harmed
  · exact (ends_of_expired hexpired).mono (by decide)
  · exact (ends_of_closing hclosing).mono (by decide)
  · exact ⟨[], s, Nat.zero_le 3, by simp, rfl, hsocket, rfl⟩

/-- With a timeout other than zero, in every run that keeps to `KeepsSocket`, a call that waits
for its response never waits unwatched: in at most three steps the timer thread alone, whatever
stale waits it still has queued, closes the socket, and then the call can only fail. -/
theorem reads_watched (requestTimeout : ℕ) (hpos : requestTimeout ≠ 0) {as : List (Action N)}
    {s : SyncClient.State N}
    (hc : Conforms (SyncClient.step requestTimeout) KeepsSocket SyncClient.initial as)
    (hr : run (SyncClient.step requestTimeout) SyncClient.initial as = some s) {i : Fin N}
    (hi : waits (s.threads i) = true) :
    ∃ bs t, bs.length ≤ 3 ∧ (∀ b ∈ bs, timerStep b = true) ∧
      run (SyncClient.step requestTimeout) s bs = some t ∧ t.threads = s.threads ∧
      (∀ n, SyncClient.step requestTimeout t (.read i n) = none) ∧
      (SyncClient.step requestTimeout t (.readFailed i)).isSome = true := by
  have hinv : Inv s := conforming_invariant (fun _ _ _ => step_inv hpos) initial_inv hc hr
  obtain ⟨bs, t, hlen, hall, hrun, hsocket, hthreads⟩ := (hinv.watched i hi).ends requestTimeout
  refine ⟨bs, t, hlen, hall, hrun, hthreads, ?_, ?_⟩
  · intro n
    simp only [SyncClient.step, SyncClient.read, hsocket]
  · rw [← hthreads] at hi
    cases hpc : t.threads i <;> simp [waits, hpc] at hi <;> simp [SyncClient.step, hpc]

def silentServer : List (Action 1) :=
  let i : Fin 1 := ⟨0, Nat.one_pos⟩
  writeRequest i echoRequest ++ [.expire, .readFailed i, .clear i, .close i, .leave i] ++
    writeRequest i echoRequest

theorem reads_watched_silent : ∃ (s : SyncClient.State 1) (bs : List (Action 1))
    (t : SyncClient.State 1),
    run (SyncClient.step 3) SyncClient.initial silentServer = some s ∧ s.timer.expired = 1 ∧
    bs.length ≤ 3 ∧ run (SyncClient.step 3) s bs = some t ∧
    ∀ n, SyncClient.step 3 t (.read ⟨0, Nat.one_pos⟩ n) = none := by
  have hrun : (run (SyncClient.step 3) SyncClient.initial silentServer).map
      (fun s => (s.timer.expired, waits (s.threads ⟨0, Nat.one_pos⟩))) = some (1, true) := by
    decide +kernel
  obtain ⟨s, hs, he⟩ := Option.map_eq_some_iff.mp hrun
  obtain ⟨hexpired, hwaits⟩ := Prod.mk.inj he
  obtain ⟨bs, t, hlen, -, ht, -, hread, -⟩ :=
    reads_watched 3 (by decide) (by decide +kernel) hs hwaits
  exact ⟨s, bs, t, hs, hexpired, hlen, ht, hread⟩

/-- The timer disconnects a call before it has come to its read, and another thread connects
anew. -/
def takenOver : List (Action 2) :=
  let i : Fin 2 := ⟨0, Nat.two_pos⟩
  let j : Fin 2 := ⟨1, Nat.one_lt_two⟩
  writeRequest i echoRequest ++ [.expire, .fire, .timerClose, .call j echoRequest, .test j,
    .lockConn j, .retest j, .connect j]

/-- Without `KeepsSocket` a call can be left waiting: it reads from the new connection while no
wait is armed and no handler is queued. -/
theorem unwatched_read : ∃ s : SyncClient.State 2,
    run (SyncClient.step 3) SyncClient.initial takenOver = some s ∧
    waits (s.threads ⟨0, Nat.two_pos⟩) = true ∧ ¬ Watched s := by
  have hrun : (run (SyncClient.step 3) SyncClient.initial takenOver).map
      (fun s => (waits (s.threads ⟨0, Nat.two_pos⟩), s.timer, s.socket)) =
      some (true, ⟨false, 0, false⟩, some 1) := by decide +kernel
  obtain ⟨s, hs, he⟩ := Option.map_eq_some_iff.mp hrun
  simp only [Prod.mk.injEq] at he
  obtain ⟨hwaits, htimer, hsocket⟩ := he
  exact ⟨s, hs, hwaits, by simp [Watched, htimer, hsocket]⟩

end Czrpc.ReadWatch
