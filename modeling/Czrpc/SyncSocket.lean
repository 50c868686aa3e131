import Czrpc.SyncClient

/-! Where a call of the shared `rpc_client` reads: `sync_connect` runs outside the call
mutex, so another thread may connect anew while a call waits for its response. -/
namespace Czrpc.SyncClient
open Execution Framing Protocol

variable {N : ℕ}

def Pc.reading : Pc → Option Sent
  | .arming q | .readingHead q _ | .readingContent q _ _ => some q
  | _ => none

def Pc.isConnecting : Pc → Bool
  | .connecting _ => true
  | _ => false

/-- No thread finds `is_connected_` unset under `conn_mutex_` while a call is between
its write and its last read, and no call writes while a thread is in `connect()`. -/
def KeepsSocket (s : State N) : Action N → Prop
  | .retest _ => s.isConnected = true ∨ ∀ i, (s.threads i).reading = none
  | .write _ => ∀ i, (s.threads i).isConnecting = false
  | _ => True

structure SocketInv (s : State N) : Prop where
  sameConn : ∀ i q, (s.threads i).reading = some q → ∀ c, s.socket = some c → c = q.conn
  notConnecting : ∀ i q, (s.threads i).reading = some q → ∀ j, (s.threads j).isConnecting = false

theorem SocketInv.move {s t : State N} (hs : SocketInv s) {i : Fin N} {pc : Pc}
    (ht : t.threads = Function.update s.threads i pc)
    (hread : ∀ q, pc.reading = some q → (s.threads i).reading = some q)
    (hconn : pc.isConnecting = false) (hsock : ∀ c, t.socket = some c → s.socket = some c) :
    SocketInv t := by
  have hback : ∀ j q, (t.threads j).reading = some q → (s.threads j).reading = some q := by
    intro j q hq
    rw [ht] at hq
    by_cases hji : j = i
    · subst j
      rw [Function.update_self] at hq
      exact hread q hq
    · rwa [Function.update_of_ne hji] at hq
  constructor
  · intro j q hq c hc
    exact hs.sameConn j q (hback j q hq) c (hsock c hc)
  · intro j q hq k
    have hk := hs.notConnecting j q (hback j q hq) k
    rw [ht]
    by_cases hki : k = i
    · subst k
      rw [Function.update_self]
      exact hconn
    · rwa [Function.update_of_ne hki]

theorem SocketInv.moveOut {s t : State N} (hs : SocketInv s) {i : Fin N} {pc : Pc}
    (ht : t.threads = Function.update s.threads i pc) (hread : pc.reading = none)
    (hconn : pc.isConnecting = false) (hsock : ∀ c, t.socket = some c → s.socket = some c) :
    SocketInv t := by
  refine hs.move ht (fun q hq => ?_) hconn hsock
  rw [hread] at hq
  cases hq

theorem SocketInv.keep {s t : State N} (hs : SocketInv s) (ht : t.threads = s.threads)
    (hsock : ∀ c, t.socket = some c → s.socket = some c) : SocketInv t where
  sameConn i q hq c hc := hs.sameConn i q (ht ▸ hq) c (hsock c hc)
  notConnecting i q hq := ht ▸ hs.notConnecting i q (ht ▸ hq)

theorem SocketInv.of_none {s : State N} (h : ∀ i, (s.threads i).reading = none) : SocketInv s where
  sameConn i q hq := by
    rw [h i] at hq
    cases hq
  notConnecting i q hq := by
    rw [h i] at hq
    cases hq

theorem reading_received {pc pc' : Pc} {bytes : Bytes} (h : pc.received bytes = some pc') {q : Sent}
    (hq : pc'.reading = some q) : pc.reading = some q := by
  unfold Pc.received at h
  split at h
  · split_ifs at h <;> obtain rfl := Option.some.inj h <;> exact hq
  · split_ifs at h <;> obtain rfl := Option.some.inj h
    · exact hq
    · cases hq
  · cases h

theorem isConnecting_received {pc pc' : Pc} {bytes : Bytes} (h : pc.received bytes = some pc') :
    pc'.isConnecting = false := by
  unfold Pc.received at h
  split at h
  · split_ifs at h <;> obtain rfl := Option.some.inj h <;> rfl
  · split_ifs at h <;> obtain rfl := Option.some.inj h <;> rfl
  · cases h

theorem step_socket {requestTimeout : ℕ} {s t : State N} {a : Action N} (hs : SocketInv s)
    (hok : KeepsSocket s a) (h : step requestTimeout s a = some t) : SocketInv t := by
  have hclosed : ∀ c, (closeSocket s).socket = some c → s.socket = some c := by
    intro c hc
    rw [closeSocket_socket] at hc
    cases hc
  cases step_effect h with
  | call hi => exact hs.moveOut rfl rfl rfl fun _ hc => hc
  | testReady hi => exact hs.moveOut rfl rfl rfl fun _ hc => hc
  | testLocking hi => exact hs.moveOut rfl rfl rfl fun _ hc => hc
  | lockConn hi => exact hs.moveOut rfl rfl rfl fun _ hc => hc
  | retestReady hi => exact hs.moveOut rfl rfl rfl fun _ hc => hc
  | @retestConnecting i content hi hc =>
    -- the one place where `connect` is entered: by `KeepsSocket` no call is reading
    have hnone : ∀ j, (s.threads j).reading = none := hok.resolve_left (by simp [hc])
    refine SocketInv.of_none fun j => ?_
    by_cases hji : j = i
    · subst j
      rw [setThread_self]
      rfl
    · rw [setThread_of_ne _ hji]
      exact hnone j
  | @connect i content hi =>
    refine SocketInv.of_none fun j => ?_
    by_cases hji : j = i
    · subst j
      rw [setThread_self]
      rfl
    · rw [setThread_of_ne _ hji, connect_threads]
      cases hq : (s.threads j).reading with
      | none => rfl
      | some q =>
        have := hs.notConnecting j q hq i
        rw [hi] at this
        cases this
  | connectRetry => exact hs.keep (closeSocket_threads s) hclosed
  | connectFailed hi =>
    exact hs.moveOut (setThread_closeSocket_threads s _ _) rfl rfl hclosed
  | setConnected hi => exact hs.moveOut rfl rfl rfl fun _ hc => hc
  | lock hi hm => exact hs.moveOut rfl rfl rfl fun _ hc => hc
  | @write i content c hi hc =>
    constructor
    · intro j q hq d hd
      obtain rfl : c = d := Option.some.inj (hc.symm.trans hd)
      by_cases hji : j = i
      · subst j
        rw [setThread_self] at hq
        obtain rfl := Option.some.inj hq
        rfl
      · rw [setThread_of_ne _ hji, setConn_threads] at hq
        exact hs.sameConn j q hq c hc
    · intro j q hq k
      by_cases hki : k = i
      · subst k
        rw [setThread_self]
        rfl
      · rw [setThread_of_ne _ hki]
        exact hok k
  | writeFailed hi hc => exact hs.moveOut rfl rfl rfl fun _ hc => hc
  | writeClosed hi => exact hs.moveOut rfl rfl rfl fun _ hc => hc
  | clearWrite hi => exact hs.moveOut rfl rfl rfl fun _ hc => hc
  | clearRead hi => exact hs.moveOut rfl rfl rfl fun _ hc => hc
  | arm hi => exact hs.move rfl (fun q hq => by rw [hi]; exact hq) rfl (fun c hc => hc)
  | read hc hn hpc =>
    exact hs.move rfl (fun q hq => reading_received hpc hq) (isConnecting_received hpc)
      (fun c hc => hc)
  | readFailed hi => exact hs.moveOut rfl rfl rfl fun _ hc => hc
  | close hi =>
    exact hs.moveOut (setThread_closeSocket_threads s _ _) rfl rfl hclosed
  | leave hi => exact hs.moveOut rfl rfl rfl fun _ hc => hc
  | expire => exact hs.keep rfl (fun c hc => hc)
  | fire => exact hs.keep rfl (fun c hc => hc)
  | timerClose => exact hs.keep (closeSocket_threads s) hclosed
  | lose => exact hs.keep rfl (fun c hc => hc)
  | parse hf => exact hs.keep rfl (fun c hc => hc)
  | answer ha => exact hs.keep rfl (fun c hc => hc)

/-- In every run that keeps to `KeepsSocket`, the socket is connected to nothing but
the connection that a call has written to, until the call has made its last read. -/
theorem reads_where_it_wrote (requestTimeout : ℕ) {as : List (Action N)} {s : State N}
    (hc : Conforms (step requestTimeout) KeepsSocket initial as)
    (hr : run (step requestTimeout) initial as = some s) {i : Fin N} {q : Sent}
    (hq : (s.threads i).reading = some q) {c : ℕ} (hsock : s.socket = some c) : c = q.conn := by
  have hinv : SocketInv s := conforming_invariant (fun _ _ _ => step_socket)
    (SocketInv.of_none fun _ => rfl) hc hr
  exact hinv.sameConn i q hq c hsock

instance (s : State N) : (a : Action N) → Decidable (KeepsSocket s a)
  | .retest _ => inferInstanceAs (Decidable (s.isConnected = true ∨
      ∀ i, (s.threads i).reading = none))
  | .write _ => inferInstanceAs (Decidable (∀ i, (s.threads i).isConnecting = false))
  | .call _ _ | .test _ | .lockConn _ | .connect _ | .connectRetry _ | .connectFailed _
  | .setConnected _ | .lock _ | .writeFailed _ _ | .clear _ | .arm _ | .read _ _ | .readFailed _
  | .close _ | .leave _ | .expire | .fire | .timerClose | .lose _ | .parse _ | .answer _ _ _ _ _ =>
    .isTrue trivial

theorem reads_where_it_wrote_alone :
    ∃ s : State 2, run (step 3) initial (writeRequest 0 echoRequest ++ [.call 1 echoRequest, .test 1,
        .expire, .fire]) = some s ∧ s.socket = some 0 ∧
      ∃ q, (s.threads 0).reading = some q ∧ 0 = q.conn := by
  have hrun : (run (step 3) (initial : State 2) (writeRequest 0 echoRequest ++
      [.call 1 echoRequest, .test 1, .expire, .fire])).map (fun s => ((s.threads 0).reading, s.socket)) =
      some (some ⟨0, 0, echoRequest⟩, some 0) := by decide
  obtain ⟨s, hs, he⟩ := Option.map_eq_some_iff.mp hrun
  obtain ⟨hq, hsock⟩ := Prod.mk.inj he
  exact ⟨s, hs, hsock, _, hq, reads_where_it_wrote 3 (by decide) hs hq hsock⟩

/-- The timer disconnects a call that waits for its response, and another thread
connects anew; the call reads on from a connection that never saw its request. -/
theorem reads_elsewhere : ¬ ∀ (N requestTimeout : ℕ) (as : List (Action N)) (s : State N),
    run (step requestTimeout) initial as = some s → ∀ i q, (s.threads i).reading = some q →
      ∀ c, s.socket = some c → c = q.conn := by
  intro h
  have hrun : (run (step 3) (initial : State 2) (writeRequest 0 echoRequest ++ [.expire, .fire,
      .timerClose, .call 1 echoRequest, .test 1, .lockConn 1, .retest 1, .connect 1])).map
      (fun s => ((s.threads 0).reading, s.socket)) =
      some (some ⟨0, 0, echoRequest⟩, some 1) := by decide
  obtain ⟨s, hs, he⟩ := Option.map_eq_some_iff.mp hrun
  obtain ⟨hq, hsock⟩ := Prod.mk.inj he
  exact absurd (h 2 3 _ s hs 0 _ hq 1 hsock) (by decide)

end Czrpc.SyncClient
