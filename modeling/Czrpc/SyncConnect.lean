import Czrpc.DoubleChecked
import Czrpc.Simulation
import Czrpc.SyncClient

/-! The connections that the threads of one `rpc_client` make. `try_connect` tests
`is_connected_` without a lock and again under `conn_mutex_`, connects and sets the flag, while
the timer and calls that fail clear it without that lock: a double-checked creation, whose
resource is the connection. -/
namespace Czrpc.SyncConnect
open Execution Simulation SyncClient

variable {N : ℕ} {requestTimeout : ℕ}

/-- Where a thread stands in `try_connect`. -/
def phase : Pc → DoubleChecked.Phase
  | .retesting _ => .testing
  | .connecting _ => .making
  | .connected _ => .made
  | _ => .outside

/-- `drops` counts how often `is_connected_` went from true to false. -/
structure Counted (N : ℕ) where
  client : State N
  drops : ℕ

def countedInitial : Counted N := ⟨initial, 0⟩

def countedStep (requestTimeout : ℕ) (s : Counted N) (a : Action N) : Option (Counted N) :=
  (step requestTimeout s.client a).map fun t =>
    ⟨t, s.drops + (s.client.isConnected && !t.isConnected).toNat⟩

def view (s : Counted N) : DoubleChecked.State (Fin N) where
  phase := phase ∘ s.client.threads
  lock := s.client.connMutex
  flag := s.client.isConnected
  count := s.client.next
  cleared := s.drops

def shows : Action N → Option (DoubleChecked.Action (Fin N))
  | .lockConn i => some (.enter i)
  | .retest i => some (.test i)
  | .connect i => some (.make i)
  | .connectFailed i => some (.abandon i)
  | .setConnected i => some (.publish i)
  | .clear _ | .fire => some .clear
  | .call _ _ | .test _ | .connectRetry _ | .lock _ | .write _ | .writeFailed _ _ | .arm _
  | .read _ _ | .readFailed _ | .close _ | .leave _ | .expire | .timerClose | .lose _ | .parse _
  | .answer _ _ _ _ _ => none

/-- The client as a double-checked creation. -/
def layer (N requestTimeout : ℕ) : Layer (Counted N) (DoubleChecked.State (Fin N)) (Action N)
    (DoubleChecked.Action (Fin N)) :=
  ⟨countedStep requestTimeout, DoubleChecked.step, shows, view, fun _ => True⟩

theorem phases_setThread (s : State N) (i : Fin N) (pc : Pc) :
    phase ∘ (setThread s i pc).threads = Function.update (phase ∘ s.threads) i (phase pc) :=
  Function.comp_update phase s.threads i pc

theorem phases_setThread_same (s : State N) {i : Fin N} {pc : Pc}
    (h : phase pc = phase (s.threads i)) :
    phase ∘ (setThread s i pc).threads = phase ∘ s.threads := by
  rw [phases_setThread, h]
  exact Function.update_eq_self i (phase ∘ s.threads)

theorem closeSocket_connMutex (s : State N) : (closeSocket s).connMutex = s.connMutex := by
  unfold closeSocket
  split <;> rfl

theorem closeSocket_isConnected (s : State N) : (closeSocket s).isConnected = s.isConnected := by
  unfold closeSocket
  split <;> rfl

theorem phase_received {pc pc' : Pc} {bytes : Framing.Bytes} (h : pc.received bytes = some pc') :
    phase pc' = phase pc := by
  unfold Pc.received at h
  split at h
  · split_ifs at h <;> obtain rfl := Option.some.inj h <;> rfl
  · split_ifs at h <;> obtain rfl := Option.some.inj h <;> rfl
  · cases h

structure Same (s t : State N) : Prop where
  phases : phase ∘ t.threads = phase ∘ s.threads
  connMutex : t.connMutex = s.connMutex
  isConnected : t.isConnected = s.isConnected
  next : t.next = s.next

theorem Same.setThread {s : State N} {i : Fin N} {pc : Pc} (h : phase pc = phase (s.threads i)) :
    Same s (setThread s i pc) :=
  ⟨phases_setThread_same s h, rfl, rfl, rfl⟩

theorem Same.closeSocket (s : State N) : Same s (closeSocket s) :=
  ⟨congrArg (phase ∘ ·) (closeSocket_threads s), closeSocket_connMutex s, closeSocket_isConnected s,
    closeSocket_next s⟩

theorem quiet_step {s t : State N} {a : Action N} (h : step requestTimeout s a = some t)
    (ha : shows a = none) : Same s t := by
  cases step_effect h with
  | lockConn | retestReady | retestConnecting | connect | connectFailed | setConnected | clearWrite
  | clearRead | fire => cases ha
  | call hi | testReady hi | testLocking hi | writeClosed hi => exact .setThread (by rw [hi]; rfl)
  | connectRetry => exact .closeSocket s
  | lock hi hm => exact ⟨phases_setThread_same s (by rw [hi]; rfl), rfl, rfl, rfl⟩
  | write hi hc | writeFailed hi hc =>
    exact ⟨phases_setThread_same s (by rw [hi]; rfl), rfl, rfl, rfl⟩
  | arm hi | leave hi => exact ⟨phases_setThread_same s (by rw [hi]; rfl), rfl, rfl, rfl⟩
  | read hc hn hpc => exact ⟨phases_setThread_same s (phase_received hpc), rfl, rfl, rfl⟩
  | readFailed hi =>
    obtain ⟨buf, hi⟩ | ⟨head, buf, hi⟩ := hi <;> exact .setThread (by rw [hi]; rfl)
  | close hi =>
    have hclosed := Same.closeSocket s
    have hmoved : Same (SyncClient.closeSocket s)
        (SyncClient.setThread (SyncClient.closeSocket s) _ (.leaving none)) :=
      .setThread (by rw [closeSocket_threads, hi]; rfl)
    exact ⟨hmoved.phases.trans hclosed.phases, hmoved.connMutex.trans hclosed.connMutex,
      hmoved.isConnected.trans hclosed.isConnected, hmoved.next.trans hclosed.next⟩
  | timerClose =>
    obtain ⟨hp, hm, hc, hn⟩ := Same.closeSocket s
    exact ⟨hp, hm, hc, hn⟩
  | expire | lose | parse | answer => exact ⟨rfl, rfl, rfl, rfl⟩

theorem view_same {s t : State N} (h : Same s t) (k : ℕ) :
    view ⟨t, k + (s.isConnected && !t.isConnected).toNat⟩ = view ⟨s, k⟩ := by
  simp [view, h.phases, h.connMutex, h.isConnected, h.next]

theorem clear_view (s : State N) {i : Fin N} {pc : Pc} (h : phase pc = phase (s.threads i)) (k : ℕ) :
    DoubleChecked.step (view ⟨s, k⟩) .clear =
      some (view ⟨{ SyncClient.setThread s i pc with isConnected := false },
        k + (s.isConnected && !false).toNat⟩) := by
  have hsame : phase ∘ Function.update s.threads i pc = phase ∘ s.threads := phases_setThread_same s h
  simp [DoubleChecked.step, view, SyncClient.setThread, hsame]

theorem tryConnect_view {s t : State N} {a : Action N} {b : DoubleChecked.Action (Fin N)}
    (h : step requestTimeout s a = some t) (hb : shows a = some b) (k : ℕ) :
    DoubleChecked.step (view ⟨s, k⟩) b =
      some (view ⟨t, k + (s.isConnected && !t.isConnected).toNat⟩) := by
  cases a with
  | lockConn i =>
    obtain rfl := Option.some.inj hb
    simp only [step] at h
    split at h
    · rename_i content hi hfree
      obtain rfl := Option.some.inj h
      simp [DoubleChecked.step, view, DoubleChecked.State.move, hi, hfree, Function.comp_update,
        phase, SyncClient.setThread]
    · cases h
  | retest i =>
    obtain rfl := Option.some.inj hb
    simp only [step] at h
    split at h
    · rename_i content hi
      obtain rfl := Option.some.inj h
      cases hc : s.isConnected <;>
        simp [DoubleChecked.step, view, DoubleChecked.State.move, DoubleChecked.State.leave, hi, hc,
          Function.comp_update, phase, SyncClient.setThread]
    · cases h
  | connect i =>
    obtain rfl := Option.some.inj hb
    cases step_effect h with
    | connect hi =>
      simp [DoubleChecked.step, view, DoubleChecked.State.move, hi, Function.comp_update, phase,
        SyncClient.setThread, SyncClient.connect, setConn, closeSocket_threads,
        closeSocket_connMutex, closeSocket_isConnected]
  | connectFailed i =>
    obtain rfl := Option.some.inj hb
    cases step_effect h with
    | connectFailed hi =>
      simp [DoubleChecked.step, view, DoubleChecked.State.move, DoubleChecked.State.leave, hi,
        Function.comp_update, phase, SyncClient.setThread, closeSocket_threads, closeSocket_next,
        closeSocket_isConnected]
  | setConnected i =>
    obtain rfl := Option.some.inj hb
    cases step_effect h with
    | setConnected hi =>
      simp [DoubleChecked.step, view, DoubleChecked.State.move, DoubleChecked.State.leave, hi,
        Function.comp_update, phase, SyncClient.setThread]
  | clear i =>
    obtain rfl := Option.some.inj hb
    cases step_effect h with
    | clearWrite hi | clearRead hi => exact clear_view s (by rw [hi]; rfl) k
  | fire =>
    obtain rfl := Option.some.inj hb
    cases step_effect h with
    | fire => simp [DoubleChecked.step, view]
  | call | test | connectRetry | lock | write | writeFailed | arm | read | readFailed | close
  | leave | expire | timerClose | lose | parse | answer => cases hb

theorem layer_sound : (layer N requestTimeout).Sound := by
  intro s a u _ h
  obtain ⟨t, ht, rfl⟩ := Option.map_eq_some_iff.mp h
  refine ⟨trivial, ?_⟩
  dsimp only [layer]
  cases hb : shows a with
  | none => simp [view_same (quiet_step ht hb)]
  | some b =>
    have hstep := tryConnect_view ht hb s.drops
    simp only [Option.toList_some, run_cons, hstep, Option.bind_some, run_nil]

/-- In every run at most one thread is past the lock of `try_connect`. While `is_connected_` is
set, or a thread has connected and is about to set it, one more connection has been made than
`is_connected_` was cleared; otherwise just as many. So threads that call at the same time share
one connection, and another one is made only after the flag has gone down again. -/
theorem connections_made (N requestTimeout : ℕ) {as : List (Action N)} {s : Counted N}
    (hr : run (countedStep requestTimeout) countedInitial as = some s) :
    (∀ i j, phase (s.client.threads i) ≠ .outside → phase (s.client.threads j) ≠ .outside →
      i = j) ∧
    (s.client.isConnected = true ∨ (∃ i content, s.client.threads i = .connected content) →
      s.client.next = s.drops + 1) ∧
    (s.client.isConnected = false → (∀ i content, s.client.threads i ≠ .connected content) →
      s.client.next = s.drops) := by
  have hview : run DoubleChecked.step DoubleChecked.initial (as.filterMap shows) = some (view s) :=
    (Layer.Sound.run layer_sound trivial hr).2
  have hinv := DoubleChecked.run_inv hview
  refine ⟨fun i j => hinv.unique, ?_, ?_⟩
  · rintro (hc | ⟨i, content, hi⟩)
    · have hnone : ∀ i, (view s).phase i ≠ .made := by
        intro i hi
        have hdown := hinv.unset i (Or.inr hi)
        exact absurd hc (by simpa [view] using hdown)
      have hcount := hinv.unmade hnone
      simpa [view, hc] using hcount
    · exact hinv.made i (congrArg phase hi)
  · intro hc hnone
    have hcount := hinv.unmade fun i hi => by
      cases hpc : s.client.threads i <;> simp [view, phase, hpc] at hi
      exact hnone i _ hpc
    simpa [view, hc] using hcount

/-- Two threads find the flag down and one of them connects. The other one has waited for
`conn_mutex_` and goes on with that connection, until its read fails and it connects anew. -/
def sharedConnection : List (Action 2) :=
  let first : Fin 2 := ⟨0, Nat.two_pos⟩
  let second : Fin 2 := ⟨1, Nat.one_lt_two⟩
  [.call first echoRequest, .call second echoRequest, .test first, .test second, .lockConn first,
    .retest first, .connect first, .setConnected first, .lockConn second, .retest second,
    .lock second, .write second, .arm second, .readFailed second, .clear second, .close second,
    .leave second, .call second echoRequest, .test second, .lockConn second, .retest second,
    .connect second]

theorem connections_made_shared : ∃ s : Counted 2,
    run (countedStep 10) countedInitial sharedConnection = some s ∧ s.drops = 1 ∧
    s.client.next = 2 := by
  have hrun : (run (countedStep 10) countedInitial sharedConnection).map
      (fun s => (s.drops, s.client.threads ⟨1, Nat.one_lt_two⟩)) = some (1, .connected echoRequest) := by
    decide +kernel
  obtain ⟨s, hs, he⟩ := Option.map_eq_some_iff.mp hrun
  obtain ⟨hdrops, hsecond⟩ := Prod.mk.inj he
  have hmade := (connections_made 2 10 hs).2.1 (Or.inr ⟨_, _, hsecond⟩)
  exact ⟨s, hs, hdrops, by rw [hmade, hdrops]⟩

end Czrpc.SyncConnect
