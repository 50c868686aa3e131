import Czrpc.Completion
import Czrpc.IoChain
import Czrpc.SendQueue

/-! The client `async_rpc_client` as a whole: callers on any thread, the io
thread with its read and connect chain, its send queue and `route`, and the
timer thread. An action is one step of one thread between two accesses to what
the threads share. -/
namespace Czrpc.AsyncClient
open Execution Protocol

structure Config where
  isResend : Bool
  requestTimeout : ℤ
  deriving DecidableEq, Repr

/-- An `rpc_task` object. Its `result` registers a call and then writes the
request; `bound` is a call that is registered and not yet written. -/
structure RpcTask where
  callId : UInt32
  bound : Option ℕ
  deriving DecidableEq, Repr

/-- The send queue holds the requests by the registered call each belongs to. -/
structure State where
  chain : IoChain.State
  calls : PendingCalls.State
  send : SendQueue.State ℕ
  callId : UInt32
  tasks : List RpcTask
  deriving DecidableEq

def initial : State := ⟨IoChain.initial, PendingCalls.initial, SendQueue.initial, 0, []⟩

inductive Action
  | run
  | asyncCall
  | addBindFunc (j : ℕ) (now : ℤ)
  | asyncWrite (j : ℕ)
  | route
  | checkRequestTimeout (now : ℤ) (uninitialized : UInt32 → UInt32)
  | complete (c : IoChain.Completion ResponseContent)
  | runPosted
  | writeDone (i : ℕ) (ec : Bool)

def handleEvent (calls : PendingCalls.State) : IoChain.Event ResponseContent → PendingCalls.State
  | .none => calls
  | .frame content => { calls with route := .entered content }
  | .started => PendingCalls.start calls

/-- `run` connects and starts once. The io thread runs a handler only when it is
not inside `route`, which is part of the handler of a content read. -/
def step (cfg : Config) (s : State) : Action → Option State
  | .run =>
    if s.chain = IoChain.initial ∧ s.calls.route = .idle then
      some { s with chain := IoChain.connected, calls := PendingCalls.start s.calls }
    else none
  | .asyncCall => some { s with callId := s.callId + 1, tasks := s.tasks ++ [⟨s.callId + 1, none⟩] }
  | .addBindFunc j now =>
    match s.tasks[j]? with
    | some ⟨callId, none⟩ =>
      some { s with
        calls := PendingCalls.addBindFunc s.calls callId now
        tasks := s.tasks.set j ⟨callId, some s.calls.registered.length⟩ }
    | _ => none
  -- `rpc_task::result` posts the request once its callback is registered
  | .asyncWrite j =>
    match s.tasks[j]? with
    | some ⟨callId, some r⟩ =>
      some { s with send := SendQueue.post s.send r, tasks := s.tasks.set j ⟨callId, none⟩ }
    | _ => none
  | .route => (PendingCalls.routeStep s.calls).map fun calls => { s with calls := calls }
  | .checkRequestTimeout now uninitialized =>
    some { s with
      calls := PendingCalls.checkRequestTimeout cfg.requestTimeout now uninitialized s.calls }
  -- a handler of the io thread; until it is out of `route` no other one runs
  | .complete c =>
    if s.calls.route = .idle then
      (IoChain.step s.chain c).map fun r =>
        { s with chain := r.1, calls := handleEvent s.calls r.2 }
    else none
  | .runPosted =>
    if s.calls.route = .idle then
      (SendQueue.runPosted s.send).map fun send => { s with send := send }
    else none
  | .writeDone i ec =>
    if s.calls.route = .idle then
      (SendQueue.complete s.send cfg.isResend i ec).map fun send =>
        { s with
          send := send
          chain := { s.chain with isConnected := s.chain.isConnected && !ec } }
    else none

inductive Effect (cfg : Config) (s : State) : Action → State → Prop
  | run (hc : s.chain = IoChain.initial) (hr : s.calls.route = .idle) :
      Effect cfg s .run { s with chain := IoChain.connected, calls := PendingCalls.start s.calls }
  | asyncCall :
      Effect cfg s .asyncCall
        { s with callId := s.callId + 1, tasks := s.tasks ++ [⟨s.callId + 1, none⟩] }
  | addBindFunc {j : ℕ} {now : ℤ} {callId : UInt32} (ht : s.tasks[j]? = some ⟨callId, none⟩) :
      Effect cfg s (.addBindFunc j now) { s with
        calls := PendingCalls.addBindFunc s.calls callId now
        tasks := s.tasks.set j ⟨callId, some s.calls.registered.length⟩ }
  | asyncWrite {j : ℕ} {callId : UInt32} {r : ℕ} (ht : s.tasks[j]? = some ⟨callId, some r⟩) :
      Effect cfg s (.asyncWrite j) { s with
        send := SendQueue.post s.send r
        tasks := s.tasks.set j ⟨callId, none⟩ }
  | route {calls : PendingCalls.State} (hc : PendingCalls.routeStep s.calls = some calls) :
      Effect cfg s .route { s with calls := calls }
  | checkRequestTimeout {now : ℤ} {uninitialized : UInt32 → UInt32} :
      Effect cfg s (.checkRequestTimeout now uninitialized) { s with
        calls := PendingCalls.checkRequestTimeout cfg.requestTimeout now uninitialized s.calls }
  | complete {c : IoChain.Completion ResponseContent} {chain : IoChain.State}
      {event : IoChain.Event ResponseContent} (hr : s.calls.route = .idle)
      (hc : IoChain.step s.chain c = some (chain, event)) :
      Effect cfg s (.complete c) { s with chain := chain, calls := handleEvent s.calls event }
  | runPosted {send : SendQueue.State ℕ} (hr : s.calls.route = .idle)
      (hp : SendQueue.runPosted s.send = some send) : Effect cfg s .runPosted { s with send := send }
  | writeDone {i : ℕ} {ec : Bool} {send : SendQueue.State ℕ} (hr : s.calls.route = .idle)
      (hp : SendQueue.complete s.send cfg.isResend i ec = some send) :
      Effect cfg s (.writeDone i ec) { s with
        send := send
        chain := { s.chain with isConnected := s.chain.isConnected && !ec } }

theorem step_effect {cfg : Config} {s t : State} {a : Action} (h : step cfg s a = some t) :
    Effect cfg s a t := by
  cases a with
  | run =>
    simp only [step] at h
    split_ifs at h with hr
    obtain rfl := Option.some.inj h
    exact .run hr.1 hr.2
  | asyncCall =>
    obtain rfl := Option.some.inj h
    exact .asyncCall
  | addBindFunc j now =>
    simp only [step] at h
    split at h
    · rename_i callId ht
      obtain rfl := Option.some.inj h
      exact .addBindFunc ht
    · cases h
  | asyncWrite j =>
    simp only [step] at h
    split at h
    · rename_i callId r ht
      obtain rfl := Option.some.inj h
      exact .asyncWrite ht
    · cases h
  | route =>
    obtain ⟨calls, hc, rfl⟩ := Option.map_eq_some_iff.mp h
    exact .route hc
  | checkRequestTimeout now uninitialized =>
    obtain rfl := Option.some.inj h
    exact .checkRequestTimeout
  | complete c =>
    simp only [step] at h
    split_ifs at h with hr
    obtain ⟨⟨chain, event⟩, hc, rfl⟩ := Option.map_eq_some_iff.mp h
    exact .complete hr hc
  | runPosted =>
    simp only [step] at h
    split_ifs at h with hr
    obtain ⟨send, hp, rfl⟩ := Option.map_eq_some_iff.mp h
    exact .runPosted hr hp
  | writeDone i ec =>
    simp only [step] at h
    split_ifs at h with hr
    obtain ⟨send, hp, rfl⟩ := Option.map_eq_some_iff.mp h
    exact .writeDone hr hp

inductive CallsAction (s : State) : Action → PendingCalls.Action → Prop
  | run : CallsAction s .run .start
  | addBindFunc {j : ℕ} {now : ℤ} {task : RpcTask} (h : s.tasks[j]? = some task) :
      CallsAction s (.addBindFunc j now) (.addBindFunc task.callId now)
  | route : CallsAction s .route .route
  | checkRequestTimeout {now : ℤ} {uninitialized : UInt32 → UInt32} :
      CallsAction s (.checkRequestTimeout now uninitialized) (.checkRequestTimeout now uninitialized)
  | frame {i : ℕ} {ec : Bool} {content : ResponseContent} :
      CallsAction s (.complete (.content i ec content)) (.frame content)
  | started {i : ℕ} : CallsAction s (.complete (.connect i .ok)) .start

theorem step_calls {cfg : Config} {s t : State} {a : Action} (h : step cfg s a = some t) :
    t.calls = s.calls ∨ ∃ b, CallsAction s a b ∧
      PendingCalls.step cfg.requestTimeout s.calls b = some t.calls := by
  cases step_effect h with
  | run hc hr => exact Or.inr ⟨.start, .run, by simp [PendingCalls.step, hr]⟩
  | asyncCall | asyncWrite | runPosted | writeDone => exact Or.inl rfl
  | addBindFunc ht => exact Or.inr ⟨_, .addBindFunc ht, rfl⟩
  | route hc => exact Or.inr ⟨.route, .route, hc⟩
  | checkRequestTimeout => exact Or.inr ⟨_, .checkRequestTimeout, rfl⟩
  | complete hr hc =>
    obtain ⟨i, ec, op, rfl, -, -, -, -, rfl⟩ | ⟨i, ec, content, op, rfl, -, -, -, he⟩ |
      ⟨i, result, aborted, rfl, -, -, he⟩ := IoChain.step_cases hc
    · exact Or.inl rfl
    · have hev := congrArg Prod.snd he
      simp only [IoChain.contentHandler] at hev
      split_ifs at hev <;> subst hev
      · exact Or.inl rfl
      · exact Or.inl rfl
      · exact Or.inr ⟨_, .frame, by simp [PendingCalls.step, handleEvent, hr]⟩
    · have hev := congrArg Prod.snd he
      cases result <;> simp only [IoChain.connectHandler] at hev <;> subst hev
      · exact Or.inr ⟨_, .started, by simp [PendingCalls.step, handleEvent, hr]⟩
      · exact Or.inl rfl
      · exact Or.inl rfl

theorem step_route {cfg : Config} {s t : State} {a : Action} (hs : PendingCalls.RouteInv s.calls)
    (h : step cfg s a = some t) : PendingCalls.RouteInv t.calls := by
  rcases step_calls h with he | ⟨b, -, hstep⟩
  · rwa [he]
  · exact PendingCalls.step_route hs hstep

/-- No sweep expires an entry between `route`'s find and its erase. -/
def SweepSpares (cfg : Config) (s : State) : Action → Prop
  | .checkRequestTimeout now uninitialized => PendingCalls.SweepSpares cfg.requestTimeout s.calls
      (.checkRequestTimeout now uninitialized)
  | _ => True

def OnceInv (s : State) : Prop := PendingCalls.RouteInv s.calls ∧ PendingCalls.OnceInv s.calls

theorem step_once {cfg : Config} {s t : State} {a : Action} (hs : OnceInv s)
    (hok : SweepSpares cfg s a) (h : step cfg s a = some t) : OnceInv t := by
  refine ⟨step_route hs.1 h, ?_⟩
  rcases step_calls h with he | ⟨b, hb, hstep⟩
  · exact he ▸ hs.2
  · refine PendingCalls.step_once hs.1 hs.2 ?_ hstep
    cases hb <;> exact hok

/-- In every run whose sweeps spare the entry that `route` has found and not yet
erased, the task of each registered call is queued at most once. -/
theorem queued_at_most_once (cfg : Config) {as : List Action} {s : State}
    (hc : Conforms (step cfg) (SweepSpares cfg) initial as)
    (hr : run (step cfg) initial as = some s) (r : ℕ) : s.calls.queuedTasks.count r ≤ 1 := by
  have hinv : OnceInv s := conforming_invariant (fun _ _ _ => step_once)
    ⟨PendingCalls.initial_route, PendingCalls.initial_once⟩ hc hr
  exact List.nodup_iff_count_le_one.mp hinv.2.once r

def racingRun (sweep : Action) : List Action :=
  [.run, .asyncCall, .addBindFunc 0 0, .asyncWrite 0, .runPosted, .writeDone 0 false,
    .complete (.head 0 false), .complete (.content 0 false ⟨1, .ok, [], [104, 105]⟩),
    .route, sweep, .route, .route]

instance (cfg : Config) (s : State) : (a : Action) → Decidable (SweepSpares cfg s a)
  | .checkRequestTimeout now uninitialized => inferInstanceAs (Decidable
      (PendingCalls.SweepSpares cfg.requestTimeout s.calls (.checkRequestTimeout now uninitialized)))
  | .run | .asyncCall | .addBindFunc _ _ | .asyncWrite _ | .route | .complete _ | .runPosted
  | .writeDone _ _ => .isTrue trivial

theorem queued_at_most_once_in_time :
    ∃ s, run (step ⟨false, 10⟩) initial (racingRun (.checkRequestTimeout 9 id)) = some s ∧
      s.calls.queuedTasks.count 0 ≤ 1 := by
  have hsome : (run (step ⟨false, 10⟩) initial
      (racingRun (.checkRequestTimeout 9 id))).isSome = true := by decide
  obtain ⟨s, hs⟩ := Option.isSome_iff_exists.mp hsome
  exact ⟨s, hs, queued_at_most_once ⟨false, 10⟩ (by decide) hs 0⟩

/-- A sweep ten seconds after the call expires it and `route` queues it again. -/
theorem queued_twice : ¬ ∀ (cfg : Config) (as : List Action) (s : State),
    run (step cfg) initial as = some s → ∀ r, s.calls.queuedTasks.count r ≤ 1 := by
  intro h
  have hrun : (run (step ⟨false, 10⟩) initial (racingRun (.checkRequestTimeout 10 id))).map
      (fun s => s.calls.queuedTasks) = some [0, 0] := by decide
  obtain ⟨s, hs, hq⟩ := Option.map_eq_some_iff.mp hrun
  have := h _ _ _ hs 0
  rw [hq] at this
  exact absurd this (by decide)

structure SendInv (s : State) : Prop where
  bound : ∀ task ∈ s.tasks, ∀ r ∈ task.bound, r < s.calls.registered.length
  waiting : ∀ r ∈ s.send.waiting, r < s.calls.registered.length

theorem step_registered {cfg : Config} {s t : State} {a : Action} (h : step cfg s a = some t) :
    s.calls.registered.length ≤ t.calls.registered.length := by
  rcases step_calls h with he | ⟨b, -, hstep⟩
  · exact Nat.le_of_eq (by rw [he])
  · exact (PendingCalls.step_registered hstep).length_le

theorem SendInv.mono {s t : State} (hs : SendInv s) (ht : t.tasks = s.tasks)
    (hw : t.send.waiting ⊆ s.send.waiting)
    (hr : s.calls.registered.length ≤ t.calls.registered.length) : SendInv t where
  bound task hm r hb := Nat.lt_of_lt_of_le (hs.bound task (ht ▸ hm) r hb) hr
  waiting r hm := Nat.lt_of_lt_of_le (hs.waiting r (hw hm)) hr

theorem step_send {cfg : Config} {s t : State} {a : Action} (hs : SendInv s)
    (h : step cfg s a = some t) : SendInv t := by
  have hle := step_registered h
  cases step_effect h with
  | run | route | checkRequestTimeout | complete => exact hs.mono rfl (List.Subset.refl _) hle
  | asyncCall =>
    refine ⟨?_, hs.waiting⟩
    intro task hm r hb
    rcases List.mem_append.mp hm with hm | hm
    · exact hs.bound task hm r hb
    · rw [List.mem_singleton.mp hm] at hb
      cases hb
  | addBindFunc ht =>
    refine ⟨?_, fun r hm => Nat.lt_of_lt_of_le (hs.waiting r hm) hle⟩
    intro task hm r hb
    rcases List.mem_or_eq_of_mem_set hm with hm | rfl
    · exact Nat.lt_of_lt_of_le (hs.bound task hm r hb) hle
    · obtain rfl := Option.some.inj hb
      simp [PendingCalls.addBindFunc]
  | @asyncWrite j callId r ht =>
    refine ⟨?_, ?_⟩
    · intro task hm r' hb
      rcases List.mem_or_eq_of_mem_set hm with hm | rfl
      · exact hs.bound task hm r' hb
      · cases hb
    · intro r' hm
      rw [SendQueue.waiting_post] at hm
      rcases List.mem_append.mp hm with hm | hm
      · exact hs.waiting r' hm
      · rw [List.mem_singleton.mp hm]
        exact hs.bound _ (List.mem_of_getElem? ht) r rfl
  | runPosted hr hp =>
    refine hs.mono rfl ?_ hle
    rw [SendQueue.waiting_runPosted hp]
    exact List.Subset.refl _
  | writeDone hr hp => exact hs.mono rfl (SendQueue.waiting_complete hp).subset hle

/-- A call is registered under an id that is neither pending nor being routed,
and `start` finds nothing pending. -/
def KeepsPending (s : State) : Action → Prop
  | .run => s.calls.taskMap.entries = []
  | .complete (.connect _ .ok) => s.calls.taskMap.entries = []
  | .addBindFunc j now => ∀ task ∈ s.tasks[j]?,
      PendingCalls.KeepsPending s.calls (.addBindFunc task.callId now)
  | _ => True

structure NoLossInv (s : State) : Prop where
  calls : PendingCalls.NoLossInv s.calls
  route : PendingCalls.RouteInv s.calls
  send : SendInv s

theorem initial_noLoss : NoLossInv initial where
  calls := PendingCalls.initial_noLoss
  route := PendingCalls.initial_route
  send := ⟨by simp [initial], by simp [initial, SendQueue.initial, SendQueue.State.waiting]⟩

theorem step_noLoss {cfg : Config} {s t : State} {a : Action} (hs : NoLossInv s)
    (hok : KeepsPending s a) (h : step cfg s a = some t) : NoLossInv t := by
  refine ⟨?_, step_route hs.route h, step_send hs.send h⟩
  rcases step_calls h with he | ⟨b, hb, hstep⟩
  · exact he ▸ hs.calls
  · refine PendingCalls.step_noLoss hs.calls ?_ hstep
    cases hb with
    | run => exact hok
    | addBindFunc ht => exact hok _ ht
    | route => exact hok
    | checkRequestTimeout => exact hok
    | frame => exact hok
    | started => exact hok

/-- In every run that starts connections with nothing pending and registers calls
under free ids, every registered call is in the table or queued, or `route` has
just erased it and queues it next; what is queued is a response with the call's
id or a timeout; and the requests still waiting to be sent are among them. -/
theorem registered_calls_accounted (cfg : Config) {as : List Action} {s : State}
    (hc : Conforms (step cfg) KeepsPending initial as)
    (hr : run (step cfg) initial as = some s) :
    (∀ r < s.calls.registered.length, PendingCalls.Accounted s.calls r) ∧
    (s.calls.route = .idle → ∀ r < s.calls.registered.length,
      PendingCalls.Pending s.calls r ∨ r ∈ s.calls.queuedTasks) ∧
    (∀ q ∈ s.calls.queued, ∃ callId, s.calls.registered[q.1]? = some callId ∧
      (q.2.callId = callId ∨ ∃ uninitialized, q.2 = PendingCalls.timeoutContent uninitialized)) ∧
    ∀ r ∈ s.send.waiting, PendingCalls.Accounted s.calls r := by
  have hinv : NoLossInv s := conforming_invariant (fun _ _ _ => step_noLoss) initial_noLoss hc hr
  refine ⟨hinv.calls.accounted, ?_, hinv.route.answered, ?_⟩
  · intro hidle r hl
    rcases hinv.calls.accounted r hl with hp | hq | ⟨content, he⟩
    · exact Or.inl hp
    · exact Or.inr hq
    · rw [hidle] at he
      cases he
  · intro r hw
    exact hinv.calls.accounted r (hinv.send.waiting r hw)

instance (s : State) : (a : Action) → Decidable (KeepsPending s a)
  | .run => inferInstanceAs (Decidable (s.calls.taskMap.entries = []))
  | .complete (.connect _ .ok) => inferInstanceAs (Decidable (s.calls.taskMap.entries = []))
  | .addBindFunc j now => inferInstanceAs (Decidable (∀ task ∈ s.tasks[j]?,
      PendingCalls.KeepsPending s.calls (.addBindFunc task.callId now)))
  | .complete (.head _ _) | .complete (.content _ _ _) | .complete (.connect _ .alreadyConnected)
  | .complete (.connect _ .failed) => .isTrue trivial
  | .asyncCall | .asyncWrite _ | .route | .checkRequestTimeout _ _ | .runPosted
  | .writeDone _ _ => .isTrue trivial

theorem answered_call_accounted :
    ∃ s, run (step ⟨true, 10⟩) initial (racingRun (.checkRequestTimeout 9 id) ++
        [.complete (.head 0 true), .complete (.connect 0 .ok)]) = some s ∧
      PendingCalls.Accounted s.calls 0 := by
  have hsome : (run (step ⟨true, 10⟩) initial (racingRun (.checkRequestTimeout 9 id) ++
      [.complete (.head 0 true), .complete (.connect 0 .ok)])).map
        (fun s => s.calls.registered.length) = some 1 := by decide
  obtain ⟨s, hs, hl⟩ := Option.map_eq_some_iff.mp hsome
  exact ⟨s, hs, (registered_calls_accounted ⟨true, 10⟩ (by decide) hs).1 0 (by omega)⟩

/-- With resend on, a request whose write fails waits in the queue for the next
connection, but the start of that connection has dropped its callback. -/
theorem resent_call_lost : ¬ ∀ (cfg : Config) (as : List Action) (s : State),
    run (step cfg) initial as = some s → s.calls.route = .idle →
      ∀ r < s.calls.registered.length,
        PendingCalls.Pending s.calls r ∨ r ∈ s.calls.queuedTasks := by
  intro h
  have hrun : (run (step ⟨true, 10⟩) initial [.run, .asyncCall, .addBindFunc 0 0, .asyncWrite 0,
      .runPosted, .writeDone 0 true, .complete (.head 0 true), .complete (.connect 0 .ok)]).map
      (fun s => (s.calls, s.send.queue)) = some (⟨.empty, [1], [], .idle⟩, [0]) := by decide
  obtain ⟨s, hs, he⟩ := Option.map_eq_some_iff.mp hrun
  obtain ⟨hcalls, -⟩ := Prod.mk.inj he
  have hlost := h _ _ _ hs (by rw [hcalls]) 0 (by rw [hcalls]; decide)
  rw [hcalls] at hlost
  simp [PendingCalls.Pending, PendingCalls.State.queuedTasks, UnorderedMap.empty] at hlost

def ContentOk (_ : State) : Action → Prop
  | .complete c => IoChain.ContentOk c
  | _ => True

instance (s : State) : (a : Action) → Decidable (ContentOk s a)
  | .complete c => inferInstanceAs (Decidable (IoChain.ContentOk c))
  | .run | .asyncCall | .addBindFunc _ _ | .asyncWrite _ | .route | .checkRequestTimeout _ _
  | .runPosted | .writeDone _ _ => .isTrue trivial

theorem step_chain {cfg : Config} {s t : State} {a : Action} (hok : ContentOk s a)
    (h : step cfg s a = some t) :
    IoChain.Moves (φ := ResponseContent) IoChain.ContentOk s.chain t.chain := by
  cases step_effect h with
  | run hc hr => exact .started
  | asyncCall | addBindFunc | asyncWrite | route | checkRequestTimeout | runPosted =>
    exact .kept s.chain.isConnected
  | complete hr hc => exact .completed hok hc
  | writeDone hr hp => exact .kept _

end Czrpc.AsyncClient
