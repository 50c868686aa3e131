import Mathlib.Data.Int.Notation
import Czrpc.Execution
import Czrpc.Protocol
import Czrpc.UnorderedMap

/-! The pending table of `async_rpc_client`: `add_bind_func` on the calling
threads, `route` on the io thread, `check_request_timeout` on the timer thread
and `start` after a connect. `route` takes the table's lock once to find and
once to erase, and then queues the task, so it advances in three steps between
which the other threads may act. -/
namespace Czrpc.PendingCalls
open Protocol

/-- `task` names the registered call whose callback this is. -/
structure TaskWithTimepoint where
  task : ℕ
  beginTime : ℤ
  deriving DecidableEq, Repr

inductive RoutePc
  | idle
  | entered (content : ResponseContent)
  | found (content : ResponseContent) (task : ℕ)
  | erased (content : ResponseContent) (task : ℕ)
  deriving DecidableEq, Repr

/-- `registered` lists the call ids given to `add_bind_func`; a registered call is
its position there. `queued` records every task given to the thread pool, with
the content it is to run on. -/
structure State where
  taskMap : UnorderedMap UInt32 TaskWithTimepoint
  registered : List UInt32
  queued : List (ℕ × ResponseContent)
  route : RoutePc
  deriving DecidableEq

def initial : State := ⟨.empty, [], [], .idle⟩

def addBindFunc (s : State) (callId : UInt32) (now : ℤ) : State :=
  { s with
    taskMap := s.taskMap.emplace callId ⟨s.registered.length, now⟩
    registered := s.registered ++ [callId] }

def routeStep (s : State) : Option State :=
  match s.route with
  | .idle => none
  | .entered content =>
    match s.taskMap.find content.callId with
    | some entry => some { s with route := .found content entry.task }
    | none => some { s with route := .idle }
  | .found content task =>
    some { s with taskMap := s.taskMap.erase content.callId, route := .erased content task }
  | .erased content task => some { s with queued := s.queued ++ [(task, content)], route := .idle }

def expired (requestTimeout now : ℤ) (entry : TaskWithTimepoint) : Bool :=
  now - entry.beginTime ≥ requestTimeout

/-- The content made up for a timed out call. Its `call_id` is never assigned. -/
def timeoutContent (uninitialized : UInt32) : ResponseContent :=
  ⟨uninitialized, .requestTimeout, [], []⟩

def checkRequestTimeout (requestTimeout now : ℤ) (uninitialized : UInt32 → UInt32) (s : State) :
    State :=
  let swept := s.taskMap.forEachErase (fun key entry queued =>
    if expired requestTimeout now entry then
      (true, queued ++ [(entry.task, timeoutContent (uninitialized key))])
    else (false, queued)) s.queued
  { s with taskMap := swept.1, queued := swept.2 }

/-- `start` forgets whatever is pending. -/
def start (s : State) : State := { s with taskMap := s.taskMap.clear }

inductive Action
  | addBindFunc (callId : UInt32) (now : ℤ)
  | frame (content : ResponseContent)
  | route
  | checkRequestTimeout (now : ℤ) (uninitialized : UInt32 → UInt32)
  | start

/-- The io thread takes up a frame or a new connection only outside `route`. -/
def step (requestTimeout : ℤ) (s : State) : Action → Option State
  | .addBindFunc callId now => some (addBindFunc s callId now)
  | .frame content => if s.route = .idle then some { s with route := .entered content } else none
  | .route => routeStep s
  | .checkRequestTimeout now uninitialized =>
      some (checkRequestTimeout requestTimeout now uninitialized s)
  | .start => if s.route = .idle then some (start s) else none

def State.queuedTasks (s : State) : List ℕ := s.queued.map Prod.fst

theorem checkRequestTimeout_eq (requestTimeout now : ℤ) (uninitialized : UInt32 → UInt32)
    (s : State) :
    checkRequestTimeout requestTimeout now uninitialized s =
      { s with
        taskMap := s.taskMap.restrict fun e => !expired requestTimeout now e.2
        queued := s.queued ++ (s.taskMap.entries.filter fun e => expired requestTimeout now e.2).map
          fun e => (e.2.task, timeoutContent (uninitialized e.1)) } := by
  simp only [checkRequestTimeout]
  rw [UnorderedMap.forEachErase_log s.taskMap (fun _ entry => expired requestTimeout now entry)
    (fun key entry => (entry.task, timeoutContent (uninitialized key)))]

theorem routeStep_cases {s t : State} (h : routeStep s = some t) :
    (∃ content entry, s.route = .entered content ∧ (content.callId, entry) ∈ s.taskMap.entries ∧
      t = { s with route := .found content entry.task }) ∨
    (∃ content, s.route = .entered content ∧ t = { s with route := .idle }) ∨
    (∃ content task, s.route = .found content task ∧
      t = { s with taskMap := s.taskMap.erase content.callId, route := .erased content task }) ∨
    (∃ content task, s.route = .erased content task ∧
      t = { s with queued := s.queued ++ [(task, content)], route := .idle }) := by
  unfold routeStep at h
  split at h
  · cases h
  · rename_i content hr
    split at h
    · rename_i entry hf
      exact Or.inl ⟨content, entry, hr, (s.taskMap.find_eq_some_iff _ _).mp hf,
        (Option.some.inj h).symm⟩
    · exact Or.inr (Or.inl ⟨content, hr, (Option.some.inj h).symm⟩)
  · rename_i content task hr
    exact Or.inr (Or.inr (Or.inl ⟨content, task, hr, (Option.some.inj h).symm⟩))
  · rename_i content task hr
    exact Or.inr (Or.inr (Or.inr ⟨content, task, hr, (Option.some.inj h).symm⟩))

@[simp] theorem queuedTasks_checkRequestTimeout (requestTimeout now : ℤ)
    (uninitialized : UInt32 → UInt32) (s : State) :
    (checkRequestTimeout requestTimeout now uninitialized s).queuedTasks =
      s.queuedTasks ++ (s.taskMap.entries.filter fun e => expired requestTimeout now e.2).map
        fun e => e.2.task := by
  simp [checkRequestTimeout_eq, State.queuedTasks, Function.comp_def]

theorem mem_checkRequestTimeout {requestTimeout now : ℤ} {uninitialized : UInt32 → UInt32}
    {s : State} {e : UInt32 × TaskWithTimepoint} :
    e ∈ (checkRequestTimeout requestTimeout now uninitialized s).taskMap.entries ↔
      e ∈ s.taskMap.entries ∧ expired requestTimeout now e.2 = false := by
  simp [checkRequestTimeout_eq, UnorderedMap.restrict, List.mem_filter]

theorem step_registered {requestTimeout : ℤ} {s t : State} {a : Action}
    (hs : step requestTimeout s a = some t) : s.registered <+: t.registered := by
  cases a with
  | addBindFunc callId now =>
    obtain rfl := Option.some.inj hs
    exact List.prefix_append _ _
  | frame content =>
    simp only [step] at hs
    split_ifs at hs
    obtain rfl := Option.some.inj hs
    exact List.prefix_rfl
  | route =>
    obtain ⟨content, entry, -, -, rfl⟩ | ⟨content, -, rfl⟩ | ⟨content, task, -, rfl⟩ |
      ⟨content, task, -, rfl⟩ := routeStep_cases hs <;> exact List.prefix_rfl
  | checkRequestTimeout now uninitialized =>
    obtain rfl := Option.some.inj hs
    exact List.prefix_rfl
  | start =>
    simp only [step] at hs
    split_ifs at hs
    obtain rfl := Option.some.inj hs
    exact List.prefix_rfl

/-- Every entry is the task of a call registered under its key, `route` holds the
task of a call with the id it was called with, and a queued task runs on a
response with its call's id or on a timeout. -/
structure RouteInv (s : State) : Prop where
  known : ∀ e ∈ s.taskMap.entries, s.registered[e.2.task]? = some e.1
  held : ∀ content task, s.route = .found content task ∨ s.route = .erased content task →
    s.registered[task]? = some content.callId
  answered : ∀ q ∈ s.queued, ∃ callId, s.registered[q.1]? = some callId ∧
    (q.2.callId = callId ∨ ∃ uninitialized, q.2 = timeoutContent uninitialized)

theorem initial_route : RouteInv initial where
  known := by simp [initial, UnorderedMap.empty]
  held := by simp [initial]
  answered := by simp [initial]

theorem RouteInv.queued_lt {s : State} (h : RouteInv s) {r : ℕ} (hr : r ∈ s.queuedTasks) :
    r < s.registered.length := by
  obtain ⟨q, hq, rfl⟩ := List.mem_map.mp hr
  obtain ⟨callId, hc, -⟩ := h.answered q hq
  exact (List.getElem?_eq_some_iff.mp hc).1

theorem RouteInv.task_inj {s : State} (h : RouteInv s) {e e' : UInt32 × TaskWithTimepoint}
    (he : e ∈ s.taskMap.entries) (he' : e' ∈ s.taskMap.entries) (ht : e.2.task = e'.2.task) :
    e = e' := by
  have hk := h.known e he
  rw [ht, h.known e' he', Option.some.injEq] at hk
  exact List.inj_on_of_nodup_map s.taskMap.nodup he he' hk.symm

theorem addBindFunc_route {s : State} (h : RouteInv s) (callId : UInt32) (now : ℤ) :
    RouteInv (addBindFunc s callId now) := by
  have hold : ∀ (r : ℕ) id, s.registered[r]? = some id → (s.registered ++ [callId])[r]? = some id := by
    intro r id hr
    rw [List.getElem?_append_left (List.getElem?_eq_some_iff.mp hr).1]
    exact hr
  refine ⟨?_, fun content task hr => hold _ _ (h.held content task hr), ?_⟩
  · intro e he
    rcases (s.taskMap.mem_emplace _ _ _).mp he with he | ⟨-, rfl⟩
    · exact hold _ _ (h.known e he)
    · simp [addBindFunc]
  · intro q hq
    obtain ⟨id, hid, hc⟩ := h.answered q hq
    exact ⟨id, hold _ _ hid, hc⟩

theorem routeStep_route {s t : State} (h : RouteInv s) (hs : routeStep s = some t) : RouteInv t := by
  obtain ⟨content, entry, -, he, rfl⟩ | ⟨content, -, rfl⟩ | ⟨content, task, hr, rfl⟩ |
    ⟨content, task, hr, rfl⟩ := routeStep_cases hs
  · refine ⟨h.known, ?_, h.answered⟩
    rintro content' task' (hr' | hr')
    · obtain ⟨rfl, rfl⟩ := RoutePc.found.inj hr'
      exact h.known _ he
    · cases hr'
  · exact ⟨h.known, by simp, h.answered⟩
  · refine ⟨fun e hm => h.known e ((s.taskMap.mem_erase _ _).mp hm).1, ?_, h.answered⟩
    rintro content' task' (hr' | hr')
    · cases hr'
    · obtain ⟨rfl, rfl⟩ := RoutePc.erased.inj hr'
      exact h.held content task (Or.inl hr)
  · refine ⟨h.known, by simp, ?_⟩
    intro q hq
    rcases List.mem_append.mp hq with hq | hq
    · exact h.answered q hq
    · obtain rfl := List.mem_singleton.mp hq
      exact ⟨content.callId, h.held content task (Or.inr hr), Or.inl rfl⟩

theorem checkRequestTimeout_route {s : State} (h : RouteInv s) (requestTimeout now : ℤ)
    (uninitialized : UInt32 → UInt32) :
    RouteInv (checkRequestTimeout requestTimeout now uninitialized s) := by
  refine ⟨fun e he => h.known e (mem_checkRequestTimeout.mp he).1, h.held, ?_⟩
  intro q hq
  rw [checkRequestTimeout_eq] at hq
  rcases List.mem_append.mp hq with hq | hq
  · exact h.answered q hq
  · obtain ⟨e, he, rfl⟩ := List.mem_map.mp hq
    exact ⟨e.1, h.known e (List.mem_filter.mp he).1, Or.inr ⟨_, rfl⟩⟩

theorem step_route {requestTimeout : ℤ} {s t : State} {a : Action} (h : RouteInv s)
    (hs : step requestTimeout s a = some t) : RouteInv t := by
  cases a with
  | addBindFunc callId now =>
    obtain rfl := Option.some.inj hs
    exact addBindFunc_route h callId now
  | frame content =>
    simp only [step] at hs
    split_ifs at hs
    obtain rfl := Option.some.inj hs
    exact ⟨h.known, by simp, h.answered⟩
  | route => exact routeStep_route h hs
  | checkRequestTimeout now uninitialized =>
    obtain rfl := Option.some.inj hs
    exact checkRequestTimeout_route h requestTimeout now uninitialized
  | start =>
    simp only [step] at hs
    split_ifs at hs
    obtain rfl := Option.some.inj hs
    exact ⟨fun e he => absurd he (s.taskMap.mem_clear e), h.held, h.answered⟩

end Czrpc.PendingCalls
