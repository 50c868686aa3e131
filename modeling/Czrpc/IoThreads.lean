import Czrpc.Execution
import Mathlib.Data.List.Nodup

/-! The threads of `io_service_pool`. The pool is one for the process: every
`server::run` adds its io_services to those that are there, and then starts one more
thread for each of them all. The handlers of a connection run on the threads of its
io_service. -/
namespace Czrpc.IoThreads
open Execution

/-- The size of `ios_vec_`, and for each thread of `thread_vec_` the index of the io_service
that it runs. -/
structure Pool where
  iosVec : ℕ
  threadVec : List ℕ
  deriving DecidableEq, Repr

def Pool.multithreaded (pool : Pool) (num : ℕ) : Except String Pool :=
  if num = 0 then .error "io server pool size is 0"
  else .ok { pool with iosVec := pool.iosVec + num }

def Pool.run (pool : Pool) : Pool :=
  { pool with threadVec := pool.threadVec ++ List.range pool.iosVec }

/-- A call of `server::run`: the setting of `ios_threads`, and whether `listen` and `accept`
return. -/
structure RunCall where
  iosThreadNum : ℕ
  listens : Bool
  deriving DecidableEq, Repr

/-- `server::run` up to where it returns or throws. -/
def serverRun (pool : Pool) (call : RunCall) : Pool :=
  match pool.multithreaded call.iosThreadNum with
  | .error _ => pool
  | .ok grown => if call.listens then grown.run else grown

def RunCall.starts (call : RunCall) : Bool := call.iosThreadNum ≠ 0 && call.listens

theorem RunCall.starts_iff (call : RunCall) :
    call.starts = true ↔ call.iosThreadNum ≠ 0 ∧ call.listens = true := by
  simp [starts]

def started (calls : List RunCall) : ℕ := calls.countP RunCall.starts

theorem serverRun_threadVec (pool : Pool) (call : RunCall) :
    (serverRun pool call).threadVec = pool.threadVec ++
      if call.starts then List.range (pool.iosVec + call.iosThreadNum) else [] := by
  by_cases hnum : call.iosThreadNum = 0
  · simp [serverRun, RunCall.starts, hnum, Pool.multithreaded]
  · cases hlistens : call.listens <;>
      simp [serverRun, RunCall.starts, hnum, hlistens, Pool.multithreaded, Pool.run]

theorem count_zero_serverRun (pool : Pool) (call : RunCall) :
    (serverRun pool call).threadVec.count 0 =
      pool.threadVec.count 0 + if call.starts then 1 else 0 := by
  rw [serverRun_threadVec, List.count_append]
  cases hstarts : call.starts with
  | false => simp
  | true =>
    have hnum := (call.starts_iff.mp hstarts).1
    have hone := List.count_eq_one_of_mem (List.nodup_range (n := pool.iosVec + call.iosThreadNum))
      (List.mem_range.mpr (show 0 < pool.iosVec + call.iosThreadNum by omega))
    simp [hone]

theorem count_serverRun_le (pool : Pool) (call : RunCall) (i : ℕ) :
    (serverRun pool call).threadVec.count i ≤
      pool.threadVec.count i + if call.starts then 1 else 0 := by
  rw [serverRun_threadVec, List.count_append]
  cases call.starts with
  | false => simp
  | true =>
    have hone := List.nodup_iff_count_le_one.mp
      (List.nodup_range (n := pool.iosVec + call.iosThreadNum)) i
    simpa using hone

theorem count_zero_calls (pool : Pool) (calls : List RunCall) :
    (calls.foldl serverRun pool).threadVec.count 0 = pool.threadVec.count 0 + started calls := by
  induction calls generalizing pool with
  | nil => rfl
  | cons call calls ih =>
    have hcall := count_zero_serverRun pool call
    rw [List.foldl_cons, ih, hcall, started, started, List.countP_cons]
    omega

theorem count_calls_le (pool : Pool) (calls : List RunCall) (i : ℕ) :
    (calls.foldl serverRun pool).threadVec.count i ≤ pool.threadVec.count i + started calls := by
  induction calls generalizing pool with
  | nil => exact Nat.le_refl _
  | cons call calls ih =>
    have hcall := count_serverRun_le pool call i
    have hcalls := ih (serverRun pool call)
    rw [List.foldl_cons, started, List.countP_cons]
    rw [started] at hcalls
    omega

theorem iosVec_serverRun (pool : Pool) (call : RunCall) :
    (serverRun pool call).iosVec = pool.iosVec + call.iosThreadNum := by
  by_cases hnum : call.iosThreadNum = 0
  · simp [serverRun, hnum, Pool.multithreaded]
  · cases hlistens : call.listens <;> simp [serverRun, hnum, hlistens, Pool.multithreaded, Pool.run]

theorem iosVec_calls (pool : Pool) (calls : List RunCall) (h : 0 < pool.iosVec + started calls) :
    0 < (calls.foldl serverRun pool).iosVec := by
  induction calls generalizing pool with
  | nil => simpa [started] using h
  | cons call calls ih =>
    apply ih
    rw [started, List.countP_cons, ← started] at h
    rw [iosVec_serverRun]
    split_ifs at h with hstarts
    · have hnum := (call.starts_iff.mp hstarts).1
      omega
    · omega

/-- `stopped` of the io_services have been stopped, `conns` gives the io_service of each
connection, and `running` the threads that are in a handler, each with its connection. -/
structure State where
  pool : Pool
  stopped : ℕ
  conns : List ℕ
  running : List (ℕ × ℕ)
  deriving DecidableEq

def initial : State := ⟨⟨0, []⟩, 0, [], []⟩

/-- `stop` is `server::stop`, also that of a destructor. A connection is made on any
io_service, and a thread takes up a handler of any connection of its own. -/
inductive Action
  | run (call : RunCall)
  | stop
  | connection (ios : ℕ)
  | enter (thread conn : ℕ)
  | leave (thread : ℕ)
  deriving DecidableEq, Repr

def step (s : State) : Action → Option State
  | .run call => some { s with pool := serverRun s.pool call }
  | .stop => some { s with stopped := s.pool.iosVec }
  | .connection ios =>
    if ios < s.pool.iosVec then some { s with conns := s.conns ++ [ios] } else none
  | .enter thread conn =>
    match s.pool.threadVec[thread]? with
    | none => none
    | some ios =>
      if s.conns[conn]? = some ios ∧ s.stopped ≤ ios ∧ thread ∉ s.running.map Prod.fst then
        some { s with running := (thread, conn) :: s.running }
      else none
  | .leave thread => some { s with running := s.running.filter fun e => e.1 ≠ thread }

inductive Effect (s : State) : Action → State → Prop
  | run (call : RunCall) : Effect s (.run call) { s with pool := serverRun s.pool call }
  | stop : Effect s .stop { s with stopped := s.pool.iosVec }
  | connection {ios : ℕ} (h : ios < s.pool.iosVec) :
      Effect s (.connection ios) { s with conns := s.conns ++ [ios] }
  | enter {thread conn ios : ℕ} (hthread : s.pool.threadVec[thread]? = some ios)
      (hconn : s.conns[conn]? = some ios) (hstopped : s.stopped ≤ ios)
      (hidle : thread ∉ s.running.map Prod.fst) :
      Effect s (.enter thread conn) { s with running := (thread, conn) :: s.running }
  | leave (thread : ℕ) :
      Effect s (.leave thread) { s with running := s.running.filter fun e => e.1 ≠ thread }

theorem step_effect {s t : State} {a : Action} (h : step s a = some t) : Effect s a t := by
  cases a with
  | run call =>
    obtain rfl := Option.some.inj h
    exact .run call
  | stop =>
    obtain rfl := Option.some.inj h
    exact .stop
  | connection ios =>
    simp only [step, Option.ite_none_right_eq_some, Option.some.injEq] at h
    obtain ⟨hios, rfl⟩ := h
    exact .connection hios
  | enter thread conn =>
    cases hthread : s.pool.threadVec[thread]? with
    | none => simp [step, hthread] at h
    | some ios =>
      simp only [step, hthread, Option.ite_none_right_eq_some, Option.some.injEq] at h
      obtain ⟨⟨hconn, hstopped, hidle⟩, rfl⟩ := h
      exact .enter hthread hconn hstopped hidle
  | leave thread =>
    obtain rfl := Option.some.inj h
    exact .leave thread

def OnOwnService (s : State) : Prop :=
  ∀ e ∈ s.running, ∃ ios, s.pool.threadVec[e.1]? = some ios ∧ s.conns[e.2]? = some ios

theorem step_onOwnService {s t : State} {a : Action} (hs : OnOwnService s)
    (h : step s a = some t) : OnOwnService t := by
  cases step_effect h with
  | run call =>
    intro e he
    obtain ⟨ios, hthread, hconn⟩ := hs e he
    have hlt := (List.getElem?_eq_some_iff.mp hthread).1
    refine ⟨ios, ?_, hconn⟩
    rw [serverRun_threadVec, List.getElem?_append_left hlt, hthread]
  | stop => exact hs
  | connection hios =>
    intro e he
    obtain ⟨ios, hthread, hconn⟩ := hs e he
    have hlt := (List.getElem?_eq_some_iff.mp hconn).1
    exact ⟨ios, hthread, (List.getElem?_append_left hlt).trans hconn⟩
  | enter hthread hconn hstopped hidle =>
    exact List.forall_mem_cons.mpr ⟨⟨_, hthread, hconn⟩, hs⟩
  | leave thread =>
    intro e he
    exact hs e (List.mem_of_mem_filter he)

def Action.call : Action → Option RunCall
  | .run call => some call
  | _ => none

def callsOf (as : List Action) : List RunCall := as.filterMap Action.call

theorem run_pool {s t : State} {as : List Action} (h : run step s as = some t) :
    t.pool = (callsOf as).foldl serverRun s.pool := by
  induction as generalizing s with
  | nil =>
    obtain rfl : s = t := by simpa using h
    rfl
  | cons a as ih =>
    obtain ⟨u, hu, h⟩ := run_cons_eq_some.mp h
    rw [ih h]
    cases step_effect hu <;> rfl

theorem run_calls (s : State) (calls : List RunCall) :
    run step s (calls.map .run) = some { s with pool := calls.foldl serverRun s.pool } := by
  induction calls generalizing s with
  | nil => rfl
  | cons call calls ih =>
    rw [List.map_cons, run_cons]
    exact ih { s with pool := serverRun s.pool call }

/-- No io_service of the pool is run by two threads, and no connection has handlers on two
threads at once. -/
def Serialized (s : State) : Prop :=
  (∀ ios < s.pool.iosVec, s.pool.threadVec.count ios ≤ 1) ∧
    ∀ thread thread' conn, (thread, conn) ∈ s.running → (thread', conn) ∈ s.running →
      thread = thread'

/-- After a sequence of calls of `server::run`, whatever the servers and their connections do
between them: every state is serialized exactly when at most one of the calls gets as far as
`io_service_pool::run`. -/
theorem serialized_iff (calls : List RunCall) :
    (∀ as s, run step initial as = some s → callsOf as = calls → Serialized s) ↔
      started calls ≤ 1 := by
  constructor
  · intro hall
    have hrun := run_calls initial calls
    have hcalls : callsOf (calls.map .run) = calls := by
      rw [callsOf, List.filterMap_map]
      exact List.filterMap_some
    obtain ⟨hcount, -⟩ := hall _ _ hrun hcalls
    have hzero := count_zero_calls ⟨0, []⟩ calls
    rw [List.count_nil, Nat.zero_add] at hzero
    rcases Nat.eq_zero_or_pos (started calls) with hnone | hsome
    · omega
    · rw [← hzero]
      exact hcount 0 (iosVec_calls ⟨0, []⟩ calls (by omega))
  · intro hone as s hrun hcalls
    have hpool := run_pool hrun
    rw [hcalls] at hpool
    have hcount : ∀ ios, s.pool.threadVec.count ios ≤ 1 := by
      intro ios
      have hle := count_calls_le ⟨0, []⟩ calls ios
      rw [List.count_nil, Nat.zero_add] at hle
      rw [hpool]
      exact Nat.le_trans hle hone
    refine ⟨fun ios _ => hcount ios, ?_⟩
    intro thread thread' conn hmem hmem'
    have hown : OnOwnService s :=
      run_invariant (fun _ _ _ hs => step_onOwnService hs) (by simp [OnOwnService, initial]) hrun
    obtain ⟨ios, hthread, hconn⟩ := hown _ hmem
    obtain ⟨ios', hthread', hconn'⟩ := hown _ hmem'
    obtain rfl : ios = ios' := Option.some.inj (hconn.symm.trans hconn')
    have hnodup := List.nodup_iff_count_le_one.mpr hcount
    have hlt := (List.getElem?_eq_some_iff.mp hthread).1
    exact (List.getElem?_inj hlt hnodup).mp (hthread.trans hthread'.symm)

/-- Two servers with an io thread each: the first io_service has two threads, and they are in
handlers of one connection at once. -/
theorem second_run_not_serialized :
    ¬ ∀ as s, run step initial as = some s → Serialized s := by
  intro hall
  let as : List Action := [.run ⟨1, true⟩, .connection 0, .run ⟨1, true⟩, .enter 0 0, .enter 1 0]
  have hrun : run step initial as =
      some ⟨⟨2, [0, 0, 1]⟩, 0, [0], [(1, 0), (0, 0)]⟩ := by decide
  have hserialized := hall as _ hrun
  exact absurd (hserialized.1 0 (by decide)) (by decide)

end Czrpc.IoThreads
