import Czrpc.PoolDrain

/-! How the objects that own a thread pool come to an end: by `async_rpc_client::stop` and
`sub_client::stop`, and by the destructor of `server`, whose own `stop` leaves the pool alone.
Tasks are added by the handlers that the owner's own threads run for their io_services. The
services are stopped and their threads joined before the pool is stopped, on a thread that is
none of these. -/
namespace Czrpc.Shutdown
open Execution

/-- Where the thread of an io_service stands: between two handlers, in one, in its `k`-th call
of `add_task`, outside of `run()` because a handler threw, or behind `run()`. -/
inductive ServicePc
  | idle
  | handling
  | adding (k : ℕ)
  | crashed
  | exited
  deriving DecidableEq, Repr

inductive Command (m : ℕ)
  | stopService (i : Fin m)
  | joinService (i : Fin m)
  | setStop
  | notifyAll
  | joinWorkers
  deriving DecidableEq, Repr

/-- `script` is what the stopping thread has still to do. -/
structure State (m n : ℕ) where
  stopped : Fin m → Bool
  services : Fin m → ServicePc
  pool : ThreadPool.State n
  script : List (Command m)

variable {m n : ℕ}

def initial (script : List (Command m)) : State m n :=
  ⟨fun _ => false, fun _ => .idle, ThreadPool.initial, script⟩

inductive Action (m n : ℕ)
  | handler (i : Fin m)
  | addTask (i : Fin m)
  | advance (i : Fin m) (a : ThreadPool.Action n)
  | done (i : Fin m)
  | exit (i : Fin m)
  | worker (a : ThreadPool.Action n)
  | command

def setService (s : State m n) (i : Fin m) (pc : ServicePc) : State m n :=
  { s with services := Function.update s.services i pc }

def ofCall (k : ℕ) : ThreadPool.Action n → Bool
  | .testStop j | .enqueue j | .notifyOne j _ => j = k
  | _ => false

def ofWorker : ThreadPool.Action n → Bool
  | .acquire _ | .test _ | .block _ | .take _ | .finish _ | .wake _ => true
  | _ => false

def afterCall (k : ℕ) : Option ThreadPool.AddPc → ServicePc
  | some .threw => .crashed
  | some .returned => .handling
  | _ => .adding k

def execute (s : State m n) : Option (State m n) :=
  match s.script with
  | .stopService i :: rest =>
    some { s with stopped := Function.update s.stopped i true, script := rest }
  | .joinService i :: rest => if s.services i = .exited then some { s with script := rest } else none
  | .setStop :: rest =>
    (ThreadPool.step s.pool .setStop).map fun pool => { s with pool := pool, script := rest }
  | .notifyAll :: rest =>
    (ThreadPool.step s.pool .notifyAll).map fun pool => { s with pool := pool, script := rest }
  | .joinWorkers :: rest =>
    (ThreadPool.step s.pool .join).map fun pool => { s with pool := pool, script := rest }
  | [] => none

/-- A stopped service begins no handler; its thread leaves when none is running. -/
def step (s : State m n) : Action m n → Option (State m n)
  | .handler i =>
    if s.services i = .idle ∧ s.stopped i = false then some (setService s i .handling) else none
  | .addTask i =>
    if s.services i = .handling then
      (ThreadPool.step s.pool .call).map fun pool =>
        { setService s i (.adding s.pool.adders.length) with pool := pool }
    else none
  | .advance i a =>
    match s.services i with
    | .adding k =>
      if ofCall k a then
        (ThreadPool.step s.pool a).map fun pool =>
          { setService s i (afterCall k pool.adders[k]?) with pool := pool }
      else none
    | _ => none
  | .done i => if s.services i = .handling then some (setService s i .idle) else none
  | .exit i =>
    if s.services i = .idle ∧ s.stopped i = true then some (setService s i .exited) else none
  | .worker a =>
    if ofWorker a then (ThreadPool.step s.pool a).map fun pool => { s with pool := pool } else none
  | .command => execute s

def poolStop : List (Command m) := [.setStop, .notifyAll, .joinWorkers]

/-- `atimer::destroy` and `client_base::stop`, as far as the threads go. -/
def stopAndJoin (i : Fin m) : List (Command m) := [.stopService i, .joinService i]

def asyncRpcClientStop : List (Command 2) :=
  stopAndJoin ⟨0, Nat.two_pos⟩ ++ stopAndJoin ⟨1, Nat.one_lt_two⟩ ++ poolStop

def subClientStop : List (Command 1) := stopAndJoin ⟨0, Nat.one_pos⟩ ++ poolStop

/-- `server::stop`, which is `io_service_pool::stop`. A thread that was joined before is joinable
no more and not waited for. -/
def serverStop (iosThreads : ℕ) : List (Command iosThreads) :=
  (List.finRange iosThreads).map .stopService ++ (List.finRange iosThreads).map .joinService

/-- `~server`: it calls `stop`, and then `~thread_pool` of `threadpool_` runs. -/
def serverDestructor (iosThreads : ℕ) : List (Command iosThreads) := serverStop iosThreads ++ poolStop

/-- A client is stopped, or a server is stopped any number of times and destroyed. -/
inductive ShutsDown : (m : ℕ) → List (Command m) → Prop
  | asyncRpcClient : ShutsDown 2 asyncRpcClientStop
  | subClient : ShutsDown 1 subClientStop
  | server (iosThreads stops : ℕ) : ShutsDown iosThreads
      ((List.replicate stops (serverStop iosThreads)).flatten ++ serverDestructor iosThreads)

def Command.isService : Command m → Bool
  | .stopService _ | .joinService _ => true
  | _ => false

/-- All the services are joined before the pool is stopped. -/
def Orderly (script : List (Command m)) : Prop :=
  ∃ before, script = before ++ poolStop ∧ (∀ i, .joinService i ∈ before) ∧
    ∀ c ∈ before, c.isService = true

theorem isService_of_mem_serverStop {c : Command m} (hc : c ∈ serverStop m) : c.isService = true := by
  rcases List.mem_append.mp hc with hc | hc
  · obtain ⟨i, -, rfl⟩ := List.mem_map.mp hc
    rfl
  · obtain ⟨i, -, rfl⟩ := List.mem_map.mp hc
    rfl

theorem ShutsDown.orderly {script : List (Command m)} (h : ShutsDown m script) : Orderly script := by
  cases h with
  | asyncRpcClient =>
    exact ⟨stopAndJoin ⟨0, Nat.two_pos⟩ ++ stopAndJoin ⟨1, Nat.one_lt_two⟩, rfl, by decide, by decide⟩
  | subClient => exact ⟨stopAndJoin ⟨0, Nat.one_pos⟩, rfl, by decide, by decide⟩
  | server iosThreads stops =>
    refine ⟨(List.replicate stops (serverStop m)).flatten ++ serverStop m,
      (List.append_assoc _ _ _).symm, ?_, ?_⟩
    · intro i
      exact List.mem_append_right _ (List.mem_append_right _ (List.mem_map.mpr
        ⟨i, List.mem_finRange i, rfl⟩))
    · intro c hc
      rcases List.mem_append.mp hc with hc | hc
      · obtain ⟨stop, hstop, hc⟩ := List.mem_flatten.mp hc
        rw [List.eq_of_mem_replicate hstop] at hc
        exact isService_of_mem_serverStop hc
      · exact isService_of_mem_serverStop hc

/-- What is left of an orderly script: the services that are still to be joined may run, but
once the pool is being stopped none does. -/
inductive Phase (s : State m n) : Prop
  | serving {before : List (Command m)} (hscript : s.script = before ++ poolStop)
      (hbefore : ∀ c ∈ before, c.isService = true)
      (hjoin : ∀ i, .joinService i ∈ before ∨ s.services i = .exited)
      (hstop : s.pool.isStop = false)
      (hworkers : ∀ w, s.pool.workers w ≠ .exited) : Phase s
  | stopping (hscript : s.script = [.notifyAll, .joinWorkers] ∨ s.script = [.joinWorkers])
      (hexited : ∀ i, s.services i = .exited) : Phase s
  | stopped (hscript : s.script = []) (hexited : ∀ i, s.services i = .exited)
      (hworkers : ∀ w, s.pool.workers w = .exited) : Phase s

def Attended (s : State m n) : Prop :=
  ∀ (k : ℕ) pc, s.pool.adders[k]? = some pc →
    pc = .returned ∨ pc ≠ .threw ∧ ∃ i, s.services i = .adding k

structure Inv (s : State m n) : Prop where
  phase : Phase s
  drain : ThreadPool.DrainInv s.pool
  attended : Attended s
  alive : ∀ i, s.services i ≠ .crashed

theorem initial_inv {script : List (Command m)} (h : Orderly script) (hn : 0 < n) :
    Inv (initial script : State m n) := by
  obtain ⟨before, rfl, hjoin, hbefore⟩ := h
  refine ⟨.serving rfl hbefore (fun i => Or.inl (hjoin i)) rfl nofun,
    ThreadPool.initial_drain hn, ?_, nofun⟩
  intro k pc hk
  cases hk

section Pool
open ThreadPool
variable {p q : ThreadPool.State n} {a : ThreadPool.Action n}

structure Unasked (p q : ThreadPool.State n) : Prop where
  isStop : q.isStop = p.isStop
  left : ∀ w, p.workers w = .exited → q.workers w = .exited
  stays : p.isStop = false → (∀ w, p.workers w ≠ .exited) → ∀ w, q.workers w ≠ .exited

theorem Unasked.same (hworkers : q.workers = p.workers) (hstop : q.isStop = p.isStop) :
    Unasked p q :=
  ⟨hstop, fun w hw => by rw [hworkers, hw], fun _ hall w => by rw [hworkers]; exact hall w⟩

theorem Unasked.setWorker {w : Fin n} {pc : WorkerPc} {r : ThreadPool.State n}
    (hworkers : r.workers = Function.update p.workers w pc) (hstop : r.isStop = p.isStop)
    (hw : p.workers w ≠ .exited)
    (hpc : pc = .exited → p.isStop = true) : Unasked p r := by
  refine ⟨hstop, ?_, ?_⟩
  · intro v hv
    have hvw : v ≠ w := by
      rintro rfl
      exact hw hv
    rw [hworkers, Function.update_of_ne hvw, hv]
  · intro hp hall v
    rw [hworkers]
    by_cases hvw : v = w
    · subst hvw
      rw [Function.update_self]
      intro hex
      rw [hpc hex] at hp
      cases hp
    · rw [Function.update_of_ne hvw]
      exact hall v

theorem worker_step (h : ThreadPool.step p a = some q) (ha : ofWorker a = true) :
    Unasked p q ∧ q.adders = p.adders := by
  cases step_effect h with
  | call | refuse | accept | enqueue | notifyOne | notifyNone | setStop | notifyAll | join => cases ha
  | acquire hw => exact ⟨.setWorker rfl rfl (by rcases hw with hw | hw <;> simp [hw]) nofun, rfl⟩
  | pass hw | park hw | block hw | take hw | finish hw | wake hw =>
    exact ⟨.setWorker rfl rfl (by simp [hw]) nofun, rfl⟩
  | leave hw hs => exact ⟨.setWorker rfl rfl (by simp [hw]) fun _ => hs, rfl⟩

theorem call_step {k : ℕ} (h : ThreadPool.step p a = some q) (ha : ofCall k a = true) :
    Unasked p q ∧ (∀ j, j ≠ k → q.adders[j]? = p.adders[j]?) ∧
      (p.isStop = false → ∃ pc, q.adders[k]? = some pc ∧ pc ≠ .threw) := by
  have hset : ∀ {pc pc' : AddPc}, p.adders[k]? = some pc → (p.adders.set k pc')[k]? = some pc' := by
    intro pc pc' hk
    exact List.getElem?_set_self (List.getElem?_eq_some_iff.mp hk).1
  have hother : ∀ {pc : AddPc} j, j ≠ k → (p.adders.set k pc)[j]? = p.adders[j]? := fun j hj =>
    List.getElem?_set_ne hj.symm
  cases step_effect h with
  | call | setStop | notifyAll | join | acquire | pass | park | block | leave | take | finish
  | wake => cases ha
  | refuse hk hs =>
    obtain rfl := of_decide_eq_true ha
    refine ⟨.same rfl rfl, hother, ?_⟩
    intro hstop
    rw [hs] at hstop
    cases hstop
  | accept hk hs =>
    obtain rfl := of_decide_eq_true ha
    exact ⟨.same rfl rfl, hother, fun _ => ⟨.tested, hset hk, nofun⟩⟩
  | enqueue hk hm =>
    obtain rfl := of_decide_eq_true ha
    exact ⟨.same rfl rfl, hother, fun _ => ⟨.enqueued, hset hk, nofun⟩⟩
  | notifyOne hk hw =>
    obtain rfl := of_decide_eq_true ha
    exact ⟨.setWorker rfl rfl (by simp [hw]) nofun, hother, fun _ => ⟨.returned, hset hk, nofun⟩⟩
  | notifyNone hk hw =>
    obtain rfl := of_decide_eq_true ha
    exact ⟨.same rfl rfl, hother, fun _ => ⟨.returned, hset hk, nofun⟩⟩

end Pool

theorem Phase.unasked {s : State m n} (hs : Phase s) {t : State m n} (hscript : t.script = s.script)
    (hexited : ∀ i, s.services i = .exited → t.services i = .exited) (hpool : Unasked s.pool t.pool) :
    Phase t := by
  cases hs with
  | serving hs hbefore hjoin hstop hworkers =>
    exact .serving (hscript.trans hs) hbefore (fun i => (hjoin i).imp_right (hexited i))
      (hpool.isStop.trans hstop) (hpool.stays hstop hworkers)
  | stopping hs hex => exact .stopping (by rw [hscript]; exact hs) fun i => hexited i (hex i)
  | stopped hs hex hworkers =>
    exact .stopped (hscript.trans hs) (fun i => hexited i (hex i)) fun w => hpool.left w (hworkers w)

theorem Phase.isStop {s : State m n} (hs : Phase s) {i : Fin m} (hi : s.services i ≠ .exited) :
    s.pool.isStop = false ∧ ∀ w, s.pool.workers w ≠ .exited := by
  cases hs with
  | serving hs hbefore hjoin hstop hworkers => exact ⟨hstop, hworkers⟩
  | stopping hs hex => exact absurd (hex i) hi
  | stopped hs hex => exact absurd (hex i) hi

theorem setService_exited {s : State m n} {i : Fin m} {pc : ServicePc} (hi : s.services i ≠ .exited)
    (j : Fin m) (hj : s.services j = .exited) : (setService s i pc).services j = .exited := by
  have hji : j ≠ i := by
    rintro rfl
    exact hi hj
  simp only [setService, Function.update_of_ne hji, hj]

theorem Inv.move {s : State m n} (hs : Inv s) {i : Fin m} {pc : ServicePc}
    (hi : s.services i ≠ .exited) (hadd : ∀ k, s.services i ≠ .adding k) (hpc : pc ≠ .crashed) :
    Inv (setService s i pc) where
  phase := hs.phase.unasked rfl (setService_exited hi) (.same rfl rfl)
  drain := hs.drain
  attended k pc' hk := by
    rcases hs.attended k pc' hk with hret | ⟨hne, j, hj⟩
    · exact Or.inl hret
    · have hji : j ≠ i := by
        rintro rfl
        exact hadd k hj
      exact Or.inr ⟨hne, j, by simp only [setService, Function.update_of_ne hji, hj]⟩
  alive j := by
    by_cases hji : j = i
    · subst hji
      simp only [setService, Function.update_self]
      exact hpc
    · simp only [setService, Function.update_of_ne hji]
      exact hs.alive j

theorem Inv.call {s : State m n} (hs : Inv s) {i : Fin m} (hi : s.services i = .handling)
    {pool : ThreadPool.State n} (h : ThreadPool.step s.pool .call = some pool) :
    Inv { setService s i (.adding s.pool.adders.length) with pool := pool } := by
  have hex : s.services i ≠ .exited := by simp [hi]
  have hdrain := ThreadPool.step_drain (a := .call) hs.drain trivial h
  obtain rfl : { s.pool with adders := s.pool.adders ++ [.called] } = pool := Option.some.inj h
  refine ⟨hs.phase.unasked rfl (setService_exited hex) (.same rfl rfl), hdrain,
    ?_, ?_⟩
  · intro k pc hk
    rcases Nat.lt_or_ge k s.pool.adders.length with hlt | hge
    · simp only [List.getElem?_append_left hlt] at hk
      rcases hs.attended k pc hk with hret | ⟨hne, j, hj⟩
      · exact Or.inl hret
      · have hji : j ≠ i := by
          rintro rfl
          rw [hi] at hj
          cases hj
        exact Or.inr ⟨hne, j, by simp only [setService, Function.update_of_ne hji, hj]⟩
    · simp only [List.getElem?_append_right hge, List.getElem?_singleton] at hk
      split_ifs at hk with hz
      obtain rfl := Option.some.inj hk
      have hk : k = s.pool.adders.length := by omega
      exact Or.inr ⟨nofun, i, by simp only [setService, Function.update_self, hk]⟩
  · intro j
    by_cases hji : j = i
    · subst hji
      simp [setService]
    · simp only [setService, Function.update_of_ne hji]
      exact hs.alive j

theorem Inv.advance {s : State m n} (hs : Inv s) (hn : 0 < n) {i : Fin m} {k : ℕ}
    (hi : s.services i = .adding k) {a : ThreadPool.Action n} (ha : ofCall k a = true)
    {pool : ThreadPool.State n} (h : ThreadPool.step s.pool a = some pool) :
    Inv { setService s i (afterCall k pool.adders[k]?) with pool := pool } := by
  have hex : s.services i ≠ .exited := by simp [hi]
  obtain ⟨hstop, hworkers⟩ := hs.phase.isStop hex
  obtain ⟨hpool, hother, hcall⟩ := call_step h ha
  obtain ⟨pc, hpc, hthrew⟩ := hcall hstop
  have hleft : ThreadPool.WorkerLeft s.pool a := by
    cases a <;> first | trivial | exact ⟨⟨0, hn⟩, hworkers _⟩
  refine ⟨hs.phase.unasked rfl (setService_exited hex) hpool, ThreadPool.step_drain hs.drain hleft h,
    ?_, ?_⟩
  · intro j pc' hj
    by_cases hjk : j = k
    · subst hjk
      obtain rfl : pc = pc' := Option.some.inj (hpc.symm.trans hj)
      by_cases hret : pc = .returned
      · exact Or.inl hret
      · refine Or.inr ⟨hthrew, i, ?_⟩
        simp only [setService, Function.update_self, hpc]
        cases pc <;> first | rfl | exact absurd rfl hret | exact absurd rfl hthrew
    · simp only [hother j hjk] at hj
      rcases hs.attended j pc' hj with hret | ⟨hne, l, hl⟩
      · exact Or.inl hret
      · have hli : l ≠ i := by
          rintro rfl
          rw [hi] at hl
          exact hjk (ServicePc.adding.inj hl).symm
        exact Or.inr ⟨hne, l, by simp only [setService, Function.update_of_ne hli, hl]⟩
  · intro j
    by_cases hji : j = i
    · subst hji
      simp only [setService, Function.update_self, hpc]
      cases pc <;> simp_all [afterCall]
    · simp only [setService, Function.update_of_ne hji]
      exact hs.alive j

theorem Inv.worker {s : State m n} (hs : Inv s) {a : ThreadPool.Action n} (ha : ofWorker a = true)
    {pool : ThreadPool.State n} (h : ThreadPool.step s.pool a = some pool) :
    Inv { s with pool := pool } := by
  obtain ⟨hpool, hadders⟩ := worker_step h ha
  have hleft : ThreadPool.WorkerLeft s.pool a := by
    cases a <;> trivial
  refine ⟨hs.phase.unasked rfl (fun _ => id) hpool, ThreadPool.step_drain hs.drain hleft h, ?_,
    hs.alive⟩
  intro k pc hk
  exact hs.attended k pc (by rw [← hadders]; exact hk)

theorem Inv.command {s t : State m n} (hs : Inv s) (h : execute s = some t) : Inv t := by
  obtain ⟨hphase, hdrain, hattended, halive⟩ := hs
  cases hphase with
  | @serving before hscript hbefore hjoin hstop hworkers =>
    cases before with
    | nil =>
      -- all the joins are done, so the pool is stopped when nobody can add a task any more
      have hexited : ∀ i, s.services i = .exited := fun i => (hjoin i).resolve_left List.not_mem_nil
      rw [List.nil_append, poolStop] at hscript
      simp only [execute, hscript] at h
      obtain ⟨pool, hpool, rfl⟩ := Option.map_eq_some_iff.mp h
      refine ⟨.stopping (Or.inl rfl) hexited,
        ThreadPool.step_drain (a := .setStop) hdrain trivial hpool, ?_, halive⟩
      cases ThreadPool.step_effect hpool
      exact hattended
    | cons c before =>
      have hrest : ∀ c ∈ before, c.isService = true := fun c hc =>
        hbefore c (List.mem_cons_of_mem _ hc)
      rw [List.cons_append] at hscript
      cases c with
      | stopService i =>
        simp only [execute, hscript] at h
        obtain rfl := Option.some.inj h
        refine ⟨.serving rfl hrest ?_ hstop hworkers, hdrain, hattended, halive⟩
        intro j
        refine (hjoin j).imp_left ?_
        intro hj
        rcases List.mem_cons.mp hj with hj | hj
        · cases hj
        · exact hj
      | joinService i =>
        simp only [execute, hscript] at h
        split_ifs at h with hi
        obtain rfl := Option.some.inj h
        refine ⟨.serving rfl hrest ?_ hstop hworkers, hdrain, hattended, halive⟩
        intro j
        rcases hjoin j with hj | hj
        · rcases List.mem_cons.mp hj with hj | hj
          · obtain rfl := Command.joinService.inj hj
            exact Or.inr hi
          · exact Or.inl hj
        · exact Or.inr hj
      | setStop | notifyAll | joinWorkers => exact absurd (hbefore _ List.mem_cons_self) nofun
  | stopping hscript hexited =>
    rcases hscript with hscript | hscript
    · simp only [execute, hscript] at h
      obtain ⟨pool, hpool, rfl⟩ := Option.map_eq_some_iff.mp h
      refine ⟨.stopping (Or.inr rfl) hexited,
        ThreadPool.step_drain (a := .notifyAll) hdrain trivial hpool, ?_, halive⟩
      cases ThreadPool.step_effect hpool
      exact hattended
    · simp only [execute, hscript] at h
      obtain ⟨pool, hpool, rfl⟩ := Option.map_eq_some_iff.mp h
      have hdrained := ThreadPool.step_drain (a := .join) hdrain trivial hpool
      cases ThreadPool.step_effect hpool with
      | join hst hw => exact ⟨.stopped rfl hexited hw, hdrained, hattended, halive⟩
  | stopped hscript =>
    simp only [execute, hscript] at h
    cases h

theorem step_inv (hn : 0 < n) {s t : State m n} {a : Action m n} (hs : Inv s)
    (h : step s a = some t) : Inv t := by
  cases a with
  | handler i =>
    simp only [step] at h
    split_ifs at h with hi
    obtain rfl := Option.some.inj h
    exact hs.move (by simp [hi.1]) (by simp [hi.1]) nofun
  | addTask i =>
    simp only [step] at h
    split_ifs at h with hi
    obtain ⟨pool, hpool, rfl⟩ := Option.map_eq_some_iff.mp h
    exact hs.call hi hpool
  | advance i a =>
    simp only [step] at h
    split at h
    · rename_i k hi
      split_ifs at h with ha
      obtain ⟨pool, hpool, rfl⟩ := Option.map_eq_some_iff.mp h
      exact hs.advance hn hi ha hpool
    · cases h
  | done i =>
    simp only [step] at h
    split_ifs at h with hi
    obtain rfl := Option.some.inj h
    exact hs.move (by simp [hi]) (by simp [hi]) nofun
  | exit i =>
    simp only [step] at h
    split_ifs at h with hi
    obtain rfl := Option.some.inj h
    exact hs.move (by simp [hi.1]) (by simp [hi.1]) nofun
  | worker a =>
    simp only [step] at h
    split_ifs at h with ha
    obtain ⟨pool, hpool, rfl⟩ := Option.map_eq_some_iff.mp h
    exact hs.worker ha hpool
  | command => exact hs.command h

theorem Phase.exited {s : State m n} (hs : Phase s) (hscript : s.script = []) :
    (∀ i, s.services i = .exited) ∧ ∀ w, s.pool.workers w = .exited := by
  cases hs with
  | serving hs => simp [hs, poolStop] at hscript
  | stopping hs => rcases hs with hs | hs <;> simp [hs] at hscript
  | stopped _ hexited hworkers => exact ⟨hexited, hworkers⟩

theorem Inv.executed {s : State m n} (hs : Inv s) (hscript : s.script = []) {k : ℕ}
    (hk : k < s.pool.adders.length) : s.pool.executed.count k = 1 := by
  obtain ⟨hexited, hworkers⟩ := hs.phase.exited hscript
  have hget : s.pool.adders[k]? = some s.pool.adders[k] := List.getElem?_eq_getElem hk
  have haccepted : ThreadPool.accepted s.pool k = true := by
    rcases hs.attended k _ hget with hret | ⟨-, i, hi⟩
    · rw [ThreadPool.accepted, hget, hret]
      rfl
    · rw [hexited i] at hi
      cases hi
  have hload : WorkPool.load (ThreadPool.abstract s.pool) k = 0 :=
    WorkPool.load_eq_zero (hs.drain.drained hworkers)
      (by simp [ThreadPool.abstract, hworkers, ThreadPool.WorkerPc.task]) k
  have honce := hs.drain.once k
  rw [ThreadPool.places, hload, haccepted] at honce
  simpa using honce

theorem Inv.quiet {s : State m n} (hs : Inv s) (hscript : s.script = []) (a : Action m n) :
    step s a = none := by
  obtain ⟨hexited, hworkers⟩ := hs.phase.exited hscript
  cases a with
  | handler i | addTask i | advance i a | done i | exit i => simp [step, hexited i]
  | worker a =>
    simp only [step]
    split_ifs with ha
    · rw [Option.map_eq_none_iff]
      cases hp : ThreadPool.step s.pool a with
      | none => rfl
      | some pool =>
        exfalso
        cases ThreadPool.step_effect hp <;> simp_all [ofWorker]
    · rfl
  | command => simp [step, execute, hscript]

def stopDuringSweep : List (Action 2 1) :=
  let timer : Fin 2 := ⟨0, Nat.two_pos⟩
  let io : Fin 2 := ⟨1, Nat.one_lt_two⟩
  let w : Fin 1 := ⟨0, Nat.one_pos⟩
  [.handler timer, .addTask timer, .command, .advance timer (.testStop 0),
    .advance timer (.enqueue 0), .advance timer (.notifyOne 0 none), .done timer, .exit timer,
    .command, .command, .exit io, .command, .command, .command, .worker (.acquire w),
    .worker (.test w), .worker (.take w), .worker (.finish w), .worker (.acquire w),
    .worker (.test w), .worker (.take w), .command]

end Czrpc.Shutdown
