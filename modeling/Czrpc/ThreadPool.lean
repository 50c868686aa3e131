import Czrpc.Execution
import Czrpc.WorkPool

/-! The class `thread_pool`: callers of `add_task`, `n` workers in `run_task` and one
caller of `stop`. The mutex guards the queue and is held by a worker from the moment it
wakes until it blocks, takes a task or leaves; the stop flag is set and read without it.
A notification reaches only workers that are blocked, and a worker may also wake without
one. -/
namespace Czrpc.ThreadPool
open Execution

/-- Where a worker stands in `run_task`. `holding`, `parking` and `passed` hold the mutex:
before the predicate of `wait` is tested, after it was false, and after it was true. A
worker that is `notified` has yet to take the mutex again. -/
inductive WorkerPc
  | ready
  | holding
  | parking
  | blocked
  | notified
  | passed
  | running (task : ℕ)
  | exited
  deriving DecidableEq, Repr

/-- Where a call of `add_task` stands. `enqueued` has released the mutex and not yet
notified. -/
inductive AddPc
  | called
  | tested
  | enqueued
  | returned
  | threw
  deriving DecidableEq, Repr

inductive StopPc
  | idle
  | flagged
  | notified
  | joined
  deriving DecidableEq, Repr

/-- A task is named by the number of its call of `add_task`. `executed` are the tasks that
have been run. -/
structure State (n : ℕ) where
  isStop : Bool
  queue : List ℕ
  mutex : Option (Fin n)
  workers : Fin n → WorkerPc
  adders : List AddPc
  stopper : StopPc
  executed : List ℕ

variable {n : ℕ}

def initial : State n := ⟨false, [], none, fun _ => .ready, [], .idle, []⟩

inductive Action (n : ℕ)
  | call
  | testStop (k : ℕ)
  | enqueue (k : ℕ)
  | notifyOne (k : ℕ) (w : Option (Fin n))
  | acquire (w : Fin n)
  | test (w : Fin n)
  | block (w : Fin n)
  | take (w : Fin n)
  | finish (w : Fin n)
  | wake (w : Fin n)
  | setStop
  | notifyAll
  | join
  deriving DecidableEq, Repr

def setWorker (s : State n) (w : Fin n) (pc : WorkerPc) : State n :=
  { s with workers := Function.update s.workers w pc }

def setAdder (s : State n) (k : ℕ) (pc : AddPc) : State n := { s with adders := s.adders.set k pc }

def WorkerPc.wake : WorkerPc → WorkerPc
  | .blocked => .notified
  | pc => pc

def predicate (s : State n) : Bool := s.isStop || !s.queue.isEmpty

def takeTask (s : State n) (w : Fin n) : Option (State n) :=
  if s.isStop && s.queue.isEmpty then some { setWorker s w .exited with mutex := none }
  else
    match s.queue with
    | task :: rest => some { setWorker s w (.running task) with queue := rest, mutex := none }
    | [] => none

/-- `notify_one` wakes some blocked worker, if there is one. -/
def notifyOne (s : State n) : Option (Fin n) → Option (State n)
  | some w => if s.workers w = .blocked then some (setWorker s w .notified) else none
  | none => if ∀ w, s.workers w ≠ .blocked then some s else none

def step (s : State n) : Action n → Option (State n)
  | .call => some { s with adders := s.adders ++ [.called] }
  -- the flag is read without the mutex
  | .testStop k =>
    if s.adders[k]? = some .called then
      some (setAdder s k (if s.isStop then .threw else .tested))
    else none
  | .enqueue k =>
    if s.adders[k]? = some .tested ∧ s.mutex = none then
      some { setAdder s k .enqueued with queue := s.queue ++ [k] }
    else none
  | .notifyOne k w =>
    if s.adders[k]? = some .enqueued then notifyOne (setAdder s k .returned) w else none
  | .acquire w =>
    if (s.workers w = .ready ∨ s.workers w = .notified) ∧ s.mutex = none then
      some { setWorker s w .holding with mutex := some w }
    else none
  | .test w =>
    if s.workers w = .holding then
      some (setWorker s w (if predicate s then .passed else .parking))
    else none
  | .block w =>
    if s.workers w = .parking then some { setWorker s w .blocked with mutex := none } else none
  | .take w => if s.workers w = .passed then takeTask s w else none
  | .finish w =>
    match s.workers w with
    | .running task => some { setWorker s w .ready with executed := s.executed ++ [task] }
    | _ => none
  -- a spurious wakeup
  | .wake w => if s.workers w = .blocked then some (setWorker s w .notified) else none
  -- `stop` sets the flag and notifies without the mutex
  | .setStop =>
    if s.stopper = .idle then some { s with isStop := true, stopper := .flagged } else none
  | .notifyAll =>
    if s.stopper = .flagged then
      some { s with workers := fun w => (s.workers w).wake, stopper := .notified }
    else none
  | .join =>
    if s.stopper = .notified ∧ ∀ w, s.workers w = .exited then
      some { s with stopper := .joined }
    else none

inductive Effect (s : State n) : Action n → State n → Prop
  | call : Effect s .call { s with adders := s.adders ++ [.called] }
  | refuse {k : ℕ} (hk : s.adders[k]? = some .called) (hs : s.isStop = true) :
      Effect s (.testStop k) (setAdder s k .threw)
  | accept {k : ℕ} (hk : s.adders[k]? = some .called) (hs : s.isStop = false) :
      Effect s (.testStop k) (setAdder s k .tested)
  | enqueue {k : ℕ} (hk : s.adders[k]? = some .tested) (hm : s.mutex = none) :
      Effect s (.enqueue k) { setAdder s k .enqueued with queue := s.queue ++ [k] }
  | notifyOne {k : ℕ} {w : Fin n} (hk : s.adders[k]? = some .enqueued)
      (hw : s.workers w = .blocked) :
      Effect s (.notifyOne k (some w)) (setWorker (setAdder s k .returned) w .notified)
  | notifyNone {k : ℕ} (hk : s.adders[k]? = some .enqueued) (hw : ∀ w, s.workers w ≠ .blocked) :
      Effect s (.notifyOne k none) (setAdder s k .returned)
  | acquire {w : Fin n} (hw : s.workers w = .ready ∨ s.workers w = .notified) (hm : s.mutex = none) :
      Effect s (.acquire w) { setWorker s w .holding with mutex := some w }
  | pass {w : Fin n} (hw : s.workers w = .holding) (hp : predicate s = true) :
      Effect s (.test w) (setWorker s w .passed)
  | park {w : Fin n} (hw : s.workers w = .holding) (hp : predicate s = false) :
      Effect s (.test w) (setWorker s w .parking)
  | block {w : Fin n} (hw : s.workers w = .parking) :
      Effect s (.block w) { setWorker s w .blocked with mutex := none }
  | leave {w : Fin n} (hw : s.workers w = .passed) (hs : s.isStop = true) (hq : s.queue = []) :
      Effect s (.take w) { setWorker s w .exited with mutex := none }
  | take {w : Fin n} {task : ℕ} {rest : List ℕ} (hw : s.workers w = .passed)
      (hq : s.queue = task :: rest) :
      Effect s (.take w) { setWorker s w (.running task) with queue := rest, mutex := none }
  | finish {w : Fin n} {task : ℕ} (hw : s.workers w = .running task) :
      Effect s (.finish w) { setWorker s w .ready with executed := s.executed ++ [task] }
  | wake {w : Fin n} (hw : s.workers w = .blocked) : Effect s (.wake w) (setWorker s w .notified)
  | setStop (hs : s.stopper = .idle) :
      Effect s .setStop { s with isStop := true, stopper := .flagged }
  | notifyAll (hs : s.stopper = .flagged) :
      Effect s .notifyAll { s with workers := fun w => (s.workers w).wake, stopper := .notified }
  | join (hs : s.stopper = .notified) (hw : ∀ w, s.workers w = .exited) :
      Effect s .join { s with stopper := .joined }

theorem takeTask_effect {s t : State n} {w : Fin n} (hw : s.workers w = .passed)
    (h : takeTask s w = some t) : Effect s (.take w) t := by
  unfold takeTask at h
  split_ifs at h with hc
  · obtain rfl := Option.some.inj h
    obtain ⟨hs, hq⟩ : s.isStop = true ∧ s.queue = [] := by simpa using hc
    exact .leave hw hs hq
  · split at h
    · rename_i task rest hq
      obtain rfl := Option.some.inj h
      exact .take hw hq
    · cases h

theorem notifyOne_effect {s t : State n} {k : ℕ} {w : Option (Fin n)}
    (hk : s.adders[k]? = some .enqueued) (h : notifyOne (setAdder s k .returned) w = some t) :
    Effect s (.notifyOne k w) t := by
  cases w with
  | some w =>
    simp only [notifyOne] at h
    split_ifs at h with hw
    obtain rfl := Option.some.inj h
    exact .notifyOne hk hw
  | none =>
    simp only [notifyOne] at h
    split_ifs at h with hw
    obtain rfl := Option.some.inj h
    exact .notifyNone hk hw

theorem step_effect {s t : State n} {a : Action n} (h : step s a = some t) : Effect s a t := by
  cases a with
  | call =>
    obtain rfl := Option.some.inj h
    exact .call
  | testStop k =>
    simp only [step] at h
    split_ifs at h with hk hs
    · obtain rfl := Option.some.inj h
      exact .refuse hk hs
    · obtain rfl := Option.some.inj h
      exact .accept hk (by simpa using hs)
  | enqueue k =>
    simp only [step] at h
    split_ifs at h with hk
    obtain rfl := Option.some.inj h
    exact .enqueue hk.1 hk.2
  | notifyOne k w =>
    simp only [step] at h
    split_ifs at h with hk
    exact notifyOne_effect hk h
  | acquire w =>
    simp only [step] at h
    split_ifs at h with hw
    obtain rfl := Option.some.inj h
    exact .acquire hw.1 hw.2
  | test w =>
    simp only [step] at h
    split_ifs at h with hw hp
    · obtain rfl := Option.some.inj h
      exact .pass hw hp
    · obtain rfl := Option.some.inj h
      exact .park hw (by simpa using hp)
  | block w =>
    simp only [step] at h
    split_ifs at h with hw
    obtain rfl := Option.some.inj h
    exact .block hw
  | take w =>
    simp only [step] at h
    split_ifs at h with hw
    exact takeTask_effect hw h
  | finish w =>
    simp only [step] at h
    split at h
    · rename_i task hw
      obtain rfl := Option.some.inj h
      exact .finish hw
    · cases h
  | wake w =>
    simp only [step] at h
    split_ifs at h with hw
    obtain rfl := Option.some.inj h
    exact .wake hw
  | setStop =>
    simp only [step] at h
    split_ifs at h with hs
    obtain rfl := Option.some.inj h
    exact .setStop hs
  | notifyAll =>
    simp only [step] at h
    split_ifs at h with hs
    obtain rfl := Option.some.inj h
    exact .notifyAll hs
  | join =>
    simp only [step] at h
    split_ifs at h with hs
    obtain rfl := Option.some.inj h
    exact .join hs.1 hs.2

@[simp] theorem setWorker_self (s : State n) (w : Fin n) (pc : WorkerPc) :
    (setWorker s w pc).workers w = pc := Function.update_self _ _ _

theorem setWorker_of_ne (s : State n) {v w : Fin n} (h : v ≠ w) (pc : WorkerPc) :
    (setWorker s w pc).workers v = s.workers v := Function.update_of_ne h _ _

def WorkerPc.task : WorkerPc → Option ℕ
  | .running task => some task
  | _ => none

/-- What the pool is for: a queue of tasks and a task, at most, for each worker. -/
def abstract (s : State n) : WorkPool.Pool n ℕ := ⟨s.queue, fun w => (s.workers w).task⟩

theorem wake_task (pc : WorkerPc) : pc.wake.task = pc.task := by
  cases pc <;> rfl

theorem task_setWorker (s : State n) (w : Fin n) (pc : WorkerPc) :
    (fun v => ((setWorker s w pc).workers v).task) =
      Function.update (fun v => (s.workers v).task) w pc.task := by
  funext v
  by_cases h : v = w
  · subst v
    rw [setWorker_self, Function.update_self]
  · rw [setWorker_of_ne s h, Function.update_of_ne h]

theorem abstract_setWorker {s : State n} {w : Fin n} {pc : WorkerPc}
    (h : pc.task = (s.workers w).task) : abstract (setWorker s w pc) = abstract s := by
  unfold abstract
  rw [task_setWorker, h, Function.update_eq_self]
  rfl

/-- What an action does to the pool of the abstract model and to the log of the tasks that
have been run. -/
inductive PoolStep : Action n → WorkPool.Pool n ℕ × List ℕ → WorkPool.Pool n ℕ × List ℕ → Prop
  | enqueue {p : WorkPool.Pool n ℕ} {log : List ℕ} (k : ℕ) :
      PoolStep (.enqueue k) (p, log) (WorkPool.addTask p k, log)
  | take {p q : WorkPool.Pool n ℕ} {log : List ℕ} {w : Fin n} (h : WorkPool.take p w = some q) :
      PoolStep (.take w) (p, log) (q, log)
  | finish {p q : WorkPool.Pool n ℕ} {log : List ℕ} {w : Fin n} {task : ℕ}
      (h : WorkPool.finish p w = some (task, q)) :
      PoolStep (.finish w) (p, log) (q, log ++ [task])
  | skip {a : Action n} {p : WorkPool.Pool n ℕ} {log : List ℕ} (h : ∀ k, a ≠ .enqueue k) :
      PoolStep a (p, log) (p, log)

theorem PoolStep.move {s : State n} {a : Action n} {w : Fin n} {pc : WorkerPc} {log : List ℕ}
    (ha : ∀ k, a ≠ .enqueue k) (h : pc.task = (s.workers w).task) :
    PoolStep a (abstract s, log) (abstract (setWorker s w pc), log) := by
  rw [abstract_setWorker h]
  exact .skip ha

/-- Every step of the code is a step of the abstract pool, or none. -/
theorem step_refines {s t : State n} {a : Action n} (h : step s a = some t) :
    PoolStep a (abstract s, s.executed) (abstract t, t.executed) := by
  cases step_effect h with
  | call | refuse | accept | notifyNone | setStop | join => exact .skip (by simp)
  | @enqueue k => exact .enqueue k
  | @notifyOne k w hk hw => exact .move (s := s) (w := w) (by simp) (by rw [hw]; rfl)
  | @acquire w hw =>
    exact .move (s := s) (w := w) (by simp) (by rcases hw with hw | hw <;> rw [hw] <;> rfl)
  | pass hw => exact .move (by simp) (by rw [hw]; rfl)
  | park hw => exact .move (by simp) (by rw [hw]; rfl)
  | @block w hw => exact .move (s := s) (w := w) (by simp) (by rw [hw]; rfl)
  | @leave w hw => exact .move (s := s) (w := w) (by simp) (by rw [hw]; rfl)
  | @take w task rest hw hq =>
    refine .take ?_
    have hidle : (abstract s).running w = none := by simp [abstract, hw, WorkerPc.task]
    have hqueue : (abstract s).queue = task :: rest := hq
    unfold WorkPool.take
    rw [hidle, hqueue]
    simp only [abstract, task_setWorker]
    rfl
  | @finish w task hw =>
    have hbusy : (abstract s).running w = some task := by simp [abstract, hw, WorkerPc.task]
    have hfinish : WorkPool.finish (abstract s) w = some (task, abstract (setWorker s w .ready)) := by
      unfold WorkPool.finish
      rw [hbusy]
      simp only [abstract, task_setWorker]
      rfl
    exact .finish hfinish
  | wake hw => exact .move (by simp) (by rw [hw]; rfl)
  | notifyAll hs =>
    have hkeep : abstract { s with workers := fun w => (s.workers w).wake, stopper := .notified } =
        abstract s := by
      simp only [abstract, wake_task]
    rw [hkeep]
    exact .skip (by simp)

end Czrpc.ThreadPool
