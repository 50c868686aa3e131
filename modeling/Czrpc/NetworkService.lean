import Mathlib.Algebra.Order.BigOperators.Group.Finset
import Czrpc.NetworkTraffic

/-! What the server does for the requests it gets, whatever the connections lose: it runs each of them
at most once and calls a handler for it at most once. -/
namespace Czrpc.Network
open Execution Framing Protocol ServerWrites WorkPool
open Dispatch (Protobuf)
open Pipe (frames)

variable {C H : Type*} {M D : Type} {n : ℕ}

theorem sum_agree {f g : Fin n → ℕ} (w : Fin n) (h : ∀ v, v ≠ w → f v = g v) :
    ∑ v, f v + g w = ∑ v, g v + f w := by
  have hrest : ∑ v ∈ Finset.univ.erase w, f v = ∑ v ∈ Finset.univ.erase w, g v :=
    Finset.sum_congr rfl fun v hv => h v (Finset.ne_of_mem_erase hv)
  rw [← Finset.add_sum_erase _ f (Finset.mem_univ w), ← Finset.add_sum_erase _ g (Finset.mem_univ w),
    hrest]
  omega

section Served
variable (p : C × RequestContent → Bool)

def inWork (pool : Pool n (C × RequestContent)) : ℕ := ∑ w, (pool.running w).toList.countP p

def begunBy (begun : Fin n → Bool) (running : Fin n → Option (C × RequestContent)) (w : Fin n) : ℕ :=
  if begun w then (running w).toList.countP p else 0

def begunWork (s : ServerWrites.State C H n) : ℕ := ∑ w, begunBy p s.begun s.core.pool.running w

/-- Every request that was routed is queued, running or done. -/
def Accounted (s : Server.State C n) : Prop :=
  s.routed.countP p = s.executed.countP p + s.pool.queue.countP p + inWork p s.pool

variable {p}

theorem inWork_update (pool : Pool n (C × RequestContent)) (queue : List (C × RequestContent))
    (w : Fin n) (next : Option (C × RequestContent)) :
    inWork p ⟨queue, Function.update pool.running w next⟩ + (pool.running w).toList.countP p =
      inWork p pool + next.toList.countP p := by
  have hsum := sum_agree (f := fun v => (Function.update pool.running w next v).toList.countP p)
    (g := fun v => (pool.running v).toList.countP p) w fun v hv => by simp [hv]
  simpa [inWork] using hsum

theorem begunWork_le (s : ServerWrites.State C H n) : begunWork p s ≤ inWork p s.core.pool := by
  refine Finset.sum_le_sum ?_
  intro w _
  unfold begunBy
  split <;> simp

theorem begun_begunWork {s : ServerWrites.State C H n} {w : Fin n} {task : C × RequestContent}
    (hw : s.core.pool.running w = some task) (hb : s.begun w = false) :
    begunWork p { s with begun := Function.update s.begun w true } =
      begunWork p s + [task].countP p := by
  have hsum := sum_agree (f := begunBy p (Function.update s.begun w true) s.core.pool.running)
    (g := begunBy p s.begun s.core.pool.running) w fun v hv => by simp [begunBy, hv]
  have hbefore : begunBy p s.begun s.core.pool.running w = 0 := by simp [begunBy, hb]
  have hafter : begunBy p (Function.update s.begun w true) s.core.pool.running w =
      [task].countP p := by
    simp [begunBy, hw]
  simp only [begunWork]
  omega

theorem rpcComing_kept (pb : Protobuf M D) (s : ServerWrites.State C H n) (c : C)
    (content : RequestContent) (session : Option Bytes) :
    (rpcComing pb s c content session).core = s.core ∧
      (rpcComing pb s c content session).begun = s.begun ∧
      ((rpcComing pb s c content session).responses = s.responses ∨
        (rpcComing pb s c content session).responses = s.responses ++ [(c, content.callId)]) := by
  have hroute : ∀ table, (ServerWrites.route s table c content).core = s.core ∧
      (ServerWrites.route s table c content).begun = s.begun ∧
      ((ServerWrites.route s table c content).responses = s.responses ∨
        (ServerWrites.route s table c content).responses = s.responses ++ [(c, content.callId)]) := by
    intro table
    unfold ServerWrites.route
    split_ifs
    · exact ⟨rfl, rfl, Or.inr rfl⟩
    · exact ⟨rfl, rfl, Or.inl rfl⟩
  unfold rpcComing
  split_ifs
  · split
    · exact hroute _
    · exact ⟨rfl, rfl, Or.inl rfl⟩
  · split
    · exact hroute _
    · exact ⟨rfl, rfl, Or.inl rfl⟩
  · exact ⟨rfl, rfl, Or.inl rfl⟩

variable [DecidableEq C]

theorem step_accounted {s t : Server.State C n} {a : Server.Action C n} (hs : Accounted p s)
    (h : Server.step s a = some t) : Accounted p t := by
  unfold Accounted at hs ⊢
  cases Server.step_effect h with
  | accept | headRead => exact hs
  | headFailed | contentFailed =>
    rw [Server.handleError_routed, Server.handleError_executed, Server.handleError_pool]
    exact hs
  | @contentRead c type content =>
    simp only [Server.route, Server.setConn, addTask, List.countP_append, hs, inWork]
    omega
  | @take w pool hp =>
    obtain ⟨task, rest, hw, hq, rfl⟩ := take_eq_some hp
    have hsum := inWork_update (p := p) s.pool rest w (some task)
    have hfront : (task :: rest).countP p = [task].countP p + rest.countP p := by
      rw [← List.countP_append, List.singleton_append]
    simp only [hw, Option.toList_none, Option.toList_some, List.countP_nil] at hsum
    dsimp only
    rw [hs, hq, hfront]
    omega
  | @execute w expired c content pool hp =>
    obtain ⟨hw, rfl⟩ := finish_eq_some hp
    have hsum := inWork_update (p := p) s.pool s.pool.queue w none
    simp only [hw, Option.toList_none, Option.toList_some, List.countP_nil] at hsum
    simp only [List.countP_append]
    rw [hs]
    omega

/-- A response object is made for a request whose handler has been called, and only one. -/
def Called (s : ServerWrites.State C H n) : Prop :=
  ∀ c id, s.responses.count (c, id) ≤
    s.core.executed.countP (fun e => e.1 = c ∧ e.2.callId = id) +
      begunWork (fun e => e.1 = c ∧ e.2.callId = id) s

theorem core_begunWork {s : ServerWrites.State C H n} {a : Server.Action C n} {core : Server.State C n}
    (h : Server.step s.core a = some core) :
    s.core.executed.countP p + begunWork p s ≤
      core.executed.countP p + begunWork p { s with core := core, begun := ended s.begun a } := by
  cases Server.step_effect h with
  | accept | headRead | contentRead => exact Nat.le_refl _
  | headFailed | contentFailed =>
    simp only [begunWork, Server.handleError_executed, Server.handleError_pool]
    exact Nat.le_refl _
  | @take w pool hp =>
    obtain ⟨task, rest, hw, -, rfl⟩ := take_eq_some hp
    refine Nat.add_le_add_left (Finset.sum_le_sum ?_) _
    intro v _
    by_cases hv : v = w
    · subst v
      simp [begunBy, hw]
    · simp [begunBy, hv, ended]
  | @execute w expired c content pool hp =>
    obtain ⟨hw, rfl⟩ := finish_eq_some hp
    have hsum := sum_agree (f := begunBy p (ended s.begun (.execute w expired : Server.Action C n))
      (Function.update s.core.pool.running w none)) (g := begunBy p s.begun s.core.pool.running) w
      fun v hv => by simp [begunBy, ended, hv]
    have hone : begunBy p s.begun s.core.pool.running w ≤ [(c, content)].countP p := by
      rw [begunBy, hw]
      split
      · exact Nat.le_refl _
      · exact Nat.zero_le _
    simp only [begunWork, List.countP_append]
    omega

end Served

variable [DecidableEq C] {pb : Protobuf M D}

theorem step_called {s s' : ServerWrites.State C H n} {a : ServerWrites.Action C H M n} (hs : Called s)
    (h : ServerWrites.step pb s a = some s') : Called s' := by
  intro c id
  have hold := hs c id
  cases a with
  | core a =>
    obtain ⟨-, h⟩ := Option.ite_none_right_eq_some.mp h
    obtain ⟨core, hcore, rfl⟩ := Option.map_eq_some_iff.mp h
    exact hold.trans (core_begunWork hcore)
  | call w session =>
    simp only [ServerWrites.step] at h
    split at h
    · rename_i d content hw
      obtain ⟨⟨-, hb⟩, h⟩ := Option.ite_none_right_eq_some.mp h
      obtain rfl := Option.some.inj h
      obtain ⟨hcore, hbegun, hresponses⟩ := rpcComing_kept pb
        { s with begun := Function.update s.begun w true } d content session
      have hwork : begunWork (fun e => e.1 = c ∧ e.2.callId = id) (rpcComing pb
          { s with begun := Function.update s.begun w true } d content session) =
          begunWork (fun e => e.1 = c ∧ e.2.callId = id) s +
            [(d, content)].countP (fun e => e.1 = c ∧ e.2.callId = id) := by
        rw [← begun_begunWork hw hb]
        simp only [begunWork, hcore, hbegun]
      rw [hwork, hcore]
      rcases hresponses with hsame | hmore
      · rw [hsame]
        dsimp only
        omega
      · have hone : [(d, content.callId)].count (c, id) ≤
            [(d, content)].countP (fun e => e.1 = c ∧ e.2.callId = id) := by
          simp [List.count_singleton, List.countP_singleton]
        rw [hmore, List.count_append]
        dsimp only
        omega
    · cases h
  | bind | unbind | bindRaw | unbindRaw =>
    obtain rfl := Option.some.inj h
    exact hold
  | setResponse r message | setResponseRaw r rawData =>
    obtain ⟨rsp, -, rfl⟩ := Option.map_eq_some_iff.mp h
    exact hold
  | publish t topicName message =>
    simp only [ServerWrites.step, publishImpl] at h
    split at h
    · split at h
      · obtain rfl := Option.some.inj h
        exact hold
      · cases h
    · obtain rfl := Option.some.inj h
      exact hold
  | publishRaw t topicName message =>
    simp only [ServerWrites.step, publishImpl] at h
    split at h
    · obtain rfl := Option.some.inj h
      exact hold
    · cases h
  | push t expired =>
    simp only [ServerWrites.step, pushNext] at h
    split at h
    · obtain rfl := Option.some.inj h
      cases expired <;> exact hold
    · cases h
  | endPublish t =>
    simp only [ServerWrites.step, endPublish] at h
    split at h
    · obtain rfl := Option.some.inj h
      exact hold
    · cases h

theorem server_accounted {p : C × RequestContent → Bool} {s s' : ServerWrites.State C H n}
    {a : ServerWrites.Action C H M n} (hs : Accounted p s.core)
    (h : ServerWrites.step pb s a = some s') : Accounted p s'.core := by
  cases Answers.step_effect h with
  | core hstep => exact step_accounted hs hstep
  | opened _ _ _ hc | wrote _ _ hc =>
    rw [hc]
    exact hs

omit [DecidableEq C] in
theorem initial_accounted (p : C × RequestContent → Bool) :
    Accounted p (ServerWrites.initial : ServerWrites.State C H n).core := by
  simp [Accounted, inWork, ServerWrites.initial, Server.initial, WorkPool.empty]

theorem countP_routed (c : C) (r : RequestContent → Bool) (log : List (C × RequestContent)) :
    log.countP (fun e => e.1 = c ∧ r e.2) = (requestsOf c log).countP r := by
  simp only [requestsOf, List.countP_map, List.countP_filter]
  refine List.countP_congr ?_
  intro e _
  simp [and_comm]

theorem count_eq_countP (c : C) (q : RequestContent) (log : List (C × RequestContent)) :
    log.count (c, q) = log.countP fun e => e.1 = c ∧ (e.2 == q) := by
  rw [List.count]
  refine List.countP_congr ?_
  rintro ⟨d, content⟩ _
  simp

end Czrpc.Network
