import Czrpc.Server

/-! The order in which the server applies the subscribe and cancel requests of one
connection. -/
namespace Czrpc.Server
open Execution Framing Protocol LastWrite WorkPool
variable {C : Type*} {n : ℕ}

def NoError (c : C) (_ : State C n) : Action C n → Prop
  | .headFailed d _ | .contentFailed d _ => d ≠ c
  | _ => True

def readAll (c : C) (rs : List RequestContent) : List (Action C n) :=
  rs.flatMap fun content => [.headRead c, .contentRead c content]

def serveAll (w : Fin n) (rs : List RequestContent) : List (Action C n) :=
  rs.flatMap fun _ => [.take w, .execute w []]

theorem noError_readAll {c d : C} {rs : List RequestContent} {a : Action C n}
    (ha : a ∈ readAll d rs) (s : State C n) : NoError c s a := by
  obtain ⟨content, -, ha⟩ := List.mem_flatMap.mp ha
  rcases List.mem_pair.mp ha with rfl | rfl <;> trivial

theorem noError_serveAll {c : C} {w : Fin n} {rs : List RequestContent} {a : Action C n}
    (ha : a ∈ serveAll w rs) (s : State C n) : NoError c s a := by
  obtain ⟨content, -, ha⟩ := List.mem_flatMap.mp ha
  rcases List.mem_pair.mp ha with rfl | rfl <;> trivial

variable [DecidableEq C]

/-- Whenever the requests read from the connection are `rs` and all of them have been
processed, its topics are those that `rs` give when applied in order. -/
def InOrder (n : ℕ) (c : C) (rs : List RequestContent) : Prop :=
  ∀ (as : List (Action C n)) (s : State C n), Conforms step (NoError c) initial as →
    run step initial as = some s → requestsOf c s.routed = rs →
    (∀ content, ¬ Unfinished s.pool (c, content)) →
    ∀ t, s.topics.holds c t = (TopicManager.empty.runRequests (fun _ => true) c rs).holds c t

/-- The table follows the order of execution, and nothing is dropped or made up
between `route` and the workers. -/
structure OrderInv (c : C) (s : State C n) : Prop where
  table : ∀ t, s.topics.holds c t = written false t (subscriptions (requestsOf c s.executed))
  tasks : ∀ task, task ∈ s.routed ↔ task ∈ s.executed ∨ Unfinished s.pool task

theorem initial_order (c : C) : OrderInv c (initial : State C n) where
  table t := TopicManager.holds_empty c t
  tasks task := by simp [initial, Unfinished, WorkPool.empty]

theorem order_handleError {c d : C} (hcd : d ≠ c) {s : State C n} (hs : OrderInv c s)
    (type : ClientType) {expired : List C} (he : d ∉ expired) :
    OrderInv c (handleError s d type expired) where
  table t := by
    rw [holds_handleError s type he, handleError_executed, hs.table]
    simp [Ne.symm hcd]
  tasks task := by
    rw [handleError_routed, handleError_executed, handleError_pool]
    exact hs.tasks task

theorem step_order {c : C} {s t : State C n} {a : Action C n} (hs : OrderInv c s)
    (hok : NoError c s a) (h : step s a = some t) : OrderInv c t := by
  cases step_effect h with
  | accept hc => exact ⟨hs.table, hs.tasks⟩
  | headRead hc => exact ⟨hs.table, hs.tasks⟩
  | @headFailed d type expired hc he =>
    exact order_handleError hok (s := setConn s d none type) ⟨hs.table, hs.tasks⟩ type he
  | @contentRead d type content hc =>
    refine ⟨hs.table, fun task => ?_⟩
    simp only [route, setConn, List.mem_append, List.mem_singleton, unfinished_addTask, hs.tasks task,
      or_assoc]
  | @contentFailed d type expired hc he =>
    exact order_handleError hok (s := setConn s d (some .head) type) ⟨hs.table, hs.tasks⟩ type he
  | take hp =>
    refine ⟨hs.table, fun task => ?_⟩
    rw [unfinished_take hp]
    exact hs.tasks task
  | @execute w expired d content pool hp he =>
    constructor
    · intro t
      simp only
      rw [TopicManager.holds_routerThread (by simpa using he), requestsOf_append,
        subscriptions_append, written_append, ← hs.table, requestsOf_cons]
      by_cases hcd : c = d
      · simp [hcd, requestsOf]
      · simp [hcd, Ne.symm hcd, requestsOf, subscriptions]
    · intro task
      simp only [List.mem_append, List.mem_singleton, hs.tasks task, unfinished_finish hp]
      tauto

theorem step_backlog {s t : State C 1} {a : Action C 1} (hs : s.executed ++ backlog s.pool = s.routed)
    (h : step s a = some t) : t.executed ++ backlog t.pool = t.routed := by
  cases step_effect h with
  | accept hc => exact hs
  | headRead hc => exact hs
  | headFailed hc he => simpa [setConn] using hs
  | contentRead hc =>
    simp only [route, setConn, backlog_addTask, ← List.append_assoc]
    rw [hs]
  | contentFailed hc he => simpa [setConn] using hs
  | take hp =>
    simp only [backlog_take hp]
    exact hs
  | execute hp he =>
    rw [backlog_finish hp] at hs
    simpa using hs

theorem requestsOf_executed_of_single {as : List (Action C 1)} {s : State C 1} {c : C}
    (hr : run step initial as = some s) (hdone : ∀ content, ¬ Unfinished s.pool (c, content)) :
    requestsOf c s.executed = requestsOf c s.routed := by
  have hback : s.executed ++ backlog s.pool = s.routed :=
    run_invariant (I := fun s => s.executed ++ backlog s.pool = s.routed)
      (fun _ _ _ => step_backlog) rfl hr
  have hnone : requestsOf c (backlog s.pool) = [] := by
    rw [List.eq_nil_iff_forall_not_mem]
    intro content hm
    apply hdone content
    rcases List.mem_append.mp ((mem_requestsOf _ _ _).mp hm) with hrun | hq
    · exact Or.inr ⟨0, Option.mem_toList.mp hrun⟩
    · exact Or.inl hq
  rw [← hback, requestsOf_append, hnone, List.append_nil]

theorem requestsOf_map (c : C) (rs : List RequestContent) :
    requestsOf c (rs.map fun content => (c, content)) = rs := by
  simp [requestsOf, List.filter_map, Function.comp_def]

theorem run_readAll {c : C} (rs : List RequestContent) {s : State C n} {type : ClientType}
    (hc : s.conns c = some ⟨some .head, type⟩) :
    ∃ t, run step s (readAll c rs) = some t ∧
      t.pool = ⟨s.pool.queue ++ rs.map fun content => (c, content), s.pool.running⟩ ∧
      t.routed = s.routed ++ rs.map (fun content => (c, content)) ∧ t.executed = s.executed := by
  induction rs generalizing s type with
  | nil => exact ⟨s, rfl, by simp, by simp, rfl⟩
  | cons content rs ih =>
    have hread : step s (.headRead c) = some (setConn s c (some .content) type) := by
      simp [step, hc]
    have hrouted : step (setConn s c (some .content) type) (.contentRead c content) =
        some (route (setConn (setConn s c (some .content) type) c (some .head) content.flag.type)
          c content) := by
      simp [step]
    obtain ⟨t, ht, hpool, hlog, hexec⟩ := ih (s := route (setConn (setConn s c (some .content) type)
      c (some .head) content.flag.type) c content) (setConn_conns_self _ _ _ _)
    refine ⟨t, ?_, ?_, ?_, hexec⟩
    · exact run_cons_eq_some.mpr ⟨_, hread, run_cons_eq_some.mpr ⟨_, hrouted, ht⟩⟩
    · simpa [route, setConn, addTask] using hpool
    · simpa [route, setConn] using hlog

theorem step_execute {c : C} {w : Fin n} {content : RequestContent} {s : State C n}
    (hw : s.pool.running w = some (c, content)) :
    ∃ t, step s (.execute w []) = some t ∧
      t.pool = ⟨s.pool.queue, Function.update s.pool.running w none⟩ ∧
      t.routed = s.routed ∧ t.executed = s.executed ++ [(c, content)] := by
  have hf : finish s.pool w =
      some ((c, content), ⟨s.pool.queue, Function.update s.pool.running w none⟩) := by
    simp [finish, hw]
  refine ⟨{ s with
    pool := ⟨s.pool.queue, Function.update s.pool.running w none⟩
    topics := s.topics.routerThread (fun c => c ∉ []) content c
    executed := s.executed ++ [(c, content)] }, ?_, rfl, rfl, rfl⟩
  simp [step, hf]

theorem step_take {w : Fin n} {task : C × RequestContent} {rest : List (C × RequestContent)}
    {s : State C n} (hw : s.pool.running w = none) (hq : s.pool.queue = task :: rest) :
    step s (.take w) =
      some { s with pool := ⟨rest, Function.update s.pool.running w (some task)⟩ } := by
  simp [step, WorkPool.take, hw, hq]

theorem run_serveAll {c : C} (w : Fin n) (rs : List RequestContent) {s : State C n}
    {rest : List (C × RequestContent)} (hw : s.pool.running w = none)
    (hq : s.pool.queue = rs.map (fun content => (c, content)) ++ rest) :
    ∃ t, run step s (serveAll w rs) = some t ∧ t.pool = ⟨rest, s.pool.running⟩ ∧
      t.routed = s.routed ∧ t.executed = s.executed ++ rs.map fun content => (c, content) := by
  induction rs generalizing s with
  | nil =>
    refine ⟨s, rfl, ?_, rfl, by simp⟩
    rw [List.map_nil, List.nil_append] at hq
    rw [← hq]
  | cons content rs ih =>
    have htake := step_take hw hq
    have hrun : ({ s with pool := ⟨rs.map (fun content => (c, content)) ++ rest,
        Function.update s.pool.running w (some (c, content))⟩ } : State C n).pool.running w =
        some (c, content) := Function.update_self _ _ _
    obtain ⟨u, hu, hpool, hrouted, hexec⟩ := step_execute hrun
    have hidle : u.pool.running = s.pool.running := by
      rw [hpool]
      simp only [Function.update_idem]
      rw [← hw, Function.update_eq_self]
    obtain ⟨t, ht, htpool, htrouted, htexec⟩ := ih (s := u) (hidle ▸ hw) (by rw [hpool])
    refine ⟨t, ?_, by rw [htpool, hidle], by rw [htrouted, hrouted], ?_⟩
    · exact run_cons_eq_some.mpr ⟨_, htake, run_cons_eq_some.mpr ⟨_, hu, ht⟩⟩
    · rw [htexec, hexec]
      simp

/-- With two workers, any request can be executed after all the others. -/
theorem exists_overtaken_run {m : ℕ} (c : C) (pre post : List RequestContent)
    (content : RequestContent) :
    ∃ (as : List (Action C (m + 2))) (s : State C (m + 2)),
      Conforms step (NoError c) initial as ∧ run step initial as = some s ∧
      requestsOf c s.routed = pre ++ content :: post ∧
      requestsOf c s.executed = pre ++ post ++ [content] ∧
      ∀ task, ¬ Unfinished s.pool task := by
  have haccept : step (initial : State C (m + 2)) (.accept c ⟨0⟩) =
      some (setConn initial c (some .head) ⟨0⟩) := rfl
  obtain ⟨s₁, h₁, hp₁, hl₁, he₁⟩ := run_readAll (n := m + 2) (pre ++ content :: post)
    (setConn_conns_self initial c (some .head) ⟨0⟩)
  have hq₁ : s₁.pool.queue = pre.map (fun content => (c, content)) ++
      ((c, content) :: post.map fun content => (c, content)) := by
    rw [hp₁]
    simp [setConn, initial, WorkPool.empty]
  have hr₁ : s₁.pool.running = fun _ => none := by rw [hp₁]; rfl
  -- worker 1 serves what comes before, worker 0 takes `content` and ends it when 1 has served the rest
  obtain ⟨s₂, h₂, hp₂, hl₂, he₂⟩ := run_serveAll 1 pre (by rw [hr₁]) hq₁
  have htake := step_take (s := s₂) (w := 0) (by rw [hp₂, hr₁]) (by rw [hp₂])
  obtain ⟨s₃, h₃, hp₃, hl₃, he₃⟩ := run_serveAll (c := c) 1 post
    (s := { s₂ with pool := ⟨post.map fun content => (c, content),
      Function.update s₂.pool.running 0 (some (c, content))⟩ })
    (by simp [hp₂, hr₁]) (List.append_nil _).symm
  have hrun : s₃.pool.running 0 = some (c, content) := by
    simp [hp₃]
  obtain ⟨s₄, h₄, hp₄, hl₄, he₄⟩ := step_execute hrun
  refine ⟨.accept c ⟨0⟩ :: (readAll c (pre ++ content :: post) ++ (serveAll 1 pre ++
    (.take 0 :: (serveAll 1 post ++ [.execute 0 []])))), s₄, ?_, ?_, ?_, ?_, ?_⟩
  · refine conforms_of_forall (fun a ha s => ?_) initial
    simp only [List.mem_cons, List.mem_append, List.not_mem_nil, or_false] at ha
    rcases ha with rfl | ha | ha | rfl | ha | rfl
    · trivial
    · exact noError_readAll ha s
    · exact noError_serveAll ha s
    · trivial
    · exact noError_serveAll ha s
    · trivial
  · refine run_cons_eq_some.mpr ⟨_, haccept, run_trans h₁ (run_trans h₂ ?_)⟩
    refine run_cons_eq_some.mpr ⟨_, htake, run_trans h₃ ?_⟩
    exact run_cons_eq_some.mpr ⟨_, h₄, rfl⟩
  · rw [hl₄, hl₃]
    simp only
    rw [hl₂, hl₁, requestsOf_append, requestsOf_map]
    rfl
  · rw [he₄, he₃]
    simp only
    rw [he₂, he₁]
    simp only [requestsOf_append, requestsOf_map, requestsOf_cons, if_pos]
    rfl
  · rintro task (hm | ⟨w, hw⟩)
    · rw [hp₄, hp₃] at hm
      cases hm
    · rw [hp₄, hp₃, hp₂, hr₁] at hw
      simp only [Function.update_apply] at hw
      split_ifs at hw

theorem written_eq_of_mem_iff {as bs : List RequestContent} {t : Bytes}
    (h : ∀ content, content ∈ as ↔ content ∈ bs)
    (hboth : ¬ ((t, true) ∈ subscriptions as ∧ (t, false) ∈ subscriptions as)) :
    written false t (subscriptions as) = written false t (subscriptions bs) := by
  have hlast : lastWrite t (subscriptions as) = lastWrite t (subscriptions bs) := by
    apply lastWrite_eq_of_mem_iff
    · intro v
      simp only [subscriptions, List.mem_filterMap, h]
    · intro v w hv hw
      cases v <;> cases w
      · rfl
      · exact absurd ⟨hw, hv⟩ hboth
      · exact absurd ⟨hv, hw⟩ hboth
      · rfl
  rw [written, hlast, written]

theorem exists_reordering {rs : List RequestContent} {t : Bytes}
    (hsub : (t, true) ∈ subscriptions rs) (hcancel : (t, false) ∈ subscriptions rs) :
    ∃ pre content post, rs = pre ++ content :: post ∧
      written false t (subscriptions (pre ++ post ++ [content])) ≠
        written false t (subscriptions rs) := by
  have hboth : ∀ v, (t, v) ∈ subscriptions rs := by
    intro v
    cases v
    · exact hcancel
    · exact hsub
  have hother := hboth (!written false t (subscriptions rs))
  obtain ⟨content, hm, hcontent⟩ := List.mem_filterMap.mp hother
  obtain ⟨pre, post, hrs⟩ := List.append_of_mem hm
  refine ⟨pre, content, post, hrs, ?_⟩
  have hlast : subscriptions [content] = [(t, !written false t (subscriptions rs))] := by
    simp [subscriptions, hcontent]
  rw [subscriptions_append, written_append, hlast, written_cons, if_pos rfl, written_nil]
  cases written false t (subscriptions rs) <;> decide

/-- The order of the requests is kept for every schedule exactly if there is one
worker or no topic is both subscribed and cancelled. -/
theorem in_order_iff (hn : 1 ≤ n) (c : C) (rs : List RequestContent) :
    InOrder n c rs ↔
      n = 1 ∨ ∀ t, ¬ ((t, true) ∈ subscriptions rs ∧ (t, false) ∈ subscriptions rs) := by
  have hexpected : ∀ t, ((TopicManager.empty : TopicManager C).runRequests (fun _ => true) c rs).holds
      c t = written false t (subscriptions rs) := by
    intro t
    rw [TopicManager.holds_runRequests rfl, TopicManager.holds_empty]
  constructor
  · intro hord
    by_contra hcond
    obtain ⟨hne, hboth⟩ := not_or.mp hcond
    simp only [not_forall, not_not] at hboth
    obtain ⟨t, hsub, hcancel⟩ := hboth
    obtain ⟨m, rfl⟩ : ∃ m, n = m + 2 := ⟨n - 2, by omega⟩
    obtain ⟨pre, content, post, hrs, hdiffer⟩ := exists_reordering hsub hcancel
    obtain ⟨as, s, hconf, hrun, hrouted, hexec, hdone⟩ := exists_overtaken_run c pre post content
    have hinv : OrderInv c s := conforming_invariant (fun _ _ _ => step_order) (initial_order c) hconf hrun
    have hholds := hord as s hconf hrun (hrouted.trans hrs.symm) (fun content => hdone (c, content)) t
    rw [hinv.table, hexec, hexpected] at hholds
    exact hdiffer hholds
  · intro hcond as s hconf hrun hrouted hdone t
    have hinv : OrderInv c s := conforming_invariant (fun _ _ _ => step_order) (initial_order c) hconf hrun
    rw [hinv.table, hexpected]
    rcases hcond with rfl | hcond
    · rw [requestsOf_executed_of_single hrun hdone, hrouted]
    · have hsame : ∀ content, content ∈ rs ↔ content ∈ requestsOf c s.executed := by
        intro content
        rw [← hrouted, mem_requestsOf, mem_requestsOf, hinv.tasks, or_iff_left (hdone content)]
      exact (written_eq_of_mem_iff hsame (hcond t)).symm

def topicRequest (topicName flag : Bytes) : RequestContent :=
  ⟨0, ⟨.serialize, .subClient⟩, topicName, [], flag⟩

theorem in_order_distinct_topics : 1 ≤ 4 ∧ InOrder 4 (0 : ℕ)
    [topicRequest [116] subscribeTopicFlag, topicRequest [117] cancelSubscribeTopicFlag] := by
  refine ⟨by decide, (in_order_iff (by decide) 0 _).mpr (Or.inr ?_)⟩
  have hrequests : subscriptions [topicRequest [116] subscribeTopicFlag,
      topicRequest [117] cancelSubscribeTopicFlag] = [([116], true), ([117], false)] := by decide
  rw [hrequests]
  rintro t ⟨hsub, hcancel⟩
  have h116 : t = [116] := by simpa using hsub
  have h117 : t = [117] := by simpa using hcancel
  exact absurd (h116.symm.trans h117) (by decide)

/-- With two workers, a cancel overtakes the subscribe before it. -/
theorem out_of_order : ¬ ∀ (n c : ℕ) (rs : List RequestContent), 1 ≤ n → InOrder n c rs := by
  intro h
  obtain ⟨as, s, hconf, hrun, hrouted, hexec, hdone⟩ := exists_overtaken_run (m := 0) (0 : ℕ) []
    [topicRequest [116] cancelSubscribeTopicFlag] (topicRequest [116] subscribeTopicFlag)
  have hinv : OrderInv 0 s := conforming_invariant (fun _ _ _ => step_order) (initial_order 0) hconf hrun
  have hholds := h 2 0 _ (by decide) as s hconf hrun hrouted (fun content => hdone (0, content)) [116]
  rw [hinv.table, hexec] at hholds
  exact absurd hholds (by decide)

end Czrpc.Server
