import Czrpc.Execution
import Czrpc.TopicManager
import Czrpc.WorkPool

/-! The server as far as subscriptions go: the read loop of each connection on its
io thread, the pool of `n` workers that `route` hands the requests to, and the
table of topics. -/
namespace Czrpc.Server
open Execution Framing Protocol LastWrite WorkPool

inductive Read
  | head
  | content
  deriving DecidableEq, Repr

/-- A `connection`. Its read loop has ended when no read is left; `type_` is set by
each request, and not initialised before. -/
structure Connection where
  reading : Option Read
  type : ClientType
  deriving DecidableEq, Repr

/-- `routed` logs the requests in the order in which they were handed to `route`,
and `executed` in the order in which the workers ran them. -/
structure State (C : Type*) (n : ℕ) where
  conns : C → Option Connection
  pool : Pool n (C × RequestContent)
  topics : TopicManager C
  routed : List (C × RequestContent)
  executed : List (C × RequestContent)

variable {C : Type*} {n : ℕ}

def initial : State C n := ⟨fun _ => none, WorkPool.empty, .empty, [], []⟩

inductive Action (C : Type*) (n : ℕ)
  | accept (c : C) (uninitialized : ClientType)
  | headRead (c : C)
  | headFailed (c : C) (expired : List C)
  | contentRead (c : C) (content : RequestContent)
  | contentFailed (c : C) (expired : List C)
  | take (w : Fin n)
  | execute (w : Fin n) (expired : List C)

variable [DecidableEq C]

def handleError (s : State C n) (c : C) (type : ClientType) (expired : List C) : State C n :=
  if type = .subClient then
    { s with topics := s.topics.removeAllTopic (fun c => c ∉ expired) c }
  else s

def setConn (s : State C n) (c : C) (reading : Option Read) (type : ClientType) : State C n :=
  { s with conns := Function.update s.conns c (some ⟨reading, type⟩) }

def route (s : State C n) (c : C) (content : RequestContent) : State C n :=
  { s with pool := addTask s.pool (c, content), routed := s.routed ++ [(c, content)] }

/-- `expired` are the connections without an owner: a read handler and a task own
the connection they work for. The content handler arms the next head read before it
looks at the error, so only a failed head read ends the loop. -/
def step (s : State C n) : Action C n → Option (State C n)
  | .accept c uninitialized =>
    match s.conns c with
    | none => some (setConn s c (some .head) uninitialized)
    | some _ => none
  | .headRead c =>
    match s.conns c with
    | some ⟨some .head, type⟩ => some (setConn s c (some .content) type)
    | _ => none
  | .headFailed c expired =>
    match s.conns c with
    | some ⟨some .head, type⟩ =>
      if c ∈ expired then none else some (handleError (setConn s c none type) c type expired)
    | _ => none
  -- the next head read has been armed when the request is routed
  | .contentRead c content =>
    match s.conns c with
    | some ⟨some .content, _⟩ =>
      some (route (setConn s c (some .head) content.flag.type) c content)
    | _ => none
  -- it has been armed here too, so that this error does not end the loop
  | .contentFailed c expired =>
    match s.conns c with
    | some ⟨some .content, type⟩ =>
      if c ∈ expired then none else some (handleError (setConn s c (some .head) type) c type expired)
    | _ => none
  | .take w => (WorkPool.take s.pool w).map fun pool => { s with pool := pool }
  | .execute w expired =>
    match finish s.pool w with
    | some ((c, content), pool) =>
      if c ∈ expired then none
      else some { s with
        pool := pool
        topics := s.topics.routerThread (fun c => c ∉ expired) content c
        executed := s.executed ++ [(c, content)] }
    | none => none

inductive Effect (s : State C n) : Action C n → State C n → Prop
  | accept {c : C} {type : ClientType} (hc : s.conns c = none) :
      Effect s (.accept c type) (setConn s c (some .head) type)
  | headRead {c : C} {type : ClientType} (hc : s.conns c = some ⟨some .head, type⟩) :
      Effect s (.headRead c) (setConn s c (some .content) type)
  | headFailed {c : C} {type : ClientType} {expired : List C}
      (hc : s.conns c = some ⟨some .head, type⟩) (he : c ∉ expired) :
      Effect s (.headFailed c expired) (handleError (setConn s c none type) c type expired)
  | contentRead {c : C} {type : ClientType} {content : RequestContent}
      (hc : s.conns c = some ⟨some .content, type⟩) :
      Effect s (.contentRead c content)
        (route (setConn s c (some .head) content.flag.type) c content)
  | contentFailed {c : C} {type : ClientType} {expired : List C}
      (hc : s.conns c = some ⟨some .content, type⟩) (he : c ∉ expired) :
      Effect s (.contentFailed c expired)
        (handleError (setConn s c (some .head) type) c type expired)
  | take {w : Fin n} {pool : Pool n (C × RequestContent)}
      (hp : WorkPool.take s.pool w = some pool) : Effect s (.take w) { s with pool := pool }
  | execute {w : Fin n} {expired : List C} {c : C} {content : RequestContent}
      {pool : Pool n (C × RequestContent)}
      (hp : finish s.pool w = some ((c, content), pool)) (he : c ∉ expired) :
      Effect s (.execute w expired) { s with
        pool := pool
        topics := s.topics.routerThread (fun c => c ∉ expired) content c
        executed := s.executed ++ [(c, content)] }

theorem step_effect {s t : State C n} {a : Action C n} (h : step s a = some t) : Effect s a t := by
  cases a with
  | accept c uninitialized =>
    simp only [step] at h
    split at h
    · rename_i hc
      obtain rfl := Option.some.inj h
      exact .accept hc
    · cases h
  | headRead c =>
    simp only [step] at h
    split at h
    · rename_i hc
      obtain rfl := Option.some.inj h
      exact .headRead hc
    · cases h
  | headFailed c expired =>
    simp only [step] at h
    split at h
    · rename_i hc
      split_ifs at h with he
      obtain rfl := Option.some.inj h
      exact .headFailed hc he
    · cases h
  | contentRead c content =>
    simp only [step] at h
    split at h
    · rename_i hc
      obtain rfl := Option.some.inj h
      exact .contentRead hc
    · cases h
  | contentFailed c expired =>
    simp only [step] at h
    split at h
    · rename_i hc
      split_ifs at h with he
      obtain rfl := Option.some.inj h
      exact .contentFailed hc he
    · cases h
  | take w =>
    obtain ⟨pool, hp, rfl⟩ := Option.map_eq_some_iff.mp h
    exact .take hp
  | execute w expired =>
    simp only [step] at h
    split at h
    · rename_i hp
      split_ifs at h with he
      obtain rfl := Option.some.inj h
      exact .execute hp he
    · cases h

@[simp] theorem setConn_conns_self (s : State C n) (c : C) (reading : Option Read)
    (type : ClientType) : (setConn s c reading type).conns c = some ⟨reading, type⟩ :=
  Function.update_self _ _ _

theorem setConn_conns_of_ne (s : State C n) {c d : C} (h : d ≠ c) (reading : Option Read)
    (type : ClientType) : (setConn s c reading type).conns d = s.conns d :=
  Function.update_of_ne h _ _

@[simp] theorem handleError_pool (s : State C n) (c : C) (type : ClientType) (expired : List C) :
    (handleError s c type expired).pool = s.pool := by
  unfold handleError
  split <;> rfl

@[simp] theorem handleError_routed (s : State C n) (c : C) (type : ClientType) (expired : List C) :
    (handleError s c type expired).routed = s.routed := by
  unfold handleError
  split <;> rfl

@[simp] theorem handleError_executed (s : State C n) (c : C) (type : ClientType)
    (expired : List C) : (handleError s c type expired).executed = s.executed := by
  unfold handleError
  split <;> rfl

@[simp] theorem handleError_conns (s : State C n) (c : C) (type : ClientType) (expired : List C) :
    (handleError s c type expired).conns = s.conns := by
  unfold handleError
  split <;> rfl

theorem holds_handleError (s : State C n) {c : C} (type : ClientType) {expired : List C}
    (he : c ∉ expired) (d : C) (t : Bytes) : (handleError s c type expired).topics.holds d t =
      (s.topics.holds d t && !decide (d = c ∧ type = .subClient)) := by
  unfold handleError
  split_ifs with htype
  · simp only
    rw [TopicManager.holds_removeAllTopic (by simpa using he)]
    simp [htype]
  · simp [htype]

/-- The error that ends a read loop finds `type_` set by a subscriber or nothing to
clean up, and no worker runs a subscribe of a connection whose loop has ended. -/
def EndsClean (s : State C n) : Action C n → Prop
  | .headFailed c _ => ∀ conn ∈ s.conns c, conn.type = .subClient ∨ s.topics.topicsOf c = []
  | .execute w _ => ∀ task ∈ s.pool.running w, ∀ conn ∈ s.conns task.1, conn.reading = none →
      ∀ e ∈ subscription task.2, e.2 = false
  | _ => True

def EndedClean (s : State C n) : Prop :=
  ∀ c conn, s.conns c = some conn → conn.reading = none → ∀ t, s.topics.holds c t = false

theorem endedClean_setConn {s : State C n} (hs : EndedClean s) (c : C) (reading : Read)
    (type : ClientType) : EndedClean (setConn s c (some reading) type) := by
  intro d conn hd hend t
  by_cases hdc : d = c
  · subst d
    rw [setConn_conns_self] at hd
    obtain rfl := Option.some.inj hd
    cases hend
  · rw [setConn_conns_of_ne s hdc] at hd
    exact hs d conn hd hend t

theorem endedClean_handleError {s : State C n} (hs : EndedClean s) {c : C} (type : ClientType)
    {expired : List C} (he : c ∉ expired) : EndedClean (handleError s c type expired) := by
  intro d conn hd hend t
  rw [handleError_conns] at hd
  rw [holds_handleError s type he, hs d conn hd hend t, Bool.false_and]

theorem endedClean_headFailed {s : State C n} (hs : EndedClean s) {c : C} {type : ClientType}
    {expired : List C} (hclean : type = .subClient ∨ s.topics.topicsOf c = []) (he : c ∉ expired) :
    EndedClean (handleError (setConn s c none type) c type expired) := by
  intro d conn hd hend t
  rw [handleError_conns] at hd
  rw [holds_handleError _ type he]
  by_cases hdc : d = c
  · subst d
    rcases hclean with htype | hnone
    · simp [htype]
    · have hholds : (setConn s c none type).topics.holds c t = false :=
        (TopicManager.topicsOf_eq_nil_iff _ _).mp hnone t
      rw [hholds, Bool.false_and]
  · rw [setConn_conns_of_ne s hdc] at hd
    have hholds : (setConn s c none type).topics.holds d t = false := hs d conn hd hend t
    rw [hholds, Bool.false_and]

theorem holds_routerThread_of_false {alive : C → Bool} {conn : C} (h : alive conn = true)
    {tm : TopicManager C} {content : RequestContent} (hsub : ∀ e ∈ subscription content, e.2 = false)
    {t : Bytes} (hnone : tm.holds conn t = false) :
    (tm.routerThread alive content conn).holds conn t = false := by
  rw [TopicManager.holds_routerThread h, if_pos rfl, hnone]
  cases hs : subscription content with
  | none => simp [subscriptions, hs]
  | some e =>
    obtain ⟨topic, held⟩ := e
    obtain rfl : held = false := hsub _ hs
    simp [subscriptions, hs, written_cons]

theorem step_endedClean {s t : State C n} {a : Action C n} (hs : EndedClean s)
    (hok : EndsClean s a) (h : step s a = some t) : EndedClean t := by
  cases step_effect h with
  | accept hc => exact endedClean_setConn hs _ _ _
  | headRead hc => exact endedClean_setConn hs _ _ _
  | headFailed hc he => exact endedClean_headFailed hs (hok _ hc) he
  | contentRead hc => exact endedClean_setConn hs _ _ _
  | contentFailed hc he => exact endedClean_handleError (endedClean_setConn hs _ _ _) _ he
  | take hp => exact hs
  | @execute w expired c content pool hp he =>
    intro d conn hd hend t
    by_cases hdc : d = c
    · subst d
      have hrun := (finish_eq_some hp).1
      exact holds_routerThread_of_false (by simpa using he) (hok _ hrun conn hd hend)
        (hs c conn hd hend t)
    · simp only
      rw [TopicManager.holds_routerThread (by simpa using he), if_neg hdc]
      exact hs d conn hd hend t

/-- In every run whose read loops end clean, a connection whose loop has ended has no
entry under any topic. -/
theorem no_stale_subscription {as : List (Action C n)} {s : State C n}
    (hc : Conforms step EndsClean initial as) (hr : run step initial as = some s) {c : C}
    {conn : Connection} (hconn : s.conns c = some conn) (hend : conn.reading = none) (t : Bytes) :
    s.topics.holds c t = false := by
  have hinv : EndedClean s := conforming_invariant (fun _ _ _ => step_endedClean)
    (fun _ _ h => by cases h) hc hr
  exact hinv c conn hconn hend t

instance (s : State C n) : (a : Action C n) → Decidable (EndsClean s a)
  | .headFailed c _ => inferInstanceAs (Decidable (∀ conn ∈ s.conns c,
      conn.type = .subClient ∨ s.topics.topicsOf c = []))
  | .execute w _ => inferInstanceAs (Decidable (∀ task ∈ s.pool.running w,
      ∀ conn ∈ s.conns task.1, conn.reading = none → ∀ e ∈ subscription task.2, e.2 = false))
  | .accept _ _ | .headRead _ | .contentRead _ _ | .contentFailed _ _ | .take _ => .isTrue trivial

def subscribeAndClose (work : List (Action ℕ 1)) : List (Action ℕ 1) :=
  [.accept 0 ⟨7⟩, .headRead 0,
    .contentRead 0 ⟨0, ⟨.serialize, .subClient⟩, [116], [], subscribeTopicFlag⟩] ++ work

theorem no_stale_subscription_served :
    ∃ s : State ℕ 1, run step initial
        (subscribeAndClose [.take 0, .execute 0 [], .headFailed 0 []]) = some s ∧
      s.topics.holds 0 [116] = false := by
  have hrun : (run step (initial : State ℕ 1)
      (subscribeAndClose [.take 0, .execute 0 [], .headFailed 0 []])).map (fun s => s.conns 0) =
      some (some ⟨none, .subClient⟩) := by decide
  obtain ⟨s, hs, hconn⟩ := Option.map_eq_some_iff.mp hrun
  exact ⟨s, hs, no_stale_subscription (by decide) hs hconn rfl [116]⟩

/-- The worker runs the subscribe after the cleanup. -/
theorem stale_subscription : ¬ ∀ (n : ℕ) (as : List (Action ℕ n)) (s : State ℕ n),
    run step initial as = some s → ∀ c conn, s.conns c = some conn → conn.reading = none →
      (∀ content, ¬ Unfinished s.pool (c, content)) → ∀ t, s.topics.holds c t = false := by
  intro h
  have hrun : (run step (initial : State ℕ 1)
      (subscribeAndClose [.headFailed 0 [], .take 0, .execute 0 []])).map (fun s =>
        (s.conns 0, s.pool.queue, s.pool.running 0, s.topics.holds 0 [116])) =
      some (some ⟨none, .subClient⟩, [], none, true) := by decide
  obtain ⟨s, hs, he⟩ := Option.map_eq_some_iff.mp hrun
  simp only [Prod.mk.injEq] at he
  obtain ⟨hconn, hqueue, hrunning, hholds⟩ := he
  have hdone : ∀ content, ¬ Unfinished s.pool (0, content) := by
    rintro content (hm | ⟨w, hw⟩)
    · simp [hqueue] at hm
    · obtain rfl : w = 0 := Subsingleton.elim _ _
      rw [hrunning] at hw
      cases hw
  have := h 1 _ s hs 0 _ hconn rfl hdone [116]
  rw [hholds] at this
  cases this

end Czrpc.Server
