import Czrpc.SubClient

/-! The `sub_client` objects of one process. Each has its own connection and threads, and all
of them use the one `sub_router` of the process, which is a singleton. -/
namespace Czrpc.SubProcess
open Execution Framing Subscriptions LastWrite

variable {K F G : Type*}

def handler : Op F G → Option (Bytes × Option F)
  | .subscribe topicName func => some (topicName, some func)
  | .cancelSubscribe topicName => some (topicName, none)
  | .subscribeRaw _ _ | .cancelSubscribeRaw _ => none

def handlerRaw : Op F G → Option (Bytes × Option G)
  | .subscribeRaw topicName func => some (topicName, some func)
  | .cancelSubscribeRaw topicName => some (topicName, none)
  | .subscribe _ _ | .cancelSubscribe _ => none

def lastHandler (ops : List (Op F G)) (topicName : Bytes) : Option F :=
  written none topicName (ops.filterMap handler)

def lastHandlerRaw (ops : List (Op F G)) (topicName : Bytes) : Option G :=
  written none topicName (ops.filterMap handlerRaw)

theorem find_updates (r : SubRouter F G) (ops : List (Op F G)) (t : Bytes) :
    (updates r ops).routeMap.find t = written (r.routeMap.find t) t (ops.filterMap handler) := by
  induction ops generalizing r with
  | nil => rfl
  | cons op ops ih =>
    change (updates (op.update r) ops).routeMap.find t = _
    rw [ih]
    cases op with
    | subscribe topicName func =>
      simp [Op.update, SubRouter.bind, handler, UnorderedMap.find_replace, written_cons]
    | subscribeRaw topicName func => rfl
    | cancelSubscribe topicName =>
      simp [Op.update, SubRouter.unbind, handler, UnorderedMap.find_erase, written_cons]
    | cancelSubscribeRaw topicName => rfl

theorem findRaw_updates (r : SubRouter F G) (ops : List (Op F G)) (t : Bytes) :
    (updates r ops).routeRawMap.find t =
      written (r.routeRawMap.find t) t (ops.filterMap handlerRaw) := by
  induction ops generalizing r with
  | nil => rfl
  | cons op ops ih =>
    change (updates (op.update r) ops).routeRawMap.find t = _
    rw [ih]
    cases op with
    | subscribe topicName func => rfl
    | subscribeRaw topicName func =>
      simp [Op.update, SubRouter.bindRaw, handlerRaw, UnorderedMap.find_replace, written_cons]
    | cancelSubscribe topicName => rfl
    | cancelSubscribeRaw topicName =>
      simp [Op.update, SubRouter.unbindRaw, handlerRaw, UnorderedMap.find_erase, written_cons]

/-- `sub_router::get_all_topic`, when no table changes between its two loops. -/
def getAllTopic (r : SubRouter F G) : List Bytes := r.routeMap.keys ++ r.routeRawMap.keys

/-- Nothing that a client asks of the tables tells them apart: the answers of `is_subscribe` and
`is_subscribe_raw`, the handlers that pushes are routed to, and the topics that
`retry_subscribe` requests, up to their order. -/
structure SameObservables (r r' : SubRouter F G) : Prop where
  isSubscribe : ∀ t, isSubscribe r t = isSubscribe r' t
  isSubscribeRaw : ∀ t, isSubscribeRaw r t = isSubscribeRaw r' t
  handler : ∀ t, r.routeMap.find t = r'.routeMap.find t
  handlerRaw : ∀ t, r.routeRawMap.find t = r'.routeRawMap.find t
  topics : (getAllTopic r).Perm (getAllTopic r')

theorem sameObservables_iff (r r' : SubRouter F G) : SameObservables r r' ↔
    ∀ t, r.routeMap.find t = r'.routeMap.find t ∧ r.routeRawMap.find t = r'.routeRawMap.find t := by
  constructor
  · intro h t
    exact ⟨h.handler t, h.handlerRaw t⟩
  · intro h
    have hfind : ∀ t, r.routeMap.find t = r'.routeMap.find t := fun t => (h t).1
    have hfindRaw : ∀ t, r.routeRawMap.find t = r'.routeRawMap.find t := fun t => (h t).2
    exact ⟨fun t => congrArg Option.isSome (hfind t), fun t => congrArg Option.isSome (hfindRaw t),
      hfind, hfindRaw,
      (UnorderedMap.keys_perm_of_find hfind).append (UnorderedMap.keys_perm_of_find hfindRaw)⟩

theorem sameObservables_updates_iff (as bs : List (Op F G)) :
    SameObservables (updates .empty as) (updates .empty bs) ↔
      ∀ t, lastHandler as t = lastHandler bs t ∧ lastHandlerRaw as t = lastHandlerRaw bs t := by
  simp only [sameObservables_iff, find_updates, findRaw_updates]
  rfl

/-- `router` is the singleton, which stands for the tables of every client. `log` are the calls
that have changed it so far, each with its client. -/
structure State (K F G : Type*) where
  router : SubRouter F G
  clients : K → SubClient.State F G
  log : List (K × Op F G)

def initial : State K F G := ⟨.empty, fun _ => SubClient.initial, []⟩

def client (s : State K F G) (k : K) : SubClient.State F G := { s.clients k with router := s.router }

def updating (s : SubClient.State F G) : SubClient.Action F G → Option (Op F G)
  | .update j => s.inProgress[j]?
  | _ => none

def ownCalls [DecidableEq K] (k : K) (log : List (K × Op F G)) : List (Op F G) :=
  (log.filter fun e => e.1 = k).map Prod.snd

variable [DecidableEq K]

def step (isResend : K → Bool) (s : State K F G) (a : K × SubClient.Action F G) :
    Option (State K F G) :=
  (SubClient.step (isResend a.1) (client s a.1) a.2).map fun t =>
    { router := t.router
      clients := Function.update s.clients a.1 t
      log := s.log ++ (updating (client s a.1) a.2).toList.map (Prod.mk a.1) }

omit [DecidableEq K] in
theorem step_router {isResend : Bool} {s t : SubClient.State F G} {a : SubClient.Action F G}
    (h : SubClient.step isResend s a = some t) :
    t.router = updates s.router (updating s a).toList := by
  cases SubClient.step_effect h with
  | update hop =>
    rw [updating, hop]
    rfl
  | @complete _ _ event => cases event <;> rfl
  | _ => rfl

/-- The tables are those that the logged calls make, in the order of the log. -/
def Logged (s : State K F G) : Prop := s.router = updates .empty (s.log.map Prod.snd)

omit [DecidableEq K] in
theorem initial_logged : Logged (initial : State K F G) := rfl

theorem step_logged {isResend : K → Bool} {s t : State K F G} {a : K × SubClient.Action F G}
    (hs : Logged s) (h : step isResend s a = some t) : Logged t := by
  obtain ⟨u, hu, rfl⟩ := Option.map_eq_some_iff.mp h
  have hrouter : u.router = updates s.router (updating (client s a.1) a.2).toList := step_router hu
  have hlog : (s.log ++ (updating (client s a.1) a.2).toList.map (Prod.mk a.1)).map Prod.snd =
      s.log.map Prod.snd ++ (updating (client s a.1) a.2).toList := by
    simp [Function.comp_def]
  rw [Logged, hlog, hrouter, hs]
  exact List.foldl_append.symm

theorem step_other {isResend : K → Bool} {s t : State K F G} {a : K × SubClient.Action F G} {k : K}
    (hk : a.1 ≠ k) (h : step isResend s a = some t) : t.clients k = s.clients k := by
  obtain ⟨u, -, rfl⟩ := Option.map_eq_some_iff.mp h
  exact Function.update_of_ne (Ne.symm hk) _ _

/-- In every run, each client's tables are those that the calls of all the clients make, in the
order in which they reach the tables. A client observes what its own calls alone produce
exactly if, for each topic and mode, the last call of all and its own last call leave the same
handler or none. What is not in the tables is a client's own. -/
theorem observables_of_all_calls (isResend : K → Bool) {as : List (K × SubClient.Action F G)}
    {s : State K F G} (hr : run (step isResend) initial as = some s) (k : K) :
    (client s k).router = updates .empty (s.log.map Prod.snd) ∧
    (SameObservables (client s k).router (updates .empty (ownCalls k s.log)) ↔
      ∀ t, lastHandler (s.log.map Prod.snd) t = lastHandler (ownCalls k s.log) t ∧
        lastHandlerRaw (s.log.map Prod.snd) t = lastHandlerRaw (ownCalls k s.log) t) ∧
    ∀ a t, a.1 ≠ k → step isResend s a = some t → t.clients k = s.clients k := by
  have hlogged : Logged s := run_invariant (fun _ _ _ => step_logged) initial_logged hr
  have hrouter : (client s k).router = updates .empty (s.log.map Prod.snd) := hlogged
  refine ⟨hrouter, ?_, fun a t hk h => step_other hk h⟩
  rw [hrouter]
  exact sameObservables_updates_iff _ _

def subscribedElsewhere : List (Bool × SubClient.Action Unit Unit) :=
  [(true, .call (.subscribe [116] ())), (true, .update 0)]

theorem observables_of_all_calls_elsewhere :
    ∃ s, run (step fun _ => false) initial subscribedElsewhere = some s ∧
      (client s false).router = updates .empty [.subscribe [116] ()] := by
  have hrun : (run (step fun _ => false) initial subscribedElsewhere).map State.log =
      some [(true, .subscribe [116] ())] := by decide
  obtain ⟨s, hs, hlog⟩ := Option.map_eq_some_iff.mp hrun
  have hall := (observables_of_all_calls _ hs false).1
  rw [hlog] at hall
  exact ⟨s, hs, hall⟩

/-- The other client finds itself subscribed. -/
theorem observables_of_other_calls : ¬ ∀ (as : List (Bool × SubClient.Action Unit Unit))
    (s : State Bool Unit Unit) (k : Bool), run (step fun _ => false) initial as = some s →
      SameObservables (client s k).router (updates .empty (ownCalls k s.log)) := by
  intro h
  have hrun : (run (step fun _ => false) initial subscribedElsewhere).map
      (fun s => (isSubscribe (client s false).router [116],
        isSubscribe (updates .empty (ownCalls false s.log)) [116])) = some (true, false) := by decide
  obtain ⟨s, hs, he⟩ := Option.map_eq_some_iff.mp hrun
  obtain ⟨hshared, hown⟩ := Prod.mk.inj he
  have hsame := (h _ s false hs).isSubscribe [116]
  rw [hshared, hown] at hsame
  cases hsame

end Czrpc.SubProcess
