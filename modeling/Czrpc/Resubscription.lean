import Czrpc.Reconnection

/-! The client and the server agree on the topics once nothing is under way, if no call
comes in between while `retry_subscribe` works from its copy of the table. -/
namespace Czrpc.Reconnection
open Execution Framing Protocol LastWrite Subscriptions

variable {F G : Type*}

/-- Whether the topic is to be held once the call in progress has returned. -/
def wanted (s : State F G) (t : Bytes) : Bool :=
  written (s.router.isBind t) t (calls s.inProgress.toList)

/-- The subscriptions that the client has yet to send. -/
def unsent (s : State F G) : List (Bytes × Bool) :=
  subscriptions s.send.waiting ++ (remaining s.retry).map fun t => (t, true)

/-- Whether the server holds the topic once everything sent and unsent has arrived. -/
def eventually (s : State F G) (t : Bytes) : Bool :=
  written (s.topics.holds s.conn t) t (subscriptions (received s) ++ unsent s)

def Uncopied (s : State F G) : Prop := s.starting = true ∨ s.retry = .begun

/-- What is unsent agrees with what is wanted. On a connection that is up, so does
the server eventually; before the table is copied it may still lack topics. -/
structure Agree (s : State F G) : Prop where
  unsent : ∀ t v, lastWrite t (unsent s) = some v → v = wanted s t
  uncopied : s.up = true → Uncopied s → ∀ t, eventually s t = true → wanted s t = true
  copied : s.up = true → ¬ Uncopied s → ∀ t, eventually s t = wanted s t

theorem initial_agree : Agree (initial : State F G) where
  unsent := by
    intro t v h
    cases h
  uncopied := by
    intro _ _ t h
    cases h
  copied := fun _ _ _ => rfl

theorem Agree.of_same {s t : State F G} (hs : Agree s) (hw : wanted t = wanted s)
    (hu : Reconnection.unsent t <:+ Reconnection.unsent s)
    (hup : t.up = true → s.up = true ∧ eventually t = eventually s)
    (hc : Uncopied t ↔ Uncopied s) : Agree t where
  unsent topic v h := by
    rw [hw]
    exact hs.unsent topic v (lastWrite_suffix hu h)
  uncopied h hn topic he := by
    obtain ⟨hsup, hev⟩ := hup h
    rw [hev] at he
    rw [hw]
    exact hs.uncopied hsup (hc.mp hn) topic he
  copied h hn topic := by
    obtain ⟨hsup, hev⟩ := hup h
    rw [hev, hw]
    exact hs.copied hsup (fun hx => hn (hc.mpr hx)) topic

theorem eventually_eq (s : State F G) (t : Bytes) : eventually s t =
    (lastWrite t (unsent s)).getD (written (s.topics.holds s.conn t) t (subscriptions (received s))) := by
  rw [eventually, written_append, written]

theorem eventually_congr {s t : State F G} (hu : unsent t = unsent s) (hr : received t = received s)
    (hh : ∀ x, t.topics.holds t.conn x = s.topics.holds s.conn x) : eventually t = eventually s := by
  funext x
  rw [eventually_eq, eventually_eq, hu, hr, hh]

theorem lastWrite_unsent (s : State F G) (t : Bytes) : lastWrite t (unsent s) =
    if t ∈ remaining s.retry then some true else lastWrite t (subscriptions s.send.waiting) := by
  rw [unsent, lastWrite_append, lastWrite_map_const]
  split_ifs <;> rfl

theorem lastWrite_unsent_call {s : State F G} {op : Op F G}
    (hop : op.subscribes = true ∨ op.topic ∉ remaining s.retry) (t : Bytes) :
    lastWrite t (unsent (call s op)) =
      if op.topic = t then some op.subscribes else lastWrite t (unsent s) := by
  have hsub : subscriptions (call s op).send.waiting =
      subscriptions s.send.waiting ++ [(op.topic, op.subscribes)] := by
    simp [call, subscriptions, Op.subscription_request]
  rw [lastWrite_unsent, lastWrite_unsent, hsub, lastWrite_append, lastWrite_singleton]
  by_cases ht : op.topic = t
  · subst t
    rcases hop with hop | hop
    · simp [hop]
    · simp [call, hop]
  · simp [call, ht]

theorem agree_call {s : State F G} {op : Op F G} (hs : Agree s) (hn : s.inProgress = none)
    (hop : op.subscribes = true ∨ op.topic ∉ remaining s.retry) : Agree (call s op) := by
  have hlast := lastWrite_unsent_call hop
  have hwant : ∀ t, wanted (call s op) t = if op.topic = t then op.subscribes else wanted s t := by
    intro t
    simp [wanted, call, hn, calls, written_cons]
  have hev : ∀ t, eventually (call s op) t =
      if op.topic = t then op.subscribes else eventually s t := by
    intro t
    rw [eventually_eq, eventually_eq, hlast]
    split_ifs <;> rfl
  constructor
  · intro t v hv
    rw [hlast] at hv
    rw [hwant]
    split_ifs at hv ⊢ with ht
    · exact (Option.some.inj hv).symm
    · exact hs.unsent t v hv
  · intro hup hc t ht
    rw [hev] at ht
    rw [hwant]
    split_ifs at ht ⊢ with htopic
    · exact ht
    · exact hs.uncopied hup hc t ht
  · intro hup hc t
    rw [hev, hwant]
    split_ifs
    · rfl
    · exact hs.copied hup hc t

theorem wanted_of_bound {s : State F G} (hre : s.retry = .begun) (hok : CopyOk s .retry) {t : Bytes}
    (hb : s.router.isBind t = true) : wanted s t = true := by
  unfold wanted
  cases hp : s.inProgress with
  | none => exact hb
  | some op =>
    have hop := hok hre op hp
    simp only [Option.toList_some, calls, List.map_cons, List.map_nil, written_cons, written_nil]
    split_ifs with ht
    · subst t
      cases hsub : op.subscribes with
      | true => rfl
      | false =>
        rw [hsub, if_neg Bool.false_ne_true, hb] at hop
        cases hop
    · exact hb

theorem lastWrite_of_wanted {s : State F G} (hs : Agree s) (hre : s.retry = .begun)
    (hok : CopyOk s .retry) {t : Bytes} (hb : s.router.isBind t = false)
    (hw : wanted s t = true) : lastWrite t (unsent s) = some true := by
  have hw' := hw
  unfold wanted at hw'
  cases hp : s.inProgress with
  | none =>
    rw [hp, hb] at hw'
    cases hw'
  | some op =>
    have hop := hok hre op hp
    simp only [hp, hb, Option.toList_some, calls, List.map_cons, List.map_nil, written_cons,
      written_nil] at hw'
    split_ifs at hw' with ht
    subst t
    rw [hw', if_pos rfl, hb] at hop
    have hwait : op.request ∈ s.send.waiting := hop.resolve_left Bool.false_ne_true
    have hmem : (op.topic, true) ∈ unsent s := by
      rw [unsent, hre, subscriptions]
      refine List.mem_append_left _ (List.mem_filterMap.mpr ⟨op.request, hwait, ?_⟩)
      rw [Op.subscription_request, hw']
    cases hl : lastWrite op.topic (unsent s) with
    | none => exact absurd hmem ((lastWrite_eq_none_iff _ _).mp hl true)
    | some v => rw [hs.unsent _ _ hl, hw]

theorem agree_copy {s : State F G} (hs : Agree s) (hre : s.retry = .begun)
    (hst : s.starting = false) (hok : CopyOk s .retry) :
    Agree { s with retry := .copied s.router.routeMap.keys } := by
  have hlast : ∀ t, lastWrite t (unsent { s with retry := .copied s.router.routeMap.keys }) =
      if s.router.isBind t = true then some true else lastWrite t (unsent s) := by
    intro t
    rw [lastWrite_unsent, lastWrite_unsent, hre]
    simp [remaining, UnorderedMap.mem_keys_iff, SubRouter.isBind]
  constructor
  · intro t v hv
    rw [hlast] at hv
    split_ifs at hv with hb
    · rw [← Option.some.inj hv]
      exact (wanted_of_bound hre hok hb).symm
    · exact hs.unsent t v hv
  · rintro - (h | h)
    · rw [show s.starting = true from h] at hst
      cases hst
    · cases h
  · intro hup _ t
    have hwant : wanted { s with retry := .copied s.router.routeMap.keys } t = wanted s t := rfl
    rw [eventually_eq, hlast, hwant]
    cases hb : s.router.isBind t with
    | true => exact (wanted_of_bound hre hok hb).symm
    | false =>
      have hev := eventually_eq s t
      rw [if_neg Bool.false_ne_true]
      refine hev.symm.trans ?_
      cases hw : wanted s t with
      | true => rw [hev, lastWrite_of_wanted hs hre hok hb hw, Option.getD_some]
      | false =>
        cases he : eventually s t with
        | false => rfl
        | true =>
          rw [hs.uncopied hup (Or.inr hre) t he] at hw
          cases hw

theorem unsent_retryStep {s : State F G} (hwf : WellFormed s) (hre : s.retry ≠ .begun)
    {send : SendQueue.State RequestContent} {retry : Retry}
    (h : retryStep s.router s.send s.retry = some (send, retry)) :
    unsent { s with send := send, retry := retry } = unsent s ∧ retry ≠ .begun := by
  unfold unsent
  cases hr : s.retry with
  | idle =>
    rw [hr] at h
    cases h
  | begun => exact absurd hr hre
  | copied topics =>
    rw [hr] at h
    obtain ⟨rfl, rfl⟩ := Prod.mk.inj (Option.some.inj h)
    simp [remaining, hwf.noRaw]
  | posting topics =>
    rw [hr] at h
    cases topics with
    | nil =>
      obtain ⟨rfl, rfl⟩ := Prod.mk.inj (Option.some.inj h)
      simp [remaining]
    | cons topicName topics =>
      obtain ⟨rfl, rfl⟩ := Prod.mk.inj (Option.some.inj h)
      have hsub : subscriptions [resubscribe topicName] = [(topicName, true)] := rfl
      simp [remaining, hsub]

theorem agree_retry {s : State F G} (hwf : WellFormed s) (hs : Agree s) (hok : CopyOk s .retry)
    {send : SendQueue.State RequestContent} {retry : Retry}
    (h : retryStep s.router s.send s.retry = some (send, retry)) :
    Agree { s with send := send, retry := retry } := by
  by_cases hre : s.retry = .begun
  · have hst : s.starting = false := by
      by_contra hst
      have := hwf.startIdle (by simpa using hst)
      rw [hre] at this
      cases this
    rw [hre] at h
    obtain ⟨rfl, rfl⟩ := Prod.mk.inj (Option.some.inj h)
    exact agree_copy hs hre hst hok
  · obtain ⟨hu, hne⟩ := unsent_retryStep hwf hre h
    refine hs.of_same rfl (hu ▸ List.suffix_refl _) ?_ (by simp [Uncopied, hre, hne])
    exact fun hup => ⟨hup, eventually_congr hu rfl fun _ => rfl⟩

theorem agree_written {s : State F G} (hwf : WellFormed s) (hs : Agree s) {i : ℕ}
    {content : RequestContent} {send : SendQueue.State RequestContent}
    (hw : s.send.writing[i]? = some content)
    (hc : SendQueue.complete s.send false i false = some send) :
    Agree (deliver { s with send := send } content) := by
  obtain ⟨-, hposted, buffer, hbuffer, hqueue⟩ := SendQueue.complete_ok hwf.disciplined hc
  obtain rfl : content = buffer := Option.some.inj (hw.symm.trans hbuffer)
  have hunsent : unsent s = subscriptions [content] ++ unsent { s with send := send } := by
    have hwait : s.send.waiting = [content] ++ send.waiting := by
      simp [SendQueue.State.waiting, hqueue, hposted]
    rw [unsent, unsent, hwait, subscriptions_append, List.append_assoc]
  have hsuffix : unsent { s with send := send } <:+ unsent s := ⟨_, hunsent.symm⟩
  unfold deliver
  split_ifs with hup
  · refine hs.of_same rfl hsuffix (fun _ => ⟨hup, ?_⟩) Iff.rfl
    funext t
    have hrec : received { s with send := send, inbox := s.inbox ++ [(s.conn, content)] } =
        received s ++ [content] := by
      simp [received, requestsOf]
    unfold eventually
    rw [hunsent, hrec, subscriptions_append, List.append_assoc]
    rfl
  · exact hs.of_same rfl hsuffix (fun h => absurd h hup) Iff.rfl

theorem agree_connected {s : State F G} (hwf : WellFormed s) (hs : Agree s) :
    Agree { s with conn := s.conn + 1, up := true, starting := true } := by
  have hrec : received { s with conn := s.conn + 1, up := true, starting := true } = [] := by
    rw [List.eq_nil_iff_forall_not_mem]
    intro content hm
    have hle := hwf.known _ ((mem_requestsOf _ _ _).mp hm)
    simp only at hle
    omega
  refine ⟨hs.unsent, ?_, fun _ hc => absurd (Or.inl rfl) hc⟩
  intro _ _ t ht
  rw [eventually_eq, hrec] at ht
  have hnone : s.topics.holds (s.conn + 1) t = false := hwf.fresh _ (Nat.lt_succ_self _) t
  simp only [hnone, subscriptions, List.filterMap_nil, written_nil] at ht
  have hlast := (written_false_eq_true_iff t (unsent s)).mp ht
  exact (hs.unsent t true hlast).symm

theorem eventually_serve {s : State F G} {expired : List ℕ} {c : ℕ} {content : RequestContent}
    {rest : List (ℕ × RequestContent)} (hi : s.inbox = (c, content) :: rest) (hc : c ∉ expired) :
    eventually { s with
      inbox := rest, topics := s.topics.routerThread (fun c => c ∉ expired) content c } =
      eventually s := by
  funext t
  unfold eventually
  rw [TopicManager.holds_routerThread (by simpa using hc)]
  by_cases hconn : s.conn = c
  · have hrec : received s = [content] ++ received { s with inbox := rest } := by
      simp [received, hi, hconn, requestsOf_cons]
    rw [if_pos hconn, hrec, subscriptions_append, List.append_assoc, written_append _ _ (subscriptions [content])]
    rfl
  · have hrec : received s = received { s with inbox := rest } := by
      simp [received, hi, requestsOf_cons, Ne.symm hconn]
    rw [if_neg hconn, hrec]
    rfl

theorem step_agree {s t : State F G} {a : Action F G} (hwf : WellFormed s) (hs : Agree s)
    (hok : CopyOk s a) (h : step s a = some t) : Agree t := by
  cases step_effect h with
  | subscribe hn => exact agree_call hs hn (Or.inl rfl)
  | cancelSubscribe hn => exact agree_call hs hn (Or.inr hok)
  | @update op hop =>
    refine hs.of_same ?_ (List.suffix_refl _) (fun hup => ⟨hup, rfl⟩) Iff.rfl
    funext t
    have hb := bound_update s.router op false t
    rw [callsIn_cons, if_pos (hwf.messageMode op hop)] at hb
    simpa [wanted, hop, SubRouter.bound, callsIn, calls] using hb
  | @runPosted send hr =>
    have hu : unsent { s with send := send } = unsent s := by
      rw [unsent, unsent, SendQueue.waiting_runPosted hr]
    exact hs.of_same rfl (hu ▸ List.suffix_refl _)
      (fun hup => ⟨hup, eventually_congr hu rfl fun _ => rfl⟩) Iff.rfl
  | written hw hc => exact agree_written hwf hs hw hc
  | failed hc =>
    refine hs.of_same rfl ?_ (fun hup => by cases hup) Iff.rfl
    obtain ⟨-, hposted, hqueue⟩ := SendQueue.complete_failed hwf.disciplined hc
    refine ⟨subscriptions s.send.queue, ?_⟩
    simp [unsent, SendQueue.State.waiting, hposted, hqueue]
  | lost => exact hs.of_same rfl (List.suffix_refl _) (fun hup => by cases hup) Iff.rfl
  | connected hst hre => exact agree_connected hwf hs
  | start hst =>
    have hu : unsent { s with starting := false, retry := .begun } = unsent s := by
      rw [unsent, unsent, hwf.startIdle hst]
      rfl
    exact hs.of_same rfl (hu ▸ List.suffix_refl _)
      (fun hup => ⟨hup, eventually_congr hu rfl fun _ => rfl⟩) (by simp [Uncopied, hst])
  | retry hr => exact agree_retry hwf hs hok hr
  | serve hi hc =>
    exact hs.of_same rfl (List.suffix_refl _) (fun hup => ⟨hup, eventually_serve hi hc⟩) Iff.rfl
  | @serverHandleError c expired hc hup =>
    refine hs.of_same rfl (List.suffix_refl _) (fun hu => ⟨hu, ?_⟩) Iff.rfl
    refine eventually_congr rfl rfl fun t => ?_
    rw [TopicManager.holds_removeAllTopic (by simpa using hc)]
    simp [Ne.symm (hup hu)]

/-- In every run whose copies of the table are taken as `CopyOk` says, server and
client agree on every topic in every quiescent state. -/
theorem quiescent_agree {as : List (Action F G)} {s : State F G}
    (hc : Conforms step CopyOk initial as) (hr : run step initial as = some s)
    (hq : Quiescent s) (t : Bytes) :
    s.topics.holds s.conn t = true ↔ isSubscribe s.router t = true := by
  have hinv : WellFormed s ∧ Agree s := conforming_invariant (I := fun s => WellFormed s ∧ Agree s)
    (fun _ _ _ hs hok h => ⟨step_wellFormed hs.1 h, step_agree hs.1 hs.2 hok h⟩)
    ⟨initial_wellFormed, initial_agree⟩ hc hr
  obtain ⟨hcall, hup, hst, hre, hwait, hrec⟩ := hq
  have hcopied : ¬ Uncopied s := by simp [Uncopied, hst, hre]
  have hunsent : unsent s = [] := by simp [unsent, hwait, hre, remaining, subscriptions]
  have hagree := hinv.2.copied hup hcopied t
  rw [eventually_eq, hunsent, hrec] at hagree
  simp only [lastWrite_nil, Option.getD_none, subscriptions, List.filterMap_nil, written_nil, wanted,
    hcall, Option.toList_none, calls, List.map_nil] at hagree
  rw [hagree]
  rfl

instance (s : State F G) [DecidableEq F] [DecidableEq G] : (a : Action F G) → Decidable (CopyOk s a)
  | .retry => inferInstanceAs (Decidable (s.retry = .begun → ∀ op ∈ s.inProgress,
      if op.subscribes then s.router.isBind op.topic = true ∨ op.request ∈ s.send.waiting
      else s.router.isBind op.topic = false))
  | .cancelSubscribe topicName => inferInstanceAs (Decidable (topicName ∉ remaining s.retry))
  | .subscribe _ _ | .update | .runPosted | .writeDone _ _ | .lost | .connected | .start
  | .serve _ | .serverHandleError _ _ => .isTrue trivial

instance (s : State F G) [DecidableEq F] [DecidableEq G] : Decidable (Quiescent s) :=
  inferInstanceAs (Decidable (s.inProgress = none ∧ s.up = true ∧ s.starting = false ∧
    s.retry = .idle ∧ s.send.waiting = [] ∧ received s = []))

theorem quiescent_agree_resubscribed :
    ∃ s : State Unit Unit, run step initial [.subscribe [116] (), .update, .runPosted, .lost,
        .writeDone 0 true, .connected, .start, .retry, .retry, .retry, .retry, .runPosted,
        .writeDone 0 false, .serve []] = some s ∧ Quiescent s ∧
      (s.topics.holds s.conn [116] = true ↔ isSubscribe s.router [116] = true) := by
  have hrun : (run step (initial : State Unit Unit) [.subscribe [116] (), .update, .runPosted, .lost,
      .writeDone 0 true, .connected, .start, .retry, .retry, .retry, .retry, .runPosted,
      .writeDone 0 false, .serve []]).map (fun s => decide (Quiescent s)) = some true := by decide
  obtain ⟨s, hs, hq⟩ := Option.map_eq_some_iff.mp hrun
  exact ⟨s, hs, of_decide_eq_true hq, quiescent_agree (by decide) hs (of_decide_eq_true hq) [116]⟩

/-- The request of a subscribe is lost with its connection, and the table is copied
for the next one before the call has bound its callback. -/
theorem quiescent_disagree : ¬ ∀ (as : List (Action Unit Unit)) (s : State Unit Unit),
    run step initial as = some s → Quiescent s →
      ∀ t, s.topics.holds s.conn t = true ↔ isSubscribe s.router t = true := by
  intro h
  have hrun : (run step (initial : State Unit Unit) [.subscribe [116] (), .runPosted, .lost,
      .writeDone 0 true, .connected, .start, .retry, .retry, .retry, .update]).map
      (fun s => (decide (Quiescent s), s.topics.holds s.conn [116], isSubscribe s.router [116])) =
      some (true, false, true) := by decide
  obtain ⟨s, hs, he⟩ := Option.map_eq_some_iff.mp hrun
  simp only [Prod.mk.injEq, decide_eq_true_eq] at he
  obtain ⟨hq, hholds, hsub⟩ := he
  have := (h _ s hs hq [116]).mpr hsub
  rw [hholds] at this
  cases this

end Czrpc.Reconnection
