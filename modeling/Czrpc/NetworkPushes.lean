import Czrpc.NetworkService

/-! What a subscriber is sent: only what has been published, and only under topics that it has asked
for. -/
namespace Czrpc.Network
open Execution Framing Protocol ServerWrites WorkPool
open Dispatch (Protobuf)
open Pipe (frames)

variable {C H : Type*} {M D : Type} {n : ℕ} [DecidableEq C] {pb : Protobuf M D}

def Wanted (s : Server.State C n) (c : C) (topic : Bytes) : Prop :=
  ∃ content, (c, content) ∈ s.routed ∧ subscription content = some (topic, true)

omit [DecidableEq C] in
theorem Wanted.mono {s t : Server.State C n} {c : C} {topic : Bytes} (h : Wanted s c topic)
    (hr : s.routed ⊆ t.routed) : Wanted t c topic :=
  let ⟨content, hm, hsub⟩ := h
  ⟨content, hr hm, hsub⟩

/-- The content that an action publishes. -/
def Publishes (pb : Protobuf M D) (content : PushContent) : ServerWrites.Action C H M n → Prop
  | .publish _ topicName message => publishContent pb topicName message = .ok content
  | .publishRaw _ topicName message => publishRawContent topicName message = content
  | _ => False

omit [DecidableEq C] in
theorem Publishes.own {content : PushContent} {a : ServerWrites.Action C H M n}
    (h : Publishes pb content a) : own a = true := by
  cases a with
  | publish | publishRaw => rfl
  | _ => cases h

/-- Entries are of connections that want their topic, and so is what the publishers are at and what
they have written; it has all been published. -/
structure Solicited (P : PushContent → Prop) (s : ServerWrites.State C H n) : Prop where
  topics : ∀ e ∈ s.core.topics.topicMap, Wanted s.core e.2 e.1
  publishing : ∀ t call, s.publishing t = some call →
    P call.1 ∧ ∀ c ∈ call.2, Wanted s.core c call.1.protocol
  written : ∀ e ∈ s.written, ∀ content, e.2 = .push content →
    P content ∧ Wanted s.core e.1 content.protocol

theorem mem_routerThread_asked {alive : C → Bool} {tm : TopicManager C} {content : RequestContent}
    {c : C} {e : Bytes × C} (h : e ∈ (tm.routerThread alive content c).topicMap) :
    e ∈ tm.topicMap ∨ e.2 = c ∧ subscription content = some (e.1, true) := by
  unfold TopicManager.routerThread at h
  split_ifs at h with hcall hsub
  · exact Or.inl h
  · unfold TopicManager.subscriberComing at h
    split_ifs at h with hbody
    · unfold TopicManager.addTopic at h
      split_ifs at h
      · exact Or.inl h
      · rcases List.mem_append.mp h with h | h
        · exact Or.inl h
        · obtain rfl := List.mem_singleton.mp h
          exact Or.inr ⟨rfl, by simp [subscription, hsub, hbody]⟩
    · exact Or.inl (List.mem_of_mem_filter h)
    · exact Or.inl h
  · exact Or.inl h

theorem core_topics {s t : Server.State C n} {a : Server.Action C n} (hcore : CoreInv s)
    (hs : ∀ e ∈ s.topics.topicMap, Wanted s e.2 e.1) (h : Server.step s a = some t) :
    ∀ e ∈ t.topics.topicMap, Wanted t e.2 e.1 := by
  intro e he
  have hr := routed_subset h
  cases Server.step_effect h with
  | accept | headRead | contentRead | take => exact (hs e he).mono hr
  | headFailed | contentFailed =>
    have hbefore := mem_handleError he
    exact (hs e hbefore).mono hr
  | execute hp =>
    rcases mem_routerThread_asked he with he | ⟨hc, hsub⟩
    · exact (hs e he).mono hr
    · have hdone := hcore.tasks _ (Or.inr ⟨_, (finish_eq_some hp).1⟩)
      exact ⟨_, hc ▸ hdone, hsub⟩

section Solicited
variable {P : PushContent → Prop}

omit [DecidableEq C] in
theorem Solicited.respond {s s' : ServerWrites.State C H n} (hs : Solicited P s)
    (hc : s'.core = s.core) (hp : s'.publishing = s.publishing)
    (hw : ∃ new : List (C × ResponseContent),
      s'.written = s.written ++ new.map fun e => (e.1, .response e.2)) : Solicited P s' := by
  obtain ⟨new, hnew⟩ := hw
  refine ⟨by rw [hc]; exact hs.topics, by rw [hc, hp]; exact hs.publishing, ?_⟩
  intro e he content hcontent
  rw [hnew] at he
  rw [hc]
  rcases List.mem_append.mp he with he | he
  · exact hs.written e he content hcontent
  · obtain ⟨rsp, -, rfl⟩ := List.mem_map.mp he
    cases hcontent

omit [DecidableEq C] in
theorem rpcComing_responds (pb : Protobuf M D) (s : ServerWrites.State C H n) (c : C)
    (content : RequestContent) (session : Option Bytes) :
    (rpcComing pb s c content session).publishing = s.publishing ∧
      ∃ new : List (C × ResponseContent), (rpcComing pb s c content session).written =
        s.written ++ new.map fun e => (e.1, .response e.2) := by
  have hroute : ∀ table, (ServerWrites.route s table c content).publishing = s.publishing ∧
      ∃ new : List (C × ResponseContent), (ServerWrites.route s table c content).written =
        s.written ++ new.map fun e => (e.1, .response e.2) := by
    intro table
    unfold ServerWrites.route
    split_ifs
    · exact ⟨rfl, [], by simp⟩
    · exact ⟨rfl, [(c, ⟨content.callId, .routeFailed, [], []⟩)], rfl⟩
  unfold rpcComing
  split_ifs
  · split
    · exact hroute _
    · exact ⟨rfl, [], by simp⟩
  · split
    · exact hroute _
    · exact ⟨rfl, [], by simp⟩
  · exact ⟨rfl, [], by simp⟩

omit [DecidableEq C] in
theorem answer_responds (s : ServerWrites.State C H n) (c : C) (work : Dispatch.Work Unit) :
    ∃ new : List (C × ResponseContent),
      (answer s c work).written = s.written ++ new.map fun e => (e.1, .response e.2) :=
  ⟨(work.output ⟨[], false⟩).written.map fun content => (c, content), by simp [answer]⟩

theorem responds_of_not_push {s s' : ServerWrites.State C H n} {a : ServerWrites.Action C H M n}
    (ha : ∀ t expired, a ≠ .push t expired) (h : ServerWrites.step pb s a = some s') :
    ∃ new : List (C × ResponseContent),
      s'.written = s.written ++ new.map fun e => (e.1, .response e.2) := by
  cases a with
  | core a =>
    obtain ⟨-, h⟩ := Option.ite_none_right_eq_some.mp h
    obtain ⟨core, -, rfl⟩ := Option.map_eq_some_iff.mp h
    exact ⟨[], by simp⟩
  | bind | unbind | bindRaw | unbindRaw =>
    obtain rfl := Option.some.inj h
    exact ⟨[], by simp⟩
  | call w session =>
    simp only [ServerWrites.step] at h
    split at h
    · rename_i c content hw
      obtain ⟨-, h⟩ := Option.ite_none_right_eq_some.mp h
      obtain rfl := Option.some.inj h
      exact (rpcComing_responds pb { s with begun := Function.update s.begun w true } c content
        session).2
    · cases h
  | setResponse r message | setResponseRaw r rawData =>
    obtain ⟨rsp, -, rfl⟩ := Option.map_eq_some_iff.mp h
    exact answer_responds s rsp.1 _
  | publish t topicName message =>
    simp only [ServerWrites.step, publishImpl] at h
    split at h
    · split at h
      · obtain rfl := Option.some.inj h
        exact ⟨[], by simp⟩
      · cases h
    · obtain rfl := Option.some.inj h
      exact ⟨[], by simp⟩
  | publishRaw t topicName message =>
    simp only [ServerWrites.step, publishImpl] at h
    split at h
    · obtain rfl := Option.some.inj h
      exact ⟨[], by simp⟩
    · cases h
  | push t expired => exact absurd rfl (ha t expired)
  | endPublish t =>
    simp only [ServerWrites.step, endPublish] at h
    split at h
    · obtain rfl := Option.some.inj h
      exact ⟨[], by simp⟩
    · cases h

omit [DecidableEq C] in
theorem Solicited.setPublishing {s : ServerWrites.State C H n} (hs : Solicited P s) (t : ℕ)
    {call : Option (PushContent × List C)}
    (h : ∀ entered, call = some entered →
      P entered.1 ∧ ∀ c ∈ entered.2, Wanted s.core c entered.1.protocol) :
    Solicited P { s with publishing := Function.update s.publishing t call } := by
  refine ⟨hs.topics, ?_, hs.written⟩
  intro u entered hu
  by_cases hut : u = t
  · subst u
    simp only [Function.update_self] at hu
    exact h entered hu
  · simp only [Function.update_of_ne hut] at hu
    exact hs.publishing u entered hu

omit [DecidableEq C] in
theorem publishImpl_solicited {s s' : ServerWrites.State C H n} (hs : Solicited P s) {t : ℕ}
    {content : PushContent} (hP : P content) (h : publishImpl s t content = some s') :
    Solicited P s' := by
  unfold publishImpl at h
  split at h
  · obtain rfl := Option.some.inj h
    refine hs.setPublishing t ?_
    intro entered hentered
    obtain rfl := Option.some.inj hentered
    refine ⟨hP, ?_⟩
    intro c hc
    obtain ⟨e, he, rfl⟩ := List.mem_map.mp hc
    obtain ⟨hm, htopic⟩ := List.mem_filter.mp he
    have hwanted := hs.topics e hm
    rwa [of_decide_eq_true htopic] at hwanted
  · cases h

omit [DecidableEq C] in
theorem pushNext_solicited {s s' : ServerWrites.State C H n} (hs : Solicited P s) {t : ℕ}
    {expired : Bool} (h : pushNext s t expired = some s') : Solicited P s' := by
  unfold pushNext at h
  split at h
  · rename_i content c rest ht
    obtain rfl := Option.some.inj h
    obtain ⟨hP, hwanted⟩ := hs.publishing t _ ht
    have hrest : Solicited P
        { s with publishing := Function.update s.publishing t (some (content, rest)) } := by
      refine hs.setPublishing t ?_
      intro entered hentered
      obtain rfl := Option.some.inj hentered
      exact ⟨hP, fun d hd => hwanted d (List.mem_cons_of_mem _ hd)⟩
    cases expired with
    | true => exact hrest
    | false =>
      refine ⟨hrest.topics, hrest.publishing, ?_⟩
      intro e he pushed hpushed
      rcases List.mem_append.mp he with he | he
      · exact hrest.written e he pushed hpushed
      · obtain rfl := List.mem_singleton.mp he
        obtain rfl := Frame.push.inj hpushed
        exact ⟨hP, hwanted c List.mem_cons_self⟩
  · cases h

theorem step_solicited {s s' : ServerWrites.State C H n} {a : ServerWrites.Action C H M n}
    (hcore : CoreInv s.core) (hs : Solicited P s) (ha : ∀ content, Publishes pb content a → P content)
    (h : ServerWrites.step pb s a = some s') : Solicited P s' := by
  cases a with
  | core a =>
    obtain ⟨-, h⟩ := Option.ite_none_right_eq_some.mp h
    obtain ⟨core, hstep, rfl⟩ := Option.map_eq_some_iff.mp h
    have hr := routed_subset hstep
    refine ⟨core_topics hcore hs.topics hstep, ?_, ?_⟩
    · intro t call ht
      obtain ⟨hP, hwanted⟩ := hs.publishing t call ht
      exact ⟨hP, fun c hc => (hwanted c hc).mono hr⟩
    · intro e he content hcontent
      obtain ⟨hP, hwanted⟩ := hs.written e he content hcontent
      exact ⟨hP, hwanted.mono hr⟩
  | bind | unbind | bindRaw | unbindRaw =>
    obtain rfl := Option.some.inj h
    exact ⟨hs.topics, hs.publishing, hs.written⟩
  | call w session =>
    simp only [ServerWrites.step] at h
    split at h
    · rename_i c content hw
      obtain ⟨-, h⟩ := Option.ite_none_right_eq_some.mp h
      obtain rfl := Option.some.inj h
      obtain ⟨hpublishing, hwritten⟩ := rpcComing_responds pb
        { s with begun := Function.update s.begun w true } c content session
      exact hs.respond (rpcComing_kept pb _ c content session).1 hpublishing hwritten
    · cases h
  | setResponse r message | setResponseRaw r rawData =>
    obtain ⟨rsp, -, rfl⟩ := Option.map_eq_some_iff.mp h
    exact hs.respond rfl rfl (answer_responds s rsp.1 _)
  | publish t topicName message =>
    simp only [ServerWrites.step] at h
    split at h
    · rename_i content hcontent
      exact publishImpl_solicited hs (ha content hcontent) h
    · obtain rfl := Option.some.inj h
      exact hs
  | publishRaw t topicName message => exact publishImpl_solicited hs (ha _ rfl) h
  | push t expired => exact pushNext_solicited hs h
  | endPublish t =>
    simp only [ServerWrites.step, endPublish] at h
    split at h
    · obtain rfl := Option.some.inj h
      refine hs.setPublishing t ?_
      intro call hcall
      cases hcall
    · cases h

end Solicited

def pushArrives : List (Action ℕ Unit Empty 1) :=
  [.down 0 .runPosted, .down 0 (.send 18), .down 0 (.arrive 18), .down 0 (.read (.transfer 12)),
    .down 0 (.read .complete), .down 0 (.read (.transfer 6)), .down 0 (.read .complete),
    .down 0 (.read .resume)]

end Czrpc.Network
