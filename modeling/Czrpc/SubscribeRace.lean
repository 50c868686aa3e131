import Czrpc.Echo
import Czrpc.Subscribing

/-! The first subscribe to a topic and the pushes that it brings. The call posts its request
before it binds its handler, so that a push may reach the pool thread in between. -/
namespace Czrpc.Subscribing
open Execution Framing Protocol Subscriptions
open Dispatch (Protobuf)

variable {F G : Type*} {M D : Type}

def modeOf (raw : Bool) : SerializeMode := if raw then .nonSerialize else .serialize

/-- No call cancels the topic, and the first one subscribes to it in the mode. -/
def FirstSubscribe (t : Bytes) (raw : Bool) (called : List (Op F G)) : Prop :=
  (∀ op ∈ called, op.topic = t → op.subscribes = true) ∧
    ∀ op ∈ (called.filter fun op => op.topic = t).head?, op.raw = raw

/-- The pool thread runs no push while a subscribe to its topic in its mode stands between its
request and its bind. -/
def BindFirst (s : State F G) : Action F G → Prop
  | .route => ∀ content ∈ s.client.pushes[s.routed.length]?, ∀ op ∈ s.client.inProgress,
      op.subscribes = true → op.topic = content.protocol → modeOf op.raw ≠ content.mode
  | _ => True

/-- A call on the topic in the mode is in progress, or has bound its handler. -/
def Pending (t : Bytes) (raw : Bool) (s : SubClient.State F G) : Prop :=
  (∃ op ∈ s.inProgress, op.topic = t ∧ op.raw = raw) ∨ s.router.bound raw t = true

theorem client_pending {isResend : Bool} {s s' : SubClient.State F G} {a : SubClient.Action F G}
    {t : Bytes} {raw : Bool} (hp : Pending t raw s)
    (hsub : ∀ op ∈ s.inProgress, op.topic = t → op.subscribes = true)
    (h : SubClient.step isResend s a = some s') : Pending t raw s' := by
  cases SubClient.step_effect h with
  | @call op =>
    rcases hp with ⟨op', hop', hmatch⟩ | hb
    · exact Or.inl ⟨op', List.mem_append_left _ hop', hmatch⟩
    · exact Or.inr hb
  | @update j op hop =>
    have hbound : (op.update s.router).bound raw t =
        if op.raw = raw ∧ op.topic = t then op.subscribes else s.router.bound raw t := by
      rw [bound_update, written_callsIn_single]
    by_cases hmatch : op.raw = raw ∧ op.topic = t
    · rw [if_pos hmatch] at hbound
      exact Or.inr (hbound.trans (hsub op (List.mem_of_getElem? hop) hmatch.2))
    · rw [if_neg hmatch] at hbound
      rcases hp with ⟨op', hop', htopic, hraw⟩ | hb
      · obtain ⟨k, hk⟩ := List.mem_iff_getElem?.mp hop'
        have hkj : k ≠ j := by
          rintro rfl
          obtain rfl := Option.some.inj (hk.symm.trans hop)
          exact hmatch ⟨hraw, htopic⟩
        exact Or.inl ⟨op', List.mem_eraseIdx_iff_getElem?.mpr ⟨k, hkj, hk⟩, htopic, hraw⟩
      · exact Or.inr (hbound.trans hb)
  | @complete _ _ event => cases event <;> exact hp
  | _ => exact hp

theorem FirstSubscribe.of_append {t : Bytes} {raw : Bool} {as bs : List (Op F G)}
    (h : FirstSubscribe t raw (as ++ bs)) : FirstSubscribe t raw as := by
  refine ⟨fun op hop => h.1 op (List.mem_append_left _ hop), fun op hop => h.2 op ?_⟩
  rw [List.filter_append, List.head?_append, hop]
  rfl

theorem FirstSubscribe.raw_eq {t : Bytes} {raw : Bool} {called : List (Op F G)} {op : Op F G}
    (h : FirstSubscribe t raw (called ++ [op])) (hclean : ∀ op ∈ called, op.topic ≠ t)
    (hop : op.topic = t) : op.raw = raw := by
  have hnil : (called.filter fun op => op.topic = t) = [] :=
    List.filter_eq_nil_iff.mpr fun op hop => by simpa using hclean op hop
  refine h.2 op ?_
  rw [List.filter_append, hnil]
  simp [hop]

def newCall : SubClient.Action F G → Option (Op F G)
  | .call op => some op
  | _ => none

theorem network_called {s u : State F G} {a : SubClient.Action F G} (h : network s a = some u) :
    u.called = s.called ++ (newCall a).toList ∧ u.routed = s.routed := by
  have hnone : s.called = s.called ++ [] := (List.append_nil _).symm
  unfold network at h
  split at h
  · obtain rfl := Option.some.inj h
    exact ⟨hnone, rfl⟩
  · obtain rfl := Option.some.inj h
    exact ⟨rfl, rfl⟩
  · split_ifs at h
    · obtain rfl := Option.some.inj h
      exact ⟨hnone, rfl⟩
    · obtain rfl := Option.some.inj h
      exact ⟨hnone, rfl⟩
  · obtain rfl := Option.some.inj h
    split_ifs <;> exact ⟨hnone, rfl⟩
  · obtain ⟨content, -, rfl⟩ := Option.map_eq_some_iff.mp h
    split_ifs <;> exact ⟨hnone, rfl⟩
  all_goals
    obtain rfl := Option.some.inj h
    exact ⟨hnone, rfl⟩

def Known (s : State F G) : Prop := ∀ op ∈ s.client.inProgress, op ∈ s.called

def Found (t : Bytes) (raw : Bool) (routed : List (PushContent × Outcome)) : Prop :=
  ∀ e ∈ routed, e.1.protocol = t → e.1.mode = modeOf raw → e.2 ≠ .routeFailed

/-- The topic is pending, or nothing of it has come in yet. -/
structure Inv (t : Bytes) (raw : Bool) (s : State F G) : Prop where
  known : Known s
  pending : FirstSubscribe t raw s.called → Pending t raw s.client ∨ Clean t s
  found : FirstSubscribe t raw s.called → Found t raw s.routed

theorem initial_inv (t : Bytes) (raw : Bool) : Inv t raw (initial : State F G) :=
  ⟨nofun, fun _ => Or.inr (initial_clean t), nofun⟩

theorem routerThread_of_bound {pb : Protobuf M D} {r : SubRouter F G} {content : PushContent}
    {raw : Bool} (hmode : content.mode = modeOf raw) (hb : r.bound raw content.protocol = true) :
    routerThread pb r content ≠ .routeFailed := by
  unfold routerThread
  cases raw with
  | false =>
    have hmessage : content.mode = .serialize := hmode
    have hbind : r.isBind content.protocol = true := hb
    rw [if_pos hmessage, if_pos hbind]
    split <;> nofun
  | true =>
    have hraw : content.mode = .nonSerialize := hmode
    have hbind : r.isBindRaw content.protocol = true := hb
    rw [hraw, if_neg (by decide), if_pos rfl, if_pos hbind]
    nofun

theorem route_inv {pb : Protobuf M D} {s : State F G} {t : Bytes} {raw : Bool} (hs : Inv t raw s)
    {content : PushContent} (hnext : s.client.pushes[s.routed.length]? = some content)
    (hok : ∀ op ∈ s.client.inProgress, op.subscribes = true → op.topic = content.protocol →
      modeOf op.raw ≠ content.mode) :
    Inv t raw { s with routed := s.routed ++ [(content, routerThread pb s.client.router content)] } := by
  refine ⟨hs.known, fun hfirst => ?_, fun hfirst => ?_⟩
  · rcases hs.pending hfirst with hp | hclean
    · exact Or.inl hp
    · exact Or.inr { hclean with }
  · refine List.forall_mem_append.mpr ⟨hs.found hfirst, List.forall_mem_singleton.mpr ?_⟩
    intro hprotocol hmode
    have hprotocol : content.protocol = t := hprotocol
    rcases hs.pending hfirst with (⟨op, hop, htopic, hraw⟩ | hb) | hclean
    · have hsub : op.subscribes = true := hfirst.1 op (hs.known op hop) htopic
      exact absurd (hraw ▸ hmode.symm) (hok op hop hsub (htopic.trans hprotocol.symm))
    · exact routerThread_of_bound hmode (hprotocol ▸ hb)
    · exact absurd hprotocol (hclean.client.pushes content (List.mem_of_getElem? hnext))

theorem inProgress_of_step {isResend : Bool} {s s' : SubClient.State F G} {a : SubClient.Action F G}
    (h : SubClient.step isResend s a = some s') :
    ∀ op ∈ s'.inProgress, op ∈ s.inProgress ∨ a = .call op := by
  intro op hop
  cases SubClient.step_effect h with
  | call =>
    rcases List.mem_append.mp hop with hop | hop
    · exact Or.inl hop
    · exact Or.inr (by rw [List.mem_singleton.mp hop])
  | update => exact Or.inl (List.mem_of_mem_eraseIdx hop)
  | @complete _ _ event => cases event <;> exact Or.inl hop
  | _ => exact Or.inl hop

theorem client_inv {isResend : Bool} {s u : State F G} {client : SubClient.State F G}
    {a : SubClient.Action F G} {t : Bytes} {raw : Bool} (hs : Inv t raw s) (hu : network s a = some u)
    (hclient : SubClient.step isResend s.client a = some client) :
    Inv t raw { u with client := client } := by
  obtain ⟨hcalled, hrouted⟩ := network_called hu
  have hbefore : FirstSubscribe t raw u.called → FirstSubscribe t raw s.called := by
    intro hfirst
    rw [hcalled] at hfirst
    exact hfirst.of_append
  refine ⟨?_, fun hfirst => ?_, fun hfirst => ?_⟩
  · intro op hop
    change op ∈ u.called
    rw [hcalled]
    rcases inProgress_of_step hclient op hop with hop | rfl
    · exact List.mem_append_left _ (hs.known op hop)
    · exact List.mem_append_right _ List.mem_cons_self
  · rcases hs.pending (hbefore hfirst) with hp | hclean
    · have hsub : ∀ op ∈ s.client.inProgress, op.topic = t → op.subscribes = true :=
        fun op hop => (hbefore hfirst).1 op (hs.known op hop)
      exact Or.inl (client_pending hp hsub hclient)
    · by_cases hcall : ∀ op, a = .call op → op.topic ≠ t
      · obtain ⟨hnetwork, hread⟩ := network_clean hclean hcall hu
        exact Or.inr { hnetwork with client := client_clean hclean.client hcall hread hclient }
      · push Not at hcall
        obtain ⟨op, rfl, htopic⟩ := hcall
        obtain rfl := Option.some.inj hu
        obtain rfl := Option.some.inj hclient
        have hraw : op.raw = raw := FirstSubscribe.raw_eq hfirst hclean.called htopic
        exact Or.inl (Or.inl ⟨op, List.mem_append_right _ List.mem_cons_self, htopic, hraw⟩)
  · change Found t raw u.routed
    rw [hrouted]
    exact hs.found (hbefore hfirst)

theorem other_frame {pb : Protobuf M D} {isResend : Bool} {s s' : State F G} {a : Action F G}
    (h : step pb isResend s a = some s') (hclient : ∀ b, a ≠ .client b) (hroute : a ≠ .route) :
    s'.client = s.client ∧ s'.called = s.called ∧ s'.routed = s.routed := by
  unfold step at h
  split at h
  · exact absurd rfl (hclient _)
  · exact absurd rfl hroute
  · obtain rfl := Option.some.inj h
    exact ⟨rfl, rfl, rfl⟩
  · split at h
    · split_ifs at h
      obtain rfl := Option.some.inj h
      exact ⟨rfl, rfl, rfl⟩
    · cases h
  · split_ifs at h
    obtain rfl := Option.some.inj h
    exact ⟨rfl, rfl, rfl⟩
  · obtain rfl := Option.some.inj h
    exact ⟨rfl, rfl, rfl⟩
  · split at h
    · obtain rfl := Option.some.inj h
      exact ⟨rfl, rfl, rfl⟩
    · cases h

theorem other_inv {pb : Protobuf M D} {isResend : Bool} {s s' : State F G} {a : Action F G} {t : Bytes}
    {raw : Bool} (hs : Inv t raw s) (h : step pb isResend s a = some s')
    (hclient : ∀ b, a ≠ .client b) (hroute : a ≠ .route) : Inv t raw s' := by
  obtain ⟨he, hcalled, hrouted⟩ := other_frame h hclient hroute
  refine ⟨?_, fun hfirst => ?_, fun hfirst => ?_⟩
  · rw [Known, he, hcalled]
    exact hs.known
  · rw [hcalled] at hfirst
    rw [he]
    rcases hs.pending hfirst with hp | hclean
    · exact Or.inl hp
    · exact Or.inr (step_clean hclean (fun op ha => absurd ha (hclient _)) h)
  · rw [hcalled] at hfirst
    rw [hrouted]
    exact hs.found hfirst

theorem step_inv {pb : Protobuf M D} {isResend : Bool} {s s' : State F G} {a : Action F G} {t : Bytes}
    {raw : Bool} (hs : Inv t raw s) (hok : BindFirst s a) (h : step pb isResend s a = some s') :
    Inv t raw s' := by
  cases a with
  | client a =>
    obtain ⟨u, hu, h⟩ := Option.bind_eq_some_iff.mp h
    obtain ⟨client, hclient, rfl⟩ := Option.map_eq_some_iff.mp h
    exact client_inv hs hu hclient
  | route =>
    obtain ⟨content, hnext, rfl⟩ := Option.map_eq_some_iff.mp h
    exact route_inv hs hnext (hok content hnext)
  | _ => exact other_inv hs h nofun nofun

/-- In every run in which the pool thread runs no push while a subscribe to its topic stands
between its request and its bind: if the first call on a topic subscribes to it and none cancels
it, then every push on it in the mode of that call has found a handler. -/
theorem pushes_handled (pb : Protobuf M D) (isResend : Bool) {as : List (Action F G)} {s : State F G}
    (hc : Conforms (step pb isResend) BindFirst initial as)
    (hr : run (step pb isResend) initial as = some s) {t : Bytes} {raw : Bool}
    (hfirst : FirstSubscribe t raw s.called) : Found t raw s.routed := by
  have hinv : Inv t raw s := conforming_invariant (fun _ _ _ => step_inv) (initial_inv t raw) hc hr
  exact hinv.found hfirst

instance (s : State F G) : (a : Action F G) → Decidable (BindFirst s a)
  | .route => inferInstanceAs (Decidable (∀ content ∈ s.client.pushes[s.routed.length]?,
      ∀ op ∈ s.client.inProgress, op.subscribes = true → op.topic = content.protocol →
        modeOf op.raw ≠ content.mode))
  | .client _ | .lost | .serve _ _ | .serverHandleError _ _ | .publish _ | .push _ => .isTrue trivial

def subscribeAndPublish (last : List (Action Unit Unit)) : List (Action Unit Unit) :=
  [.client .run, .client (.call (.subscribeRaw [116] ())), .client .runPosted,
    .client (.writeDone 0 false), .serve 0 [], .publish ⟨.nonSerialize, [116], [], [104]⟩, .push 0,
    .client (.complete (.head 0 false)),
    .client (.complete (.content 0 false ⟨.nonSerialize, [116], [], [104]⟩))] ++ last

theorem pushes_handled_bound :
    ∃ s, run (step Echo.textProtobuf false) initial
        (subscribeAndPublish [.client (.update 0), .route]) = some s ∧
      s.routed = [(⟨.nonSerialize, [116], [], [104]⟩, .handled)] ∧ Found [116] true s.routed := by
  have hrun : (run (step Echo.textProtobuf false) initial
      (subscribeAndPublish [.client (.update 0), .route])).map (fun s => (s.called, s.routed)) =
      some ([.subscribeRaw [116] ()], [(⟨.nonSerialize, [116], [], [104]⟩, .handled)]) := by decide
  obtain ⟨s, hs, he⟩ := Option.map_eq_some_iff.mp hrun
  obtain ⟨hcalled, hrouted⟩ := Prod.mk.inj he
  have hfirst : FirstSubscribe [116] true s.called := by
    rw [hcalled]
    exact ⟨by decide, by decide⟩
  exact ⟨s, hs, hrouted, pushes_handled _ false (by decide) hs hfirst⟩

/-- The push is run before the handler is bound. -/
theorem push_dropped : ¬ ∀ (isResend : Bool) (as : List (Action Unit Unit)) (s : State Unit Unit)
    (t : Bytes) (raw : Bool), run (step Echo.textProtobuf isResend) initial as = some s →
      FirstSubscribe t raw s.called → Found t raw s.routed := by
  intro h
  have hrun : (run (step Echo.textProtobuf false) initial
      (subscribeAndPublish [.route, .client (.update 0)])).map (fun s => (s.called, s.routed)) =
      some ([.subscribeRaw [116] ()], [(⟨.nonSerialize, [116], [], [104]⟩, .routeFailed)]) := by decide
  obtain ⟨s, hs, he⟩ := Option.map_eq_some_iff.mp hrun
  obtain ⟨hcalled, hrouted⟩ := Prod.mk.inj he
  have hfirst : FirstSubscribe [116] true s.called := by
    rw [hcalled]
    exact ⟨by decide, by decide⟩
  have hfound := h false _ s [116] true hs hfirst
  rw [hrouted] at hfound
  exact hfound _ List.mem_cons_self rfl rfl rfl

end Czrpc.Subscribing
