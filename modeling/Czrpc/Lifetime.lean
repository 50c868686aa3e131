import Czrpc.LinkProgress
import Czrpc.NetworkPushes

/-! How long a `connection` of the server lives. It is held by shared pointers: its pending read, a
task in the pool, a `response` object, a closure posted to its io thread and its pending write have
one each; the table of topics has weak pointers, which a publisher locks before it writes. When the
last shared pointer is gone the connection is destroyed. -/
namespace Czrpc.Lifetime
open Execution Framing Protocol ServerWrites WorkPool Network
open Dispatch (Protobuf)

variable {C H : Type*} {M D : Type} {n : ℕ}

/-- `dropped` are the response objects that no handler keeps any more. -/
structure State (C H : Type*) (n : ℕ) where
  net : Network.State C H n
  dropped : List ℕ

def initial : State C H n := ⟨Network.initial, []⟩

inductive Action (C H : Type*) (M : Type) (n : ℕ)
  | net (a : Network.Action C H M n)
  | drop (r : ℕ)

/-- No read, task or response object holds the connection. -/
structure Released (c : C) (s : State C H n) : Prop where
  reading : (s.net.up c).reader.reading = none
  queue : ∀ task ∈ s.net.server.core.pool.queue, task.1 ≠ c
  running : ∀ w, ∀ task ∈ s.net.server.core.pool.running w, task.1 ≠ c
  responses : ∀ e ∈ s.net.server.responses.zipIdx, e.1.1 = c → e.2 ∈ s.dropped

structure Unheld (c : C) (s : State C H n) : Prop extends Released c s where
  posted : (s.net.down c).send.send.posted = []
  writing : (s.net.down c).send.send.writing = []

variable [DecidableEq C]

instance (c : C) (s : State C H n) : Decidable (Released c s) :=
  decidable_of_iff
    ((s.net.up c).reader.reading = none ∧ (∀ task ∈ s.net.server.core.pool.queue, task.1 ≠ c) ∧
      (∀ w, ∀ task ∈ s.net.server.core.pool.running w, task.1 ≠ c) ∧
      (∀ e ∈ s.net.server.responses.zipIdx, e.1.1 = c → e.2 ∈ s.dropped))
    ⟨fun ⟨hr, hq, hw, hd⟩ => ⟨hr, hq, hw, hd⟩, fun ⟨hr, hq, hw, hd⟩ => ⟨hr, hq, hw, hd⟩⟩

instance (c : C) (s : State C H n) : Decidable (Unheld c s) :=
  decidable_of_iff
    (Released c s ∧ (s.net.down c).send.send.posted = [] ∧ (s.net.down c).send.send.writing = [])
    ⟨fun ⟨hr, hp, hw⟩ => ⟨hr, hp, hw⟩, fun ⟨hr, hp, hw⟩ => ⟨hr, hp, hw⟩⟩

/-- The weak pointers of the table that have expired are those of connections that nobody holds. -/
def Honest (s : State C H n) (expired : List C) : Prop :=
  (∀ c ∈ expired, Unheld c s) ∧
    ∀ e ∈ s.net.server.core.topics.topicMap, Unheld e.2 s → e.2 ∈ expired

instance (s : State C H n) (expired : List C) : Decidable (Honest s expired) :=
  inferInstanceAs (Decidable (_ ∧ _))

/-- What the pointers allow. `rpc_coming` closes the socket of the request it is at, an answer needs
its response object, and a publisher finds a weak pointer expired when nobody holds its connection. -/
def Permitted (s : State C H n) : Network.Action C H M n → Prop
  | .read c .disconnect _ => ∃ w, (s.net.server.core.pool.running w).map Prod.fst = some c
  | .read _ _ expired => Honest s expired
  | .server (.core (.execute _ expired)) => Honest s expired
  | .server (.setResponse r _) | .server (.setResponseRaw r _) => r ∉ s.dropped
  | .server (.push t expired) => ∀ call ∈ s.net.server.publishing t, ∀ c ∈ call.2.head?,
      (expired = true ↔ Unheld c s)
  | _ => True

instance (s : State C H n) : (a : Network.Action C H M n) → Decidable (Permitted s a)
  | .read c .disconnect _ =>
    inferInstanceAs (Decidable (∃ w, (s.net.server.core.pool.running w).map Prod.fst = some c))
  | .read _ (.transfer _) expired | .read _ .complete expired | .read _ .resume expired =>
    inferInstanceAs (Decidable (Honest s expired))
  | .server (.core (.execute _ expired)) => inferInstanceAs (Decidable (Honest s expired))
  | .server (.setResponse r _) | .server (.setResponseRaw r _) =>
    inferInstanceAs (Decidable (r ∉ s.dropped))
  | .server (.push t expired) =>
    inferInstanceAs (Decidable (∀ call ∈ s.net.server.publishing t, ∀ c ∈ call.2.head?,
      (expired = true ↔ Unheld c s)))
  | .server (.core (.accept _ _)) | .server (.core (.headRead _)) | .server (.core (.headFailed _ _))
  | .server (.core (.contentRead _ _)) | .server (.core (.contentFailed _ _))
  | .server (.core (.take _)) | .server (.bind _ _) | .server (.unbind _) | .server (.bindRaw _ _)
  | .server (.unbindRaw _) | .server (.call _ _) | .server (.publish _ _ _)
  | .server (.publishRaw _ _ _) | .server (.endPublish _) | .request _ _ | .up _ _ | .down _ _ =>
    .isTrue trivial

def step (type : C → ClientType) (pb : Protobuf M D) (s : State C H n) :
    Action C H M n → Option (State C H n)
  | .net a =>
    if Permitted s a then
      (Network.step type pb s.net a).map fun net => { s with net := net }
    else none
  | .drop r =>
    if r < s.net.server.responses.length then some { s with dropped := r :: s.dropped } else none

theorem step_net_eq_some {type : C → ClientType} {pb : Protobuf M D} {s t : State C H n}
    {a : Network.Action C H M n} (h : step type pb s (.net a) = some t) :
    ∃ net, Permitted s a ∧ Network.step type pb s.net a = some net ∧ t = { s with net := net } := by
  rw [step] at h
  obtain ⟨hp, h⟩ := Option.ite_none_right_eq_some.mp h
  obtain ⟨net, hnet, rfl⟩ := Option.map_eq_some_iff.mp h
  exact ⟨net, hp, hnet, rfl⟩

variable {pb : Protobuf M D} {type : C → ClientType}

theorem server_writes {s s' : ServerWrites.State C H n} {a : ServerWrites.Action C H M n}
    (h : ServerWrites.step pb s a = some s') :
    ∃ new, s'.written = s.written ++ new ∧ ∀ e ∈ new, (∃ id, Answers.Asks s a e.1 id) ∨
      ∃ t content rest, a = .push t false ∧ s.publishing t = some (content, e.1 :: rest) := by
  by_cases ha : ∃ t expired, a = .push t expired
  · obtain ⟨t, expired, rfl⟩ := ha
    simp only [ServerWrites.step, pushNext] at h
    split at h
    · rename_i content c rest ht
      obtain rfl := Option.some.inj h
      cases expired with
      | true =>
        refine ⟨[], by simp, ?_⟩
        intro e he
        cases he
      | false =>
        refine ⟨[(c, .push content)], rfl, ?_⟩
        intro e he
        obtain rfl := List.mem_singleton.mp he
        exact Or.inr ⟨t, content, rest, rfl, ht⟩
    · cases h
  · have hpush : ∀ t expired, a ≠ .push t expired := fun t expired hpush => ha ⟨t, expired, hpush⟩
    obtain ⟨answers, hanswers⟩ := responds_of_not_push hpush h
    refine ⟨_, hanswers, ?_⟩
    intro e he
    refine Or.inl ?_
    cases Answers.step_effect h with
    | core _ _ hw | opened _ _ _ _ _ hw =>
      rw [hw] at hanswers
      have hnil := List.append_cancel_left ((List.append_nil _).trans hanswers)
      rw [← hnil] at he
      cases he
    | wrote _ _ _ _ hw hnew =>
      rw [hw] at hanswers
      rw [← List.append_cancel_left hanswers] at he
      obtain ⟨rsp, hrsp⟩ : ∃ rsp, e.2 = .response rsp := by
        rw [List.append_cancel_left hanswers] at he
        obtain ⟨answer, -, rfl⟩ := List.mem_map.mp he
        exact ⟨answer.2, rfl⟩
      exact ⟨rsp.callId, hnew e he rsp hrsp⟩

omit [DecidableEq C] in
theorem Released.not_asked {s : State C H n} {c : C} (hc : Released c s)
    {a : ServerWrites.Action C H M n} (hp : Permitted s (.server a)) {d : C} {id : UInt32}
    (h : Answers.Asks s.net.server a d id) : d ≠ c := by
  have hresponse : ∀ r, r ∉ s.dropped → s.net.server.responses[r]? = some (d, id) → d ≠ c := by
    intro r hr hget hdc
    exact hr (hc.responses ((d, id), r) (List.mk_mem_zipIdx_iff_getElem?.mpr hget) hdc)
  cases a with
  | call w session =>
    obtain ⟨content, hw, -⟩ := h
    exact hc.running w _ hw
  | setResponse r | setResponseRaw r => exact hresponse r hp h
  | core | bind | unbind | bindRaw | unbindRaw | publish | publishRaw | push | endPublish => cases h

def Sends (c : C) : Action C H M n → Prop
  | .net (.down d a) => d = c ∧ Link.Sends a
  | _ => False

instance (c : C) : (a : Action C H M n) → Decidable (Sends c a)
  | .net (.down d a) => inferInstanceAs (Decidable (d = c ∧ Link.Sends a))
  | .net (.request _ _) | .net (.up _ _) | .net (.read _ _ _) | .net (.server _) | .drop _ =>
    .isFalse id

/-- No publisher writes to the connection. -/
def Spares (c : C) (s : State C H n) : Action C H M n → Prop
  | .net (.server (.push t false)) => ∀ call ∈ s.net.server.publishing t, call.2.head? ≠ some c
  | _ => True

inductive DownStep (type : C → ClientType) (c : C) (s t : State C H n) : Action C H M n → Prop
  | own {a : Link.Action}
      (h : Link.step (frameEnds (type c)) (s.net.down c) a = some (t.net.down c)) :
      DownStep type c s t (.net (.down c a))
  | other {a : Action C H M n} (ha : ¬ Sends c a) (h : t.net.down c = s.net.down c) :
      DownStep type c s t a

/-- The connection stays released, and nothing is written to it or read from it. -/
structure StaysReleased (type : C → ClientType) (c : C) (s : State C H n) (a : Action C H M n)
    (t : State C H n) : Prop where
  released : Released c t
  written : framesOf c t.net.server.written = framesOf c s.net.server.written
  routed : requestsOf c t.net.server.core.routed = requestsOf c s.net.server.core.routed
  down : DownStep type c s t a

/-- The connection is gone: it was accepted and nobody holds it. -/
structure Gone (c : C) (s : State C H n) : Prop where
  accepted : (s.net.server.core.conns c).isSome
  unheld : Unheld c s

structure StaysGone (c : C) (s t : State C H n) : Prop where
  gone : Gone c t
  written : framesOf c t.net.server.written = framesOf c s.net.server.written
  routed : requestsOf c t.net.server.core.routed = requestsOf c s.net.server.core.routed

theorem StaysGone.trans {c : C} {s t u : State C H n} (h : StaysGone c s t) (h' : StaysGone c t u) :
    StaysGone c s u :=
  ⟨h'.gone, h'.written.trans h.written, h'.routed.trans h.routed⟩

theorem no_read {r : ReadLoop.State RequestContent} {conn : Option Server.Connection}
    (hf : Follows conn r) (hr : r.reading = none) {a : ReadLoop.Action} (ha : a ≠ .disconnect) :
    ReadLoop.step requestEnds.loop r a = none := by
  have hidle : r.pc = .idle := by
    by_contra hpc
    rw [hf.rearmed hpc] at hr
    cases hr
  cases a with
  | transfer k => simp [ReadLoop.step, hr]
  | complete => simp [ReadLoop.step, hr]
  | resume => simp [ReadLoop.step, hidle]
  | disconnect => exact absurd rfl ha

theorem read_released {s : State C H n} {c d : C} {a : ReadLoop.Action} {expired : List C}
    {net : Network.State C H n} (hs : Network.Inv type s.net) (hc : Released c s)
    (hp : Permitted s (.read d a expired : Network.Action C H M n))
    (h : Network.step type pb s.net (.read d a expired) = some net) :
    StaysReleased type c s (.net (.read d a expired) : Action C H M n) { s with net := net } := by
  obtain ⟨hacc, h⟩ := Option.ite_none_right_eq_some.mp h
  obtain ⟨reader, hr, h⟩ := Option.bind_eq_some_iff.mp h
  obtain ⟨server, hserver, rfl⟩ := Option.map_eq_some_iff.mp h
  -- the loop of `c` has ended, and nobody is left to close its socket
  have hdc : d ≠ c := by
    rintro rfl
    by_cases ha : a = .disconnect
    · subst a
      obtain ⟨w, hw⟩ := hp
      obtain ⟨task, htask, hd⟩ := Option.map_eq_some_iff.mp hw
      exact hc.running w task htask hd
    · rw [no_read (hs.follows d) hc.reading ha] at hr
      cases hr
  have hfollowed := hear_followed (step_hearing hr) (hs.follows d) hacc hserver
  obtain ⟨new, -, hrouted, hqueue⟩ := hfollowed.routed
  refine ⟨⟨?_, ?_, ?_, ?_⟩, ?_, ?_, .other id rfl⟩
  · simpa [hdc.symm] using hc.reading
  · intro task htask
    rw [hqueue] at htask
    rcases List.mem_append.mp htask with htask | htask
    · exact hc.queue task htask
    · obtain ⟨content, -, rfl⟩ := List.mem_map.mp htask
      exact hdc
  · rw [hfollowed.running]
    exact hc.running
  · rw [hfollowed.responses]
    exact hc.responses
  · rw [hfollowed.written]
  · rw [hrouted, requestsOf_append, requestsOf_others hdc.symm, List.append_nil]

theorem down_released {s : State C H n} {c d : C} {a : Link.Action} {net : Network.State C H n}
    (hc : Released c s)
    (h : Network.step type pb s.net (.down d a : Network.Action C H M n) = some net) :
    StaysReleased type c s (.net (.down d a) : Action C H M n) { s with net := net } := by
  obtain ⟨link, hlink, rfl⟩ := Option.map_eq_some_iff.mp h
  refine ⟨⟨hc.reading, hc.queue, hc.running, hc.responses⟩, rfl, rfl, ?_⟩
  by_cases hdc : d = c
  · subst d
    exact .own (by simpa using hlink)
  · exact .other (fun hsends => hdc hsends.1) (Function.update_of_ne (Ne.symm hdc) _ _)

theorem up_released {s : State C H n} {c d : C} {link : Link.State RequestContent}
    (hc : Released c s) (hr : link.reader.reading = (s.net.up d).reader.reading)
    (requests : C → List RequestContent) {a : Action C H M n} (ha : ¬ Sends c a) :
    StaysReleased type c s a { s with net := { s.net with
      requests := requests
      up := Function.update s.net.up d link } } := by
  refine ⟨⟨?_, hc.queue, hc.running, hc.responses⟩, rfl, rfl, .other ha rfl⟩
  by_cases hdc : c = d
  · subst d
    simpa [hr] using hc.reading
  · simpa [hdc] using hc.reading

theorem core_pool_released {s t : Server.State C n} {c : C} {a : Server.Action C n}
    (ha : own (.core a : ServerWrites.Action C H M n) = true) (h : Server.step s a = some t)
    (hq : ∀ task ∈ s.pool.queue, task.1 ≠ c) (hw : ∀ w, ∀ task ∈ s.pool.running w, task.1 ≠ c) :
    (∀ task ∈ t.pool.queue, task.1 ≠ c) ∧ ∀ w, ∀ task ∈ t.pool.running w, task.1 ≠ c := by
  cases Server.step_effect h with
  | accept => exact ⟨hq, hw⟩
  | @take w pool hp =>
    obtain ⟨task, rest, -, hqueue, rfl⟩ := take_eq_some hp
    rw [hqueue] at hq
    refine ⟨fun x hx => hq x (List.mem_cons_of_mem _ hx), ?_⟩
    intro v x hx
    by_cases hv : v = w
    · subst v
      obtain rfl : task = x := by simpa using hx
      exact hq task List.mem_cons_self
    · simp only [Function.update_of_ne hv] at hx
      exact hw v x hx
  | @execute w expired d content pool hp =>
    obtain ⟨-, rfl⟩ := finish_eq_some hp
    refine ⟨hq, ?_⟩
    intro v x hx
    by_cases hv : v = w
    · subst v
      simp at hx
    · simp only [Function.update_of_ne hv] at hx
      exact hw v x hx
  | headRead | headFailed | contentRead | contentFailed => cases ha

theorem framesOf_others {c : C} {new : List (C × Frame)} (h : ∀ e ∈ new, e.1 ≠ c) :
    framesOf c new = [] := by
  simpa [framesOf] using h

theorem server_released {s : State C H n} {c : C} {a : ServerWrites.Action C H M n}
    {net : Network.State C H n} (hc : Released c s) (hp : Permitted s (.server a))
    (hspares : Spares c s (.net (.server a)))
    (h : Network.step type pb s.net (.server a) = some net) :
    StaysReleased type c s (.net (.server a) : Action C H M n) { s with net := net } := by
  obtain ⟨ha, h⟩ := Option.ite_none_right_eq_some.mp h
  obtain ⟨server, hserver, rfl⟩ := Option.map_eq_some_iff.mp h
  obtain ⟨-, hrouted, -⟩ := own_step ha hserver
  obtain ⟨new, hnew, hwho⟩ := server_writes hserver
  have hothers : framesOf c new = [] := by
    refine framesOf_others ?_
    intro e he
    rcases hwho e he with ⟨id, hasks⟩ | ⟨t, content, rest, rfl, ht⟩
    · exact hc.not_asked hp hasks
    · rintro rfl
      exact hspares _ ht rfl
  have hpool : (∀ task ∈ server.core.pool.queue, task.1 ≠ c) ∧
      ∀ w, ∀ task ∈ server.core.pool.running w, task.1 ≠ c := by
    cases Answers.step_effect hserver with
    | core hstep => exact core_pool_released ha hstep hc.queue hc.running
    | opened _ _ _ hcore | wrote _ _ hcore =>
      rw [hcore]
      exact ⟨hc.queue, hc.running⟩
  have hresponses : ∀ e ∈ server.responses.zipIdx, e.1.1 = c → e.2 ∈ s.dropped := by
    cases Answers.step_effect hserver with
    | core _ hr | wrote _ _ _ hr =>
      rw [hr]
      exact hc.responses
    | opened _ _ hasks _ hr =>
      rw [hr, List.zipIdx_append]
      intro e he hec
      rcases List.mem_append.mp he with he | he
      · exact hc.responses e he hec
      · obtain rfl : e = ((_, _), _) := by simpa using he
        exact absurd hec (hc.not_asked hp hasks)
  have hdown : Link.postAll (s.net.down c)
      ((framesOf c (server.written.drop s.net.server.written.length)).map Frame.buffer) =
        s.net.down c := by
    rw [hnew, List.drop_left, hothers]
    rfl
  refine ⟨⟨hc.reading, hpool.1, hpool.2, hresponses⟩, ?_, ?_, .other id hdown⟩
  · rw [hnew, framesOf_append, hothers, List.append_nil]
  · rw [hrouted]

theorem step_released {s t : State C H n} {c : C} {a : Action C H M n} (hs : Network.Inv type s.net)
    (hc : Released c s) (hspares : Spares c s a) (h : step type pb s a = some t) :
    StaysReleased type c s a t := by
  cases a with
  | drop r =>
    obtain ⟨-, h⟩ := Option.ite_none_right_eq_some.mp h
    obtain rfl := Option.some.inj h
    refine ⟨⟨hc.reading, hc.queue, hc.running, ?_⟩, rfl, rfl, .other id rfl⟩
    intro e he hec
    exact List.mem_cons_of_mem _ (hc.responses e he hec)
  | net a =>
    obtain ⟨net, hp, hnet, rfl⟩ := step_net_eq_some h
    cases a with
    | request d content =>
      obtain ⟨-, hnet⟩ := Option.ite_none_right_eq_some.mp hnet
      obtain rfl := Option.some.inj hnet
      refine up_released hc ?_ _ id
      rfl
    | up d a =>
      cases a with
      | read b => cases hnet
      | runPosted | send | written | arrive | lose =>
        simp only [Network.step, Option.map_eq_some_iff] at hnet
        obtain ⟨link, hlink, rfl⟩ := hnet
        exact up_released hc (Link.step_reader (fun b hb => by cases hb) hlink).2.1 _ id
    | read d a expired => exact read_released hs hc hp hnet
    | down d a => exact down_released hc hnet
    | server a => exact server_released hc hp hspares hnet

theorem Released.accepted {s : State C H n} {c : C} (hc : Released c s)
    (hs : Network.Inv type s.net) : (s.net.server.core.conns c).isSome := by
  cases hconn : s.net.server.core.conns c with
  | some entry => rfl
  | none =>
    have hhead := ((hs.follows c).waiting hconn).1
    rw [hc.reading] at hhead
    cases hhead

theorem step_net {s t : State C H n} {a : Action C H M n} (hs : Network.Inv type s.net)
    (h : step type pb s a = some t) : Network.Inv type t.net := by
  cases a with
  | drop r =>
    obtain ⟨-, h⟩ := Option.ite_none_right_eq_some.mp h
    obtain rfl := Option.some.inj h
    exact hs
  | net a =>
    obtain ⟨net, -, hnet, rfl⟩ := step_net_eq_some h
    exact Network.step_inv hs hnet

theorem run_net {as : List (Action C H M n)} {s : State C H n}
    (hr : run (step type pb) initial as = some s) : Network.Inv type s.net :=
  run_invariant (I := fun s => Network.Inv type s.net) (fun _ _ _ => step_net) Network.initial_inv hr

theorem Gone.spares {s t : State C H n} {c : C} (hc : Gone c s) {a : Action C H M n}
    (h : step type pb s a = some t) : Spares c s a := by
  cases a with
  | drop r => trivial
  | net a =>
    obtain ⟨net, hp, -, -⟩ := step_net_eq_some h
    cases a with
    | request | up | read | down => trivial
    | server a =>
      cases a with
      | push t expired =>
        cases expired with
        | true => trivial
        | false =>
          intro call hcall hhead
          exact absurd ((hp call hcall c hhead).mpr hc.unheld) (by simp)
      | core | bind | unbind | bindRaw | unbindRaw | call | setResponse | setResponseRaw | publish
      | publishRaw | endPublish => trivial

theorem step_gone {s t : State C H n} {c : C} {a : Action C H M n} (hs : Network.Inv type s.net)
    (hc : Gone c s) (h : step type pb s a = some t) : StaysGone c s t := by
  have hstays := step_released hs hc.unheld.toReleased (hc.spares h) h
  have hsend : (t.net.down c).send.send = (s.net.down c).send.send := by
    cases hstays.down with
    | own hlink => exact Link.step_send_idle hc.unheld.posted hc.unheld.writing hlink
    | other _ hsame => rw [hsame]
  refine ⟨⟨hstays.released.accepted (step_net hs h), hstays.released, ?_, ?_⟩, hstays.written,
    hstays.routed⟩
  · rw [hsend]
    exact hc.unheld.posted
  · rw [hsend]
    exact hc.unheld.writing

/-- In every run of a server and its clients: a connection that was accepted and that nobody holds is
never held again, whatever the clients, the workers, the handlers and the publishers do; nothing more
is written to it, and no request is taken from it. -/
theorem gone_for_good (type : C → ClientType) (pb : Protobuf M D) {as : List (Action C H M n)}
    {s : State C H n} (hr : run (step type pb) initial as = some s) {c : C} (hc : Gone c s)
    {more : List (Action C H M n)} {t : State C H n} (ht : run (step type pb) s more = some t) :
    StaysGone c s t := by
  have hs := run_net hr
  clear hr
  induction more generalizing s with
  | nil =>
    obtain rfl : s = t := by simpa using ht
    exact ⟨hc, rfl, rfl⟩
  | cons a more ih =>
    obtain ⟨u, hu, ht⟩ := run_cons_eq_some.mp ht
    have hstep := step_gone hs hc hu
    exact hstep.trans (ih hstep.gone ht (step_net hs hu))

def callServed : List (Network.Action ℕ Unit Empty 1) :=
  [.server (.bindRaw [101] ()), .request 1 callRequest] ++ requestArrives 1 ++
  [.server (.core (.take WorkPool.soleWorker)), .server (.call WorkPool.soleWorker (some [])),
    .server (.setResponseRaw 0 [2]), .server (.core (.execute WorkPool.soleWorker [])),
    .up 1 .lose, .read 1 .complete []]

def callAndLeave : List (Action ℕ Unit Empty 1) := callServed.map .net ++ [.drop 0]

def otherClient : List (Network.Action ℕ Unit Empty 1) :=
  .request 0 subscribeRequest :: requestArrives 0

def answerWritten : List (Action ℕ Unit Empty 1) :=
  [.net (.down 1 .runPosted), .net (.down 1 (.send 17)), .net (.down 1 (.written false))]

theorem gone_for_good_after_answer :
    ∃ s t : State ℕ Unit 1,
      run (step twoTypes noMessages) initial (callAndLeave ++ answerWritten) = some s ∧ Gone 1 s ∧
      run (step twoTypes noMessages) s (otherClient.map .net) = some t ∧ StaysGone 1 s t := by
  have hrun : ((run (step twoTypes noMessages) (initial : State ℕ Unit 1)
      (callAndLeave ++ answerWritten)).bind fun s =>
        (run (step twoTypes noMessages) s (otherClient.map .net)).map fun _ =>
          ((s.net.server.core.conns 1).isSome, decide (Unheld 1 s))) = some (true, true) := by
    decide +kernel
  obtain ⟨s, hs, hrest⟩ := Option.bind_eq_some_iff.mp hrun
  obtain ⟨t, ht, he⟩ := Option.map_eq_some_iff.mp hrest
  obtain ⟨hacc, hunheld⟩ := Prod.mk.inj he
  have hgone : Gone 1 s := ⟨hacc, of_decide_eq_true hunheld⟩
  exact ⟨s, t, hs, hgone, ht, gone_for_good twoTypes noMessages hs hgone ht⟩

theorem StaysReleased.work {s t : State C H n} {c : C} {a : Action C H M n}
    (hs : Network.Inv type s.net) (h : StaysReleased type c s a t) :
    Link.sendWork (t.net.down c) + (if Sends c a then 1 else 0) ≤ Link.sendWork (s.net.down c) := by
  cases h.down with
  | @own a hlink =>
    by_cases ha : Link.Sends a
    · have hless := Link.step_sendWork (hs.down c) ha hlink
      rw [if_pos ⟨rfl, ha⟩]
      omega
    · rw [if_neg (fun hsends => ha hsends.2), Link.step_sendWork_of_not_sends ha hlink, Nat.add_zero]
  | other ha hsame => rw [if_neg ha, hsame, Nat.add_zero]

theorem run_released {s t : State C H n} {c : C} {more : List (Action C H M n)}
    (hs : Network.Inv type s.net) (hc : Released c s)
    (hspares : Conforms (step type pb) (Spares c) s more)
    (ht : run (step type pb) s more = some t) :
    Network.Inv type t.net ∧ Released c t ∧
      Link.sendWork (t.net.down c) + more.countP (fun a => decide (Sends c a)) ≤
        Link.sendWork (s.net.down c) := by
  induction more generalizing s with
  | nil =>
    obtain rfl : s = t := by simpa using ht
    exact ⟨hs, hc, by simp⟩
  | cons a more ih =>
    obtain ⟨u, hu, ht⟩ := run_cons_eq_some.mp ht
    have hstays := step_released hs hc hspares.1 hu
    have hwork := hstays.work hs
    obtain ⟨hinv, hend, hlen⟩ := ih (step_net hs hu) hstays.released (hspares.2 u hu) ht
    refine ⟨hinv, hend, ?_⟩
    simp only [List.countP_cons, decide_eq_true_eq]
    omega

instance (c : C) (s : State C H n) : (a : Action C H M n) → Decidable (Spares c s a)
  | .net (.server (.push t false)) =>
    inferInstanceAs (Decidable (∀ call ∈ s.net.server.publishing t, call.2.head? ≠ some c))
  | .net (.server (.push _ true)) | .net (.server (.core _)) | .net (.server (.bind _ _))
  | .net (.server (.unbind _)) | .net (.server (.bindRaw _ _)) | .net (.server (.unbindRaw _))
  | .net (.server (.call _ _)) | .net (.server (.setResponse _ _))
  | .net (.server (.setResponseRaw _ _)) | .net (.server (.publish _ _ _))
  | .net (.server (.publishRaw _ _ _)) | .net (.server (.endPublish _)) | .net (.request _ _)
  | .net (.up _ _) | .net (.read _ _ _) | .net (.down _ _) | .drop _ => .isTrue trivial

end Czrpc.Lifetime
