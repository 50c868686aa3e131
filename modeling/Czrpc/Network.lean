import Czrpc.Answers
import Czrpc.Link
import Czrpc.StreamRoundTrip

/-! A server, any number of connections to it, and the client at the other end of each. The requests
and the frames that the server writes go as bytes through send queues, over connections that may be
lost at any moment, and into read loops; the workers, the handlers and the publishers of the server
run in any order meanwhile.

A connection belongs to one client for all its life: a client that reconnects has a new one, and what
its queue still holds counts as posted there. The blocking `write` and `read` of `rpc_client` are such
a queue and such a loop, used for one frame at a time. -/
namespace Czrpc.Network
open Execution Framing Protocol ServerWrites
open Dispatch (Protobuf)
open Pipe (frames)

variable {C H : Type*} {M D : Type} {n : ℕ}

def requestEnds : Link.Ends RequestContent := ⟨StreamRoundTrip.connectionLoop, .clientBase⟩

/-- What a client takes the bytes from the server for: pushes if it is a `sub_client`, and responses
if it is not. A frame on the wire does not say which of the two it is. -/
def clientLoop (type : ClientType) : ReadLoop.Loop Frame :=
  if type = .subClient then ⟨StreamRoundTrip.subClientLoop.toFormat.map .push, true⟩
  else ⟨StreamRoundTrip.asyncRpcClientLoop.toFormat.map .response, true⟩

def frameEnds (type : ClientType) : Link.Ends Frame := ⟨clientLoop type, .connection⟩

structure State (C H : Type*) (n : ℕ) where
  server : ServerWrites.State C H n
  requests : C → List RequestContent
  up : C → Link.State RequestContent
  down : C → Link.State Frame

def initial : State C H n :=
  ⟨ServerWrites.initial, fun _ => [], fun _ => Link.initial, fun _ => Link.initial⟩

/-- `read` is a step of the read loop of a `connection`, and `up` any other one of its requests'
way; `expired` is as in the server. -/
inductive Action (C H : Type*) (M : Type) (n : ℕ)
  | request (c : C) (content : RequestContent)
  | up (c : C) (a : Link.Action)
  | read (c : C) (a : ReadLoop.Action) (expired : List C)
  | down (c : C) (a : Link.Action)
  | server (a : ServerWrites.Action C H M n)

/-- What a step of the read loop of a connection means for the server. -/
def heard (c : C) (expired : List C) (before after : ReadLoop.State RequestContent) :
    Option (Server.Action C n) :=
  match after.events.drop before.events.length with
  | .frame content :: _ => some (.contentRead c content)
  | .error :: _ =>
    some (if before.pc = .idle then .headFailed c expired else .contentFailed c expired)
  | [] =>
    if before.reading = some .head ∧ after.reading = some .content then some (.headRead c) else none

def own : ServerWrites.Action C H M n → Bool
  | .core (.headRead _) | .core (.headFailed _ _) | .core (.contentRead _ _)
  | .core (.contentFailed _ _) => false
  | _ => true

variable [DecidableEq C]

def framesOf (c : C) (log : List (C × Frame)) : List Frame :=
  (log.filter fun e => e.1 = c).map Prod.snd

def hear (pb : Protobuf M D) (server : ServerWrites.State C H n) :
    Option (Server.Action C n) → Option (ServerWrites.State C H n)
  | some a => ServerWrites.step pb server (.core a)
  | none => some server

/-- The requests of a client are of its own type. What the server writes is posted to the
connections it is for. -/
def step (type : C → ClientType) (pb : Protobuf M D) (s : State C H n) :
    Action C H M n → Option (State C H n)
  | .request c content =>
    if content.flag.type = type c then
      some { s with
        requests := Function.update s.requests c (s.requests c ++ [content])
        up := Function.update s.up c (Link.post (s.up c) (requestCodec.encode content)) }
    else none
  -- what the server reads changes the server: that is `read`
  | .up _ (.read _) => none
  | .up c a =>
    (Link.step requestEnds (s.up c) a).map fun link => { s with up := Function.update s.up c link }
  | .read c a expired =>
    if (s.server.core.conns c).isSome then
      (ReadLoop.step requestEnds.loop (s.up c).reader a).bind fun reader =>
        (hear pb s.server (heard c expired (s.up c).reader reader)).map fun server =>
          { s with
            server := server
            up := Function.update s.up c { s.up c with reader := reader } }
    else none
  | .down c a =>
    (Link.step (frameEnds (type c)) (s.down c) a).map fun link =>
      { s with down := Function.update s.down c link }
  -- what the server has written in this step is posted to the connections
  | .server a =>
    if own a then
      (ServerWrites.step pb s.server a).map fun server =>
        { s with
          server := server
          down := fun c => Link.postAll (s.down c)
            ((framesOf c (server.written.drop s.server.written.length)).map Frame.buffer) }
    else none

@[simp] def readOf : ReadLoop.Read → Server.Read
  | .head => .head
  | .content => .content

/-- The server has the read of the loop, and a content that is being delivered still counts as being
read; a connection that has not been accepted waits for its first head. -/
structure Follows (conn : Option Server.Connection) (r : ReadLoop.State RequestContent) : Prop where
  rearmed : r.pc ≠ .idle → r.reading = some .head
  waiting : conn = none → r.reading = some .head ∧ r.pc = .idle
  reading : ∀ entry, conn = some entry →
    entry.reading = if r.pc = .idle then r.reading.map readOf else some .content

inductive Hearing (c : C) (expired : List C) (r r' : ReadLoop.State RequestContent) :
    Option (Server.Action C n) → Prop
  | quiet (he : frames r'.events = frames r.events)
      (hf : ∀ entry, Follows (some entry) r → Follows (some entry) r') : Hearing c expired r r' none
  | headRead (he : frames r'.events = frames r.events) (hr : r.reading = some .head)
      (hp : r.pc = .idle) (hr' : r'.reading = some .content) (hp' : r'.pc = .idle) :
      Hearing c expired r r' (some (.headRead c))
  | headFailed (he : frames r'.events = frames r.events) (hr : r.reading = some .head)
      (hp : r.pc = .idle) (hr' : r'.reading = none) (hp' : r'.pc = .idle) :
      Hearing c expired r r' (some (.headFailed c expired))
  | contentRead {content : RequestContent} (he : frames r'.events = frames r.events ++ [content])
      (hp : r.pc ≠ .idle) (hr' : r'.reading = r.reading) (hp' : r'.pc = .idle) :
      Hearing c expired r r' (some (.contentRead c content))
  | contentFailed (he : frames r'.events = frames r.events) (hp : r.pc ≠ .idle)
      (hr' : r'.reading = r.reading) (hp' : r'.pc = .idle) :
      Hearing c expired r r' (some (.contentFailed c expired))

omit [DecidableEq C] in
theorem hearing_of_events {c : C} {expired : List C} {r r' : ReadLoop.State RequestContent}
    (he : r'.events = r.events) (hr : r.reading ≠ some .head ∨ r'.reading ≠ some .content)
    (hf : ∀ entry, Follows (some entry) r → Follows (some entry) r') :
    Hearing c expired r r' (heard c expired r r' : Option (Server.Action C n)) := by
  have hheard : (heard c expired r r' : Option (Server.Action C n)) = none := by
    simp only [heard, he, List.drop_length]
    exact if_neg (not_and_or.mpr hr)
  rw [hheard]
  exact .quiet (by rw [he]) hf

omit [DecidableEq C] in
theorem step_hearing {c : C} {expired : List C} {r r' : ReadLoop.State RequestContent}
    {a : ReadLoop.Action} (h : ReadLoop.step requestEnds.loop r a = some r') :
    Hearing c expired r r' (heard c expired r r' : Option (Server.Action C n)) := by
  cases ReadLoop.step_effect h with
  | @transfer read k hr =>
    have hsame : (ReadLoop.transfer r read k).events = r.events ∧
        (ReadLoop.transfer r read k).reading = r.reading ∧ (ReadLoop.transfer r read k).pc = r.pc := by
      cases read <;> exact ⟨rfl, rfl, rfl⟩
    obtain ⟨he, hreading, hpc⟩ := hsame
    refine hearing_of_events he ?_ ?_
    · rw [hreading, hr]
      cases read <;> simp
    intro entry hf
    exact ⟨by rw [hreading, hpc]; exact hf.rearmed, nofun, by rw [hreading, hpc]; exact hf.reading⟩
  | headDone hr hp ho hl =>
    have hheard : (heard c expired r
        (ReadLoop.readContent { r with head := r.headBuf, reading := none }) :
        Option (Server.Action C n)) = some (.headRead c) := by
      simp [heard, ReadLoop.readContent, hr]
    rw [hheard]
    exact .headRead rfl hr hp rfl hp
  | headFailed hr hp hf =>
    have hheard : (heard c expired r (ReadLoop.handleError requestEnds.loop { r with reading := none }) :
        Option (Server.Action C n)) = some (.headFailed c expired) := by
      simp [heard, ReadLoop.handleError, requestEnds, StreamRoundTrip.connectionLoop, hp]
    rw [hheard]
    refine .headFailed ?_ hr hp rfl hp
    simp [ReadLoop.handleError_events, frames]
  | contentDone hr hp | contentFailed hr hp =>
    refine hearing_of_events rfl (Or.inl (by simp [hr])) ?_
    intro entry hf
    have hreading := hf.reading entry rfl
    rw [if_pos hp, hr] at hreading
    refine ⟨fun _ => rfl, nofun, ?_⟩
    intro same hsame
    obtain rfl := Option.some.inj hsame
    exact hreading
  | delivered hp ho =>
    have hheard : ∀ x, (heard c expired r { r with pc := .idle, events := r.events ++ [.frame x] } :
        Option (Server.Action C n)) = some (.contentRead c x) := by
      simp [heard]
    rw [hheard]
    exact .contentRead (by simp [frames]) (by simp [hp]) rfl rfl
  | @failed ec hp hf =>
    have hheard : (heard c expired r (ReadLoop.handleError requestEnds.loop { r with pc := .idle }) :
        Option (Server.Action C n)) = some (.contentFailed c expired) := by
      simp [heard, ReadLoop.handleError, requestEnds, StreamRoundTrip.connectionLoop, hp]
    rw [hheard]
    refine .contentFailed ?_ (by simp [hp]) rfl rfl
    simp [ReadLoop.handleError_events, frames]
  | disconnect ho =>
    refine hearing_of_events rfl ?_ fun entry hf => ⟨hf.rearmed, nofun, hf.reading⟩
    by_cases hr : r.reading = some .head
    · exact Or.inr (by simp [ReadLoop.disconnect, hr])
    · exact Or.inl hr

theorem follows_idle {r : ReadLoop.State RequestContent} {read : Option ReadLoop.Read}
    (hr : r.reading = read) (hp : r.pc = .idle) (type : ClientType) :
    Follows (some ⟨read.map readOf, type⟩) r where
  rearmed hne := absurd hp hne
  waiting h := by cases h
  reading entry h := by
    obtain rfl := Option.some.inj h
    rw [if_pos hp, hr]

/-- What the server makes of a step of a read loop: it follows the loop, it has routed what the loop
has reported, and nothing else has changed. -/
structure Followed (c : C) (r r' : ReadLoop.State RequestContent) (s s' : ServerWrites.State C H n) :
    Prop where
  follows : Follows (s'.core.conns c) r'
  accepted : (s'.core.conns c).isSome
  others : ∀ d, d ≠ c → s'.core.conns d = s.core.conns d
  routed : ∃ new, frames r'.events = frames r.events ++ new ∧
    s'.core.routed = s.core.routed ++ new.map (fun content => (c, content)) ∧
    s'.core.pool.queue = s.core.pool.queue ++ new.map (fun content => (c, content))
  running : s'.core.pool.running = s.core.pool.running
  written : s'.written = s.written
  responses : s'.responses = s.responses

variable {pb : Protobuf M D}

theorem hear_some {s s' : ServerWrites.State C H n} {a : Server.Action C n}
    (h : hear pb s (some a) = some s') : ∃ core, Server.step s.core a = some core ∧
      s' = { s with core := core, begun := ended s.begun a } := by
  simp only [hear, ServerWrites.step] at h
  obtain ⟨-, h⟩ := Option.ite_none_right_eq_some.mp h
  obtain ⟨core, hcore, rfl⟩ := Option.map_eq_some_iff.mp h
  exact ⟨core, hcore, rfl⟩

theorem hear_followed {s s' : ServerWrites.State C H n} {c : C} {expired : List C}
    {r r' : ReadLoop.State RequestContent} {o : Option (Server.Action C n)}
    (ho : Hearing c expired r r' o) (hf : Follows (s.core.conns c) r)
    (hc : (s.core.conns c).isSome) (h : hear pb s o = some s') : Followed c r r' s s' := by
  cases ho with
  | quiet he hquiet =>
    obtain rfl := Option.some.inj h
    obtain ⟨entry, hentry⟩ := Option.isSome_iff_exists.mp hc
    refine ⟨?_, hc, fun _ _ => rfl, ⟨[], by simp [he], by simp, by simp⟩, rfl, rfl, rfl⟩
    rw [hentry] at hf ⊢
    exact hquiet entry hf
  | headRead he hr hp hr' hp' =>
    obtain ⟨core, hcore, rfl⟩ := hear_some h
    cases Server.step_effect hcore with
    | @headRead c type hc =>
      refine ⟨?_, by simp, fun d hd => Server.setConn_conns_of_ne _ hd _ _,
        ⟨[], by simp [he], by simp [Server.setConn], by simp [Server.setConn]⟩, rfl, rfl, rfl⟩
      simpa using follows_idle hr' hp' type
  | headFailed he hr hp hr' hp' =>
    obtain ⟨core, hcore, rfl⟩ := hear_some h
    cases Server.step_effect hcore with
    | @headFailed c type expired hc hexp =>
      refine ⟨?_, by simp, ?_, ⟨[], by simp [he], by simp [Server.setConn], by simp [Server.setConn]⟩,
        by simp [Server.setConn], rfl, rfl⟩
      · simpa using follows_idle hr' hp' type
      · intro d hd
        rw [Server.handleError_conns]
        exact Server.setConn_conns_of_ne _ hd _ _
  | @contentRead content he hp hr' hp' =>
    obtain ⟨core, hcore, rfl⟩ := hear_some h
    cases Server.step_effect hcore with
    | @contentRead c type content hc =>
      refine ⟨?_, by simp [Server.route], fun d hd => Server.setConn_conns_of_ne _ hd _ _,
        ⟨[content], he, by simp [Server.route, Server.setConn],
          by simp [Server.route, Server.setConn, WorkPool.addTask]⟩, rfl, rfl, rfl⟩
      simpa [Server.route] using follows_idle (hr'.trans (hf.rearmed hp)) hp' content.flag.type
  | contentFailed he hp hr' hp' =>
    obtain ⟨core, hcore, rfl⟩ := hear_some h
    cases Server.step_effect hcore with
    | @contentFailed c type expired hc hexp =>
      refine ⟨?_, by simp, ?_, ⟨[], by simp [he], by simp [Server.setConn], by simp [Server.setConn]⟩,
        by simp [Server.setConn], rfl, rfl⟩
      · simpa using follows_idle (hr'.trans (hf.rearmed hp)) hp' type
      · intro d hd
        rw [Server.handleError_conns]
        exact Server.setConn_conns_of_ne _ hd _ _

theorem exists_hear (pb : Protobuf M D) {s : ServerWrites.State C H n} {c : C} {expired : List C}
    {r r' : ReadLoop.State RequestContent} {o : Option (Server.Action C n)}
    (ho : Hearing c expired r r' o) (hf : Follows (s.core.conns c) r)
    (hc : (s.core.conns c).isSome) (hexp : c ∉ expired) : ∃ s', hear pb s o = some s' := by
  obtain ⟨⟨reading, type⟩, hentry⟩ := Option.isSome_iff_exists.mp hc
  have hreading : reading = if r.pc = .idle then r.reading.map readOf else some .content :=
    hf.reading _ hentry
  cases ho with
  | quiet => exact ⟨s, rfl⟩
  | headRead he hr hp | headFailed he hr hp =>
    rw [if_pos hp, hr] at hreading
    subst hreading
    simp [hear, ServerWrites.step, Returns, Server.step, hentry, readOf, hexp]
  | contentRead he hp | contentFailed he hp =>
    rw [if_neg hp] at hreading
    subst hreading
    simp [hear, ServerWrites.step, Returns, Server.step, hentry, hexp]

end Czrpc.Network
