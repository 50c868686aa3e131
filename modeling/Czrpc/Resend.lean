import Czrpc.Execution
import Czrpc.Framing
import Czrpc.SendQueue

/-! The send queue of `client_base` with resend on, and the connections that it writes to.
A write may fail at any byte, a connection may be lost and another one established at any
time, and the handler of a failed write starts the same buffer again from its first byte. -/
namespace Czrpc.Resend
open Execution Framing SendQueue

/-- A connection: the bytes it has carried, and whether a write on it has failed. -/
structure Wire where
  carried : Bytes
  failed : Bool
  deriving DecidableEq, Repr

/-- An outstanding `async_write`: the connection it acts on, from its first transfer on, and
the bytes of its buffer that it has transferred. -/
structure Op where
  wire : Option ℕ
  sent : ℕ
  deriving DecidableEq, Repr

/-- `ops` belongs to `send.writing`, entry by entry. `socket` is the connection that
`socket_` has, if any. `posts` are all the buffers posted and `succeeded` those whose write
has succeeded. -/
structure State where
  send : SendQueue.State Bytes
  ops : List Op
  wires : List Wire
  socket : Option ℕ
  posts : List Bytes
  succeeded : List Bytes
  deriving DecidableEq, Repr

def initial : State := ⟨SendQueue.initial, [], [], none, [], []⟩

inductive Action
  | post (buffer : Bytes)
  | runPosted
  | transfer (i k : ℕ)
  | complete (i : ℕ) (ec : Bool)
  | lose
  | connect
  deriving DecidableEq, Repr

def started (send : SendQueue.State Bytes) (ops : List Op) : List Op :=
  ops ++ List.replicate (send.writing.length - ops.length) ⟨none, 0⟩

/-- An operation transfers `k` more bytes of its buffer to its connection, if no write on
that connection has failed. -/
def transfer (s : State) (i k : ℕ) : Option State :=
  (s.ops[i]?).bind fun op =>
    (s.send.writing[i]?).bind fun buffer =>
      (op.wire.or s.socket).bind fun c =>
        (s.wires[c]?).bind fun wire =>
          if wire.failed = false ∧ op.sent + k ≤ buffer.length then
            some { s with
              ops := s.ops.set i ⟨some c, op.sent + k⟩
              wires := s.wires.set c ⟨wire.carried ++ (buffer.drop op.sent).take k, false⟩ }
          else none

def failWire (wires : List Wire) : Option ℕ → List Wire
  | some c => wires.modify c fun wire => { wire with failed := true }
  | none => wires

def complete (s : State) (i : ℕ) (ec : Bool) : Option State :=
  (s.ops[i]?).bind fun op =>
    (s.send.writing[i]?).bind fun buffer =>
      if ec = true ∨ op.sent = buffer.length then
        (SendQueue.complete s.send true i ec).map fun send =>
          { s with
            send := send
            ops := started send (s.ops.eraseIdx i)
            wires := if ec then failWire s.wires op.wire else s.wires
            succeeded := if ec then s.succeeded else s.succeeded ++ [buffer] }
      else none

def step (s : State) : Action → Option State
  | .post buffer => some { s with send := post s.send buffer, posts := s.posts ++ [buffer] }
  | .runPosted =>
    (runPosted s.send).map fun send => { s with send := send, ops := started send s.ops }
  | .transfer i k => transfer s i k
  | .complete i ec => complete s i ec
  | .lose => some { s with socket := none }
  | .connect => some { s with wires := s.wires ++ [⟨[], false⟩], socket := some s.wires.length }

structure Aligned (s : State) : Prop where
  disciplined : Disciplined s.send
  fit : s.ops.length = s.send.writing.length

theorem Aligned.front {s : State} (h : Aligned s) {i : ℕ} {op : Op} {buffer : Bytes}
    (hop : s.ops[i]? = some op) (hb : s.send.writing[i]? = some buffer) :
    i = 0 ∧ s.ops = [op] ∧ ∃ rest, s.send.queue = buffer :: rest := by
  have hw : s.send.writing = s.send.queue.take 1 := h.disciplined
  cases hq : s.send.queue with
  | nil => simp [hw, hq] at hb
  | cons front rest =>
    have hsingle : s.send.writing = [front] := by simp [hw, hq]
    obtain ⟨single, hops⟩ : ∃ single, s.ops = [single] :=
      List.length_eq_one_iff.mp (by rw [h.fit, hsingle]; rfl)
    obtain rfl : i = 0 := by
      have hi := (List.getElem?_eq_some_iff.mp hb).1
      simpa [hsingle] using hi
    obtain rfl : single = op := by simpa [hops] using hop
    obtain rfl : front = buffer := by simpa [hsingle] using hb
    exact ⟨rfl, hops, rest, rfl⟩

inductive Effect (s : State) : Action → State → Prop
  | post {buffer : Bytes} :
      Effect s (.post buffer) { s with send := post s.send buffer, posts := s.posts ++ [buffer] }
  | runPosted {send : SendQueue.State Bytes} (h : runPosted s.send = some send) :
      Effect s .runPosted { s with send := send, ops := started send s.ops }
  | transfer {k c : ℕ} {op : Op} {buffer : Bytes} {rest : List Bytes} {wire : Wire}
      (hops : s.ops = [op]) (hq : s.send.queue = buffer :: rest) (hc : op.wire.or s.socket = some c)
      (hw : s.wires[c]? = some wire) (hf : wire.failed = false) :
      Effect s (.transfer 0 k) { s with
        ops := [⟨some c, op.sent + k⟩]
        wires := s.wires.set c ⟨wire.carried ++ (buffer.drop op.sent).take k, false⟩ }
  | succeed {op : Op} {buffer : Bytes} {send : SendQueue.State Bytes} (hops : s.ops = [op])
      (hq : s.send.queue = buffer :: send.queue) (hp : send.posted = s.send.posted)
      (hd : Disciplined send) (hs : op.sent = buffer.length) :
      Effect s (.complete 0 false) { s with
        send := send
        ops := started send []
        succeeded := s.succeeded ++ [buffer] }
  | fail {op : Op} {buffer : Bytes} {rest : List Bytes} (hops : s.ops = [op])
      (hq : s.send.queue = buffer :: rest) :
      Effect s (.complete 0 true) { s with
        ops := started s.send []
        wires := failWire s.wires op.wire }
  | lose : Effect s .lose { s with socket := none }
  | connect : Effect s .connect
      { s with wires := s.wires ++ [⟨[], false⟩], socket := some s.wires.length }

theorem transfer_effect {s t : State} (hs : Aligned s) {i k : ℕ} (h : transfer s i k = some t) :
    Effect s (.transfer i k) t := by
  obtain ⟨op, hop, h⟩ := Option.bind_eq_some_iff.mp h
  obtain ⟨buffer, hb, h⟩ := Option.bind_eq_some_iff.mp h
  obtain ⟨c, hc, h⟩ := Option.bind_eq_some_iff.mp h
  obtain ⟨wire, hw, h⟩ := Option.bind_eq_some_iff.mp h
  obtain ⟨rfl, hops, rest, hq⟩ := hs.front hop hb
  split_ifs at h with hf
  obtain rfl := Option.some.inj h
  have hset : s.ops.set 0 ⟨some c, op.sent + k⟩ = [⟨some c, op.sent + k⟩] := by rw [hops]; rfl
  rw [hset]
  exact .transfer hops hq hc hw hf.1

theorem complete_effect {s t : State} (hs : Aligned s) {i : ℕ} {ec : Bool}
    (h : complete s i ec = some t) : Effect s (.complete i ec) t := by
  obtain ⟨op, hop, h⟩ := Option.bind_eq_some_iff.mp h
  obtain ⟨buffer, hb, h⟩ := Option.bind_eq_some_iff.mp h
  obtain ⟨rfl, hops, rest, hq⟩ := hs.front hop hb
  have herase : s.ops.eraseIdx 0 = [] := by rw [hops]; rfl
  cases ec with
  | false =>
    simp only [Bool.false_eq_true, false_or, if_false] at h
    split_ifs at h with hsent
    obtain ⟨send, hsend, rfl⟩ := Option.map_eq_some_iff.mp h
    obtain ⟨hd, hp, front, hfront, hqueue⟩ := complete_ok hs.disciplined hsend
    obtain rfl : front = buffer := Option.some.inj (hfront.symm.trans hb)
    rw [herase]
    exact .succeed hops hqueue hp hd hsent
  | true =>
    simp only [true_or, if_true] at h
    obtain ⟨send, hsend, rfl⟩ := Option.map_eq_some_iff.mp h
    obtain rfl := complete_resent hs.disciplined hsend
    rw [herase]
    exact .fail hops hq

theorem step_effect {s t : State} {a : Action} (hs : Aligned s) (h : step s a = some t) :
    Effect s a t := by
  cases a with
  | post buffer =>
    obtain rfl := Option.some.inj h
    exact .post
  | runPosted =>
    obtain ⟨send, hsend, rfl⟩ := Option.map_eq_some_iff.mp h
    exact .runPosted hsend
  | transfer i k => exact transfer_effect hs h
  | complete i ec => exact complete_effect hs h
  | lose =>
    obtain rfl := Option.some.inj h
    exact .lose
  | connect =>
    obtain rfl := Option.some.inj h
    exact .connect

theorem started_length {send : SendQueue.State Bytes} {ops : List Op}
    (h : ops.length ≤ send.writing.length) : (started send ops).length = send.writing.length := by
  simp only [started, List.length_append, List.length_replicate]
  omega

theorem fresh_of_mem_started {send : SendQueue.State Bytes} {op : Op} (h : op ∈ started send []) :
    op = ⟨none, 0⟩ := List.eq_of_mem_replicate h

theorem started_runPosted {s : State} (hs : Aligned s) {send : SendQueue.State Bytes}
    (h : runPosted s.send = some send) :
    started send s.ops = s.ops ∨ s.ops = [] ∧ s.send.queue = [] := by
  have hw : s.send.writing = s.send.queue.take 1 := hs.disciplined
  have hw' : send.writing = send.queue.take 1 := disciplined_runPosted hs.disciplined h
  cases hq : s.send.queue with
  | nil => exact Or.inr ⟨List.eq_nil_of_length_eq_zero (by rw [hs.fit, hw, hq]; rfl), rfl⟩
  | cons buffer rest =>
    have hgrown := runPosted_queue h
    have hone : send.writing.length = s.ops.length := by
      rw [hs.fit, hw, hw', hgrown, hq]
      simp
    exact Or.inl (by simp [started, hone])

theorem step_aligned {s t : State} {a : Action} (hs : Aligned s) (h : step s a = some t) :
    Aligned t := by
  cases step_effect hs h with
  | post | lose | connect => exact ⟨hs.disciplined, hs.fit⟩
  | runPosted hr =>
    have hd := disciplined_runPosted hs.disciplined hr
    refine ⟨hd, started_length ?_⟩
    rw [hs.fit, hs.disciplined, hd, runPosted_queue hr]
    simp only [List.length_take, List.length_append]
    omega
  | transfer hops => exact ⟨hs.disciplined, by rw [← hs.fit, hops]; rfl⟩
  | succeed hops hq hp hd => exact ⟨hd, started_length (Nat.zero_le _)⟩
  | fail hops hq => exact ⟨hs.disciplined, started_length (Nat.zero_le _)⟩

/-- Nothing, or a proper beginning of a posted buffer. -/
def Incomplete (posts : List Bytes) (part : Bytes) : Prop :=
  part = [] ∨ ∃ buffer ∈ posts, part <+: buffer ∧ part.length < buffer.length

/-- What a connection has carried: whole buffers in the order of the posts and, where it has
the outstanding write, what that has transferred, or where a write has failed, what that had
transferred. -/
inductive Carries (s : State) (c : ℕ) (wire : Wire) : Prop
  | idle {frames : List Bytes} (hops : ∀ op ∈ s.ops, op.wire ≠ some c)
      (hb : wire.carried = frames.flatten) (hf : frames.Sublist s.succeeded) : Carries s c wire
  | active {op : Op} {buffer : Bytes} {rest frames : List Bytes} (hops : s.ops = [op])
      (hc : op.wire = some c) (hq : s.send.queue = buffer :: rest)
      (hb : wire.carried = frames.flatten ++ buffer.take op.sent)
      (hf : frames.Sublist s.succeeded) : Carries s c wire
  | broken {frames : List Bytes} {part : Bytes} (hw : wire.failed = true)
      (hb : wire.carried = frames.flatten ++ part) (hf : frames.Sublist s.posts)
      (hp : Incomplete s.posts part) : Carries s c wire

def Op.Placed (n : ℕ) (op : Op) : Prop :=
  match op.wire with
  | none => op.sent = 0
  | some c => c < n

/-- The accounts of a reachable state. -/
structure Inv (s : State) : Prop where
  aligned : Aligned s
  account : s.posts = s.succeeded ++ s.send.waiting
  placed : ∀ op ∈ s.ops, op.Placed s.wires.length
  carries : ∀ c wire, s.wires[c]? = some wire → Carries s c wire

theorem initial_inv : Inv initial where
  aligned := ⟨rfl, rfl⟩
  account := rfl
  placed op hop := by cases hop
  carries c wire hw := by simp [initial] at hw

theorem Incomplete.mono {posts posts' : List Bytes} {part : Bytes} (h : Incomplete posts part)
    (hp : posts ⊆ posts') : Incomplete posts' part :=
  h.imp_right fun ⟨buffer, hb, hpart⟩ => ⟨buffer, hp hb, hpart⟩

theorem Carries.idle_or_broken {s t : State} {c : ℕ} {wire : Wire} (h : Carries s c wire)
    (hs : ∀ op ∈ s.ops, op.wire ≠ some c) (ht : ∀ op ∈ t.ops, op.wire ≠ some c)
    (hsucc : s.succeeded.Sublist t.succeeded) (hposts : s.posts.Sublist t.posts) :
    Carries t c wire := by
  cases h with
  | idle hops hb hf => exact .idle ht hb (hf.trans hsucc)
  | active hops hc => exact absurd hc (hs _ (by simp [hops]))
  | broken hw hb hf hp => exact .broken hw hb (hf.trans hposts) (hp.mono hposts.subset)

theorem Carries.grow {s t : State} {c : ℕ} {wire : Wire} (h : Carries s c wire)
    (hops : t.ops = s.ops) (hqueue : s.send.queue <+: t.send.queue)
    (hsucc : t.succeeded = s.succeeded) (hposts : s.posts.Sublist t.posts) : Carries t c wire := by
  cases h with
  | idle ho hb hf => exact .idle (by rwa [hops]) hb (by rwa [hsucc])
  | active ho hc hq hb hf =>
    obtain ⟨later, hlater⟩ := hqueue
    rw [hq, List.cons_append] at hlater
    exact .active (hops.trans ho) hc hlater.symm hb (by rwa [hsucc])
  | broken hw hb hf hp => exact .broken hw hb (hf.trans hposts) (hp.mono hposts.subset)

theorem whole_or_part {frames posts : List Bytes} {buffer : Bytes} {sent : ℕ}
    (hf : (frames ++ [buffer]).Sublist posts) :
    ∃ (frames' : List Bytes) (part : Bytes),
      frames.flatten ++ buffer.take sent = frames'.flatten ++ part ∧ frames'.Sublist posts ∧
        Incomplete posts part := by
  by_cases hs : sent < buffer.length
  · refine ⟨frames, buffer.take sent, rfl, (List.sublist_append_left _ _).trans hf, Or.inr ?_⟩
    refine ⟨buffer, hf.subset (by simp), List.take_prefix _ _, ?_⟩
    rw [List.length_take]
    omega
  · refine ⟨frames ++ [buffer], [], ?_, hf, Or.inl rfl⟩
    rw [List.take_of_length_le (by omega), List.flatten_append, List.flatten_singleton,
      List.append_nil]

theorem Inv.front_sublist {s : State} (h : Inv s) {frames rest : List Bytes} {buffer : Bytes}
    (hq : s.send.queue = buffer :: rest) (hf : frames.Sublist s.succeeded) :
    (frames ++ [buffer]).Sublist s.posts := by
  rw [h.account, SendQueue.State.waiting, hq]
  exact hf.append (by simp)

theorem runPosted_carries {s : State} (hs : Inv s) {send : SendQueue.State Bytes}
    (h : runPosted s.send = some send) {c : ℕ} {wire : Wire} (hw : s.wires[c]? = some wire) :
    Carries { s with send := send, ops := started send s.ops } c wire := by
  rcases started_runPosted hs.aligned h with hops | ⟨hops, -⟩
  · refine (hs.carries c wire hw).grow hops ?_ rfl (List.Sublist.refl _)
    rw [runPosted_queue h]
    exact List.prefix_append _ _
  · refine (hs.carries c wire hw).idle_or_broken (by simp [hops]) ?_ (List.Sublist.refl _)
      (List.Sublist.refl _)
    intro op hop
    rw [hops] at hop
    simp [fresh_of_mem_started hop]

theorem transfer_carries {s : State} (hs : Inv s) {k c : ℕ} {op : Op} {buffer : Bytes}
    {rest : List Bytes} {wire : Wire} (hops : s.ops = [op]) (hq : s.send.queue = buffer :: rest)
    (hc : op.wire.or s.socket = some c) (hw : s.wires[c]? = some wire) (hf : wire.failed = false)
    {d : ℕ} {wire' : Wire}
    (hw' : (s.wires.set c ⟨wire.carried ++ (buffer.drop op.sent).take k, false⟩)[d]? = some wire') :
    Carries { s with
      ops := [⟨some c, op.sent + k⟩]
      wires := s.wires.set c ⟨wire.carried ++ (buffer.drop op.sent).take k, false⟩ } d wire' := by
  have hplace : op.wire = some c ∨ op.wire = none := by
    cases hwire : op.wire with
    | none => exact Or.inr rfl
    | some e =>
      rw [hwire] at hc
      exact Or.inl hc
  by_cases hd : c = d
  · subst d
    have hlt : c < s.wires.length := (List.getElem?_eq_some_iff.mp hw).1
    obtain rfl : wire' = ⟨wire.carried ++ (buffer.drop op.sent).take k, false⟩ := by
      simpa [hlt] using hw'.symm
    cases hs.carries c wire hw with
    | @idle frames ho hb hsub =>
      have hnone : op.wire = none := hplace.resolve_left (ho op (by simp [hops]))
      have hzero : op.sent = 0 := by
        have hp := hs.placed op (by simp [hops])
        rwa [Op.Placed, hnone] at hp
      exact .active rfl rfl hq (by simp [hb, hzero]) hsub
    | active ho hcw hqa hb hsub =>
      obtain rfl := List.singleton_inj.mp (hops.symm.trans ho)
      obtain ⟨rfl, -⟩ := List.cons_eq_cons.mp (hq.symm.trans hqa)
      exact .active rfl rfl hq (by simp only [hb, List.append_assoc, List.take_add]) hsub
    | broken hfail =>
      rw [hf] at hfail
      cases hfail
  · rw [List.getElem?_set_ne hd] at hw'
    refine (hs.carries d wire' hw').idle_or_broken ?_ (by simpa using hd) (List.Sublist.refl _)
      (List.Sublist.refl _)
    intro o ho
    obtain rfl : o = op := by simpa [hops] using ho
    rcases hplace with h | h <;> simp [h, hd]

theorem succeed_carries {s : State} (hs : Inv s) {op : Op} {buffer : Bytes}
    {send : SendQueue.State Bytes} (hops : s.ops = [op]) (hq : s.send.queue = buffer :: send.queue)
    (hsent : op.sent = buffer.length) {c : ℕ} {wire : Wire} (hw : s.wires[c]? = some wire) :
    Carries { s with
      send := send
      ops := started send []
      succeeded := s.succeeded ++ [buffer] } c wire := by
  have hfresh : ∀ o ∈ started send [], o.wire ≠ some c := by
    intro o ho
    simp [fresh_of_mem_started ho]
  cases hs.carries c wire hw with
  | idle ho hb hf => exact .idle hfresh hb (hf.trans (List.sublist_append_left _ _))
  | @active op' front rest frames ho hc hqa hb hf =>
    obtain rfl := List.singleton_inj.mp (hops.symm.trans ho)
    obtain ⟨rfl, -⟩ := List.cons_eq_cons.mp (hq.symm.trans hqa)
    have hwhole : wire.carried = (frames ++ [buffer]).flatten := by simp [hb, hsent]
    exact .idle hfresh hwhole (hf.append (List.Sublist.refl _))
  | broken hfail hb hf hp => exact .broken hfail hb hf hp

theorem fail_carries {s : State} (hs : Inv s) {op : Op} (hops : s.ops = [op]) {c : ℕ} {wire : Wire}
    (hw : (failWire s.wires op.wire)[c]? = some wire) :
    Carries { s with ops := started s.send [], wires := failWire s.wires op.wire } c wire := by
  have hfresh : ∀ o ∈ started s.send [], o.wire ≠ some c := by
    intro o ho
    simp [fresh_of_mem_started ho]
  by_cases hc : op.wire = some c
  · obtain ⟨before, hbefore, rfl⟩ : ∃ before, s.wires[c]? = some before ∧
        { before with failed := true } = wire := by
      simpa [hc, failWire, List.getElem?_modify] using hw
    cases hs.carries c before hbefore with
    | idle ho => exact absurd hc (ho op (by simp [hops]))
    | active ho hcw hq hb hf =>
      obtain ⟨frames, part, hbytes, hframes, hpart⟩ := whole_or_part (hs.front_sublist hq hf)
      exact .broken rfl (hb.trans hbytes) hframes hpart
    | broken hfail hb hf hp => exact .broken rfl hb hf hp
  · have hsame : s.wires[c]? = some wire := by
      cases hwire : op.wire with
      | none => simpa [hwire, failWire] using hw
      | some d =>
        have hdc : d ≠ c := by
          rintro rfl
          exact hc hwire
        simpa [hwire, failWire, List.getElem?_modify, hdc] using hw
    refine (hs.carries c wire hsame).idle_or_broken ?_ hfresh (List.Sublist.refl _)
      (List.Sublist.refl _)
    intro o ho
    obtain rfl : o = op := by simpa [hops] using ho
    exact hc

theorem placed_started {send : SendQueue.State Bytes} {ops : List Op} {n : ℕ}
    (h : ∀ op ∈ ops, op.Placed n) : ∀ op ∈ started send ops, op.Placed n := by
  intro op hop
  rcases List.mem_append.mp hop with hop | hop
  · exact h op hop
  · rw [List.eq_of_mem_replicate hop]
    rfl

theorem Op.Placed.mono {m n : ℕ} {op : Op} (h : op.Placed m) (hmn : m ≤ n) : op.Placed n := by
  unfold Placed at h ⊢
  split at h
  · exact h
  · exact Nat.lt_of_lt_of_le h hmn

theorem connect_carries {s : State} (hs : Inv s) {c : ℕ} {wire : Wire}
    (hw : (s.wires ++ [⟨[], false⟩])[c]? = some wire) :
    Carries { s with wires := s.wires ++ [⟨[], false⟩], socket := some s.wires.length } c wire := by
  by_cases hc : c < s.wires.length
  · rw [List.getElem?_append_left hc] at hw
    exact (hs.carries c wire hw).grow rfl List.prefix_rfl rfl (List.Sublist.refl _)
  · have hlen := (List.getElem?_eq_some_iff.mp hw).1
    rw [List.length_append, List.length_singleton] at hlen
    obtain rfl : c = s.wires.length := by omega
    obtain rfl : wire = ⟨[], false⟩ := by simpa using hw.symm
    have hnew : ∀ op ∈ s.ops, op.wire ≠ some s.wires.length := by
      intro op hop hwire
      have hp := hs.placed op hop
      rw [Op.Placed, hwire] at hp
      exact Nat.lt_irrefl _ hp
    exact .idle hnew (List.flatten_nil).symm (List.nil_sublist _)

theorem step_inv {s t : State} {a : Action} (hs : Inv s) (h : step s a = some t) : Inv t := by
  have ha := step_aligned hs.aligned h
  cases step_effect hs.aligned h with
  | post =>
    refine ⟨ha, by simp [hs.account], hs.placed, ?_⟩
    intro c wire hw
    exact (hs.carries c wire hw).grow rfl List.prefix_rfl rfl (List.sublist_append_left _ _)
  | runPosted hr =>
    exact ⟨ha, by simp [hs.account, waiting_runPosted hr], placed_started hs.placed,
      fun c wire => runPosted_carries hs hr⟩
  | @transfer k c op buffer rest wire hops hq hc hw hf =>
    have hlt : c < s.wires.length := (List.getElem?_eq_some_iff.mp hw).1
    refine ⟨ha, hs.account, ?_, fun d wire' => transfer_carries hs hops hq hc hw hf⟩
    simpa [Op.Placed] using hlt
  | succeed hops hq hp hd hsent =>
    refine ⟨ha, ?_, placed_started (by simp), fun c wire => succeed_carries hs hops hq hsent⟩
    simp [hs.account, SendQueue.State.waiting, hq, hp]
  | fail hops hq =>
    exact ⟨ha, hs.account, placed_started (by simp), fun c wire => fail_carries hs hops⟩
  | lose =>
    refine ⟨ha, hs.account, hs.placed, ?_⟩
    intro c wire hw
    exact (hs.carries c wire hw).grow rfl List.prefix_rfl rfl (List.Sublist.refl _)
  | connect =>
    refine ⟨ha, hs.account, ?_, fun c wire => connect_carries hs⟩
    intro op hop
    exact (hs.placed op hop).mono (by simp)

theorem Inv.whole {s : State} (hs : Inv s) {c : ℕ} {wire : Wire} (h : Carries s c wire) :
    ∃ (frames : List Bytes) (part : Bytes), wire.carried = frames.flatten ++ part ∧
      frames.Sublist s.posts ∧ Incomplete s.posts part := by
  cases h with
  | @idle frames hops hb hf =>
    refine ⟨frames, [], by rw [hb, List.append_nil], hf.trans ?_, Or.inl rfl⟩
    rw [hs.account]
    exact List.sublist_append_left _ _
  | active hops hc hq hb hf =>
    rw [hb]
    exact whole_or_part (hs.front_sublist hq hf)
  | @broken frames part hw hb hf hp => exact ⟨frames, part, hb, hf, hp⟩

/-- After any posts, write successes and failures, losses and connects, the buffers whose
write has succeeded are the first of those posted, the others wait in their order, and each
connection has carried whole buffers, in the order of the posts, followed by at most a part
of one. -/
theorem resend_keeps_frames {as : List Action} {s : State} (hr : run step initial as = some s) :
    s.posts = s.succeeded ++ s.send.queue ++ s.send.posted ∧
      ∀ wire ∈ s.wires, ∃ (frames : List Bytes) (part : Bytes), wire.carried = frames.flatten ++ part ∧
        frames.Sublist s.posts ∧
        (part = [] ∨ ∃ buffer ∈ s.posts, part <+: buffer ∧ part.length < buffer.length) := by
  have hinv : Inv s := run_invariant (fun _ _ _ => step_inv) initial_inv hr
  refine ⟨?_, ?_⟩
  · rw [hinv.account, SendQueue.State.waiting, List.append_assoc]
  · intro wire hwire
    obtain ⟨c, hc⟩ := List.mem_iff_getElem?.mp hwire
    exact hinv.whole (hinv.carries c wire hc)

theorem resend_keeps_frames_reconnected :
    ∃ s, run step initial [.connect, .post [1, 2], .post [3, 4], .runPosted, .runPosted,
        .transfer 0 2, .complete 0 false, .transfer 0 1, .lose, .complete 0 true, .complete 0 true,
        .connect, .transfer 0 2, .complete 0 false] = some s ∧
      s.wires = [⟨[1, 2, 3], true⟩, ⟨[3, 4], false⟩] ∧
      s.posts = s.succeeded ++ s.send.queue ++ s.send.posted := by
  have hrun : (run step initial [.connect, .post [1, 2], .post [3, 4], .runPosted, .runPosted,
      .transfer 0 2, .complete 0 false, .transfer 0 1, .lose, .complete 0 true, .complete 0 true,
      .connect, .transfer 0 2, .complete 0 false]).map State.wires =
        some [⟨[1, 2, 3], true⟩, ⟨[3, 4], false⟩] := by decide
  obtain ⟨s, hs, hw⟩ := Option.map_eq_some_iff.mp hrun
  exact ⟨s, hs, hw, (resend_keeps_frames hs).1⟩

end Czrpc.Resend
