import Czrpc.SyncWire

/-! The invariant that pairs responses with calls, and the steps that are not a thread's
own: connections are made and lost, and the server reads and answers. -/
namespace Czrpc.SyncClient
open Execution Framing Protocol

/-- Where a thread stands as far as the pairing goes. -/
inductive Phase
  | outside
  | holding
  | waiting (q : Sent) (consumed : Bytes)
  | givingUp (q : Sent)
  | answered (q : Sent) (rsp : ResponseContent)

def Pc.phase : Pc → Phase
  | .idle | .testing _ | .locking _ | .retesting _ | .connecting _ | .connected _ | .ready _ => .outside
  | .writing _ | .writeFailed | .leaving none => .holding
  | .arming q => .waiting q []
  | .readingHead q buf => .waiting q buf
  | .readingContent q head buf => .waiting q (head ++ buf)
  | .readFailed q | .closing q => .givingUp q
  | .leaving (some (q, rsp)) => .answered q rsp

def Pc.unwritten : Pc → Option RequestContent
  | .writing content => some content
  | _ => none

theorem Pc.waiting_of_received {pc pc' : Pc} {bytes : Bytes} (h : pc.received bytes = some pc') :
    ∃ q consumed, pc.phase = .waiting q consumed := by
  unfold Pc.received at h
  split at h
  · exact ⟨_, _, rfl⟩
  · exact ⟨_, _, rfl⟩
  · cases h

theorem Pc.received_cases {pc pc' : Pc} {bytes : Bytes} (h : pc.received bytes = some pc') {q : Sent}
    {consumed : Bytes} (hphase : pc.phase = .waiting q consumed) :
    pc'.phase = .waiting q (consumed ++ bytes) ∨ ∃ (head : HeadBuf) (buf : Bytes),
      consumed = head ++ buf ∧ (buf ++ bytes).length = responseCodec.contentLen head ∧
      pc' = .leaving (some (q, responseCodec.decode head (buf ++ bytes))) := by
  unfold Pc.received at h
  split at h
  · cases hphase
    split_ifs at h <;> obtain rfl := Option.some.inj h
    · exact Or.inl rfl
    · exact Or.inl (by simp [Pc.phase])
  · cases hphase
    split_ifs at h with hlt heq <;> obtain rfl := Option.some.inj h
    · exact Or.inl (by simp [Pc.phase])
    · exact Or.inr ⟨_, _, rfl, heq, rfl⟩
  · cases h

/-- The request whose response may still be on its way. -/
def Phase.uses : Phase → Option Sent
  | .waiting q _ | .givingUp q => some q
  | _ => none

def Phase.sent : Phase → Option Sent
  | .waiting q _ | .givingUp q | .answered q _ => some q
  | _ => none

variable {N : ℕ}

theorem grows_setConn {s : State N} {c : ℕ} {conn : Conn} (h : (s.conns c).Grows conn) (d : ℕ) :
    (s.conns d).Grows ((setConn s c conn).conns d) := by
  by_cases hd : d = c
  · subst d
    rw [setConn_self]
    exact h
  · rw [setConn_of_ne _ hd]
    exact .refl _

structure PairInv (s : State N) : Prop where
  owner : ∀ i, (s.threads i).phase ≠ .outside → s.mutex = some i
  unused : ∀ c, s.next ≤ c → s.conns c = ⟨false, [], [], [], []⟩
  socket : ∀ c, s.socket = some c → c < s.next
  wire : ∀ c, (s.conns c).alive = true → (s.conns c).Wire
  quiet : ∀ c, s.socket = some c → (∀ i q, (s.threads i).phase.uses = some q → q.conn ≠ c) →
    (s.conns c).Quiet
  busy : ∀ i q consumed, (s.threads i).phase = .waiting q consumed → s.socket = some q.conn →
    (s.conns q.conn).Busy q consumed
  recorded : ∀ i q, (s.threads i).phase.sent = some q → (s.conns q.conn).Recorded q ∧
    ∀ e ∈ s.returned, e.1.conn = q.conn → e.1.index < q.index
  answered : ∀ i q rsp, (s.threads i).phase = .answered q rsp → (s.conns q.conn).Paired q rsp
  returned : ∀ e ∈ s.returned, (s.conns e.1.conn).Recorded e.1 ∧ (s.conns e.1.conn).Paired e.1 e.2
  distinct : (s.returned.map fun e => (e.1.conn, e.1.index)).Nodup

theorem initial_pair : PairInv (initial : State N) where
  owner i h := absurd rfl h
  unused _ _ := rfl
  socket c h := by cases h
  wire c h := by cases h
  quiet c h := by cases h
  busy i q consumed h := by cases h
  recorded i q h := by cases h
  answered i q rsp h := by cases h
  returned e h := by cases h
  distinct := List.nodup_nil

namespace PairInv

theorem congr {s t : State N} (hs : PairInv s)
    (hphase : ∀ i, (t.threads i).phase = (s.threads i).phase) (hmutex : t.mutex = s.mutex)
    (hsocket : t.socket = s.socket) (hconns : t.conns = s.conns) (hnext : t.next = s.next)
    (hret : t.returned = s.returned) : PairInv t where
  owner i h := by
    rw [hphase] at h
    rw [hmutex]
    exact hs.owner i h
  unused c h := by
    rw [hnext] at h
    rw [hconns]
    exact hs.unused c h
  socket c h := by
    rw [hsocket] at h
    rw [hnext]
    exact hs.socket c h
  wire c h := by
    rw [hconns] at h ⊢
    exact hs.wire c h
  quiet c h hc := by
    rw [hsocket] at h
    rw [hconns]
    exact hs.quiet c h fun i q hq => hc i q (by rw [hphase]; exact hq)
  busy i q consumed h hc := by
    rw [hphase] at h
    rw [hsocket] at hc
    rw [hconns]
    exact hs.busy i q consumed h hc
  recorded i q h := by
    rw [hphase] at h
    rw [hconns, hret]
    exact hs.recorded i q h
  answered i q rsp h := by
    rw [hphase] at h
    rw [hconns]
    exact hs.answered i q rsp h
  returned e h := by
    rw [hret] at h
    rw [hconns]
    exact hs.returned e h
  distinct := by
    rw [hret]
    exact hs.distinct

theorem outside_of_ne {s : State N} (hs : PairInv s) {i j : Fin N}
    (hi : (s.threads i).phase ≠ .outside) (hj : j ≠ i) : (s.threads j).phase = .outside := by
  by_contra h
  have := (hs.owner i hi).symm.trans (hs.owner j h)
  exact hj (Option.some.inj this).symm

theorem returned_of_grows {s : State N} (hs : PairInv s) {conns : ℕ → Conn}
    (hgrows : ∀ c, (s.conns c).Grows (conns c)) :
    ∀ e ∈ s.returned, (conns e.1.conn).Recorded e.1 ∧ (conns e.1.conn).Paired e.1 e.2 := by
  intro e he
  obtain ⟨hrec, hpair⟩ := hs.returned e he
  exact ⟨(hgrows _).recorded hrec, (hgrows _).parsed _ _ _ hpair⟩

theorem wire_setConn {s : State N} (hs : PairInv s) {c : ℕ} {conn : Conn}
    (hwire : conn.alive = true → conn.Wire) (d : ℕ) (hd : ((setConn s c conn).conns d).alive = true) :
    ((setConn s c conn).conns d).Wire := by
  by_cases hdc : d = c
  · subst d
    rw [setConn_self] at hd ⊢
    exact hwire hd
  · rw [setConn_of_ne _ hdc] at hd ⊢
    exact hs.wire d hd

theorem of_setConn {s : State N} (hs : PairInv s) {c : ℕ} {conn : Conn}
    (hgrow : (s.conns c).Grows conn) (hunused : s.next ≤ c → conn = ⟨false, [], [], [], []⟩)
    (hwire : conn.alive = true → conn.Wire) (hquiet : (s.conns c).Quiet → conn.Quiet)
    (hbusy : ∀ q consumed, (s.conns c).Recorded q → (s.conns c).Busy q consumed →
      conn.Busy q consumed) : PairInv (setConn s c conn) := by
  have hgrows := grows_setConn hgrow
  refine { hs with
    unused := ?_
    wire := hs.wire_setConn hwire
    quiet := ?_
    busy := ?_
    recorded := ?_
    answered := ?_
    returned := hs.returned_of_grows hgrows }
  · intro d hd
    by_cases hdc : d = c
    · subst d
      rw [setConn_self]
      exact hunused hd
    · rw [setConn_of_ne _ hdc]
      exact hs.unused d hd
  · intro d hsock huse
    have hq := hs.quiet d hsock huse
    by_cases hdc : d = c
    · subst d
      rw [setConn_self]
      exact hquiet hq
    · rwa [setConn_of_ne _ hdc]
  · intro i q consumed hi hsock
    have hb := hs.busy i q consumed hi hsock
    by_cases hdc : q.conn = c
    · subst c
      rw [setConn_self]
      rw [setConn_threads] at hi
      exact hbusy q consumed (hs.recorded i q (by rw [hi]; rfl)).1 hb
    · rwa [setConn_of_ne _ hdc]
  · intro i q hq
    exact ⟨(hgrows _).recorded (hs.recorded i q hq).1, (hs.recorded i q hq).2⟩
  · intro i q rsp hi
    exact (hgrows _).parsed _ _ _ (hs.answered i q rsp hi)

theorem of_lost {s : State N} (hs : PairInv s) {c : ℕ} {toServer : Bytes}
    (hunused : s.next ≤ c → toServer = []) :
    PairInv (setConn s c { s.conns c with alive := false, toServer := toServer }) := by
  have hg : (s.conns c).Grows { s.conns c with alive := false, toServer := toServer } :=
    ⟨fun _ _ _ h => h, List.prefix_refl _⟩
  refine hs.of_setConn hg (fun hc => ?_) (fun h => by cases h) (fun h => ?_) (fun q consumed _ h => ?_)
  · rw [hs.unused c hc, hunused hc]
  · exact h.mono hg rfl rfl (fun h => by cases h)
  · exact h.mono hg rfl rfl (fun h => by cases h)

theorem of_lose {s : State N} (hs : PairInv s) (c : ℕ) : PairInv (lose s c) :=
  hs.of_lost fun hc => by rw [hs.unused c hc]

theorem of_writeFailed {s : State N} (hs : PairInv s) {c : ℕ} (hc : s.socket = some c)
    (content : RequestContent) (n : ℕ) :
    PairInv (setConn s c ((s.conns c).writeFailed content n)) :=
  hs.of_lost fun h => absurd (hs.socket c hc) (Nat.not_lt.mpr h)

theorem of_parse {s : State N} (hs : PairInv s) {c : ℕ} {content : RequestContent} {rest : Bytes}
    (hf : requestCodec.readFrame (s.conns c).toServer = some (content, rest)) :
    PairInv (setConn s c { s.conns c with
      toServer := rest, parsed := (s.conns c).parsed ++ [(content, none)] }) := by
  have hg := Conn.grows_parse (s.conns c) content rest
  refine hs.of_setConn hg (fun hc => ?_) (fun h => Conn.wire_parse (hs.wire c h) hf)
    (fun h => h.mono hg rfl rfl id) (fun q consumed _ h => h.mono hg rfl rfl id)
  have hshort := requestCodec.readFrame_shorter hf
  rw [hs.unused c hc] at hshort
  exact absurd hshort (Nat.not_lt_zero _)

/-- A handler of the server answers: either the request that is under way, or nothing
of the answer gets through. -/
theorem of_answer {s : State N} (hs : PairInv s) {c k : ℕ} {code : RpcErrorCode}
    {messageName body : Bytes} {conn : Conn}
    (ha : (s.conns c).answer k code messageName body = some conn)
    (hname : messageName.length < 2 ^ 32) (hbody : body.length < 2 ^ 32) :
    PairInv (setConn s c conn) := by
  obtain ⟨content, rsp, hrsp, hk, rfl⟩ := Conn.answer_eq_some ha
  have hfits : rsp.Fits := by
    rw [hrsp]
    exact ⟨hname, hbody⟩
  have hg := Conn.grows_answer hk rsp
    (if (s.conns c).alive then (s.conns c).toClient ++ responseCodec.encode rsp else (s.conns c).toClient)
  refine hs.of_setConn hg (fun hc => ?_) (fun h => Conn.wire_answer (hs.wire c h) hk rsp _)
    (fun h => ?_) (fun q consumed hq h => ?_)
  · rw [hs.unused c hc] at hk
    cases hk
  · have hdead := h.not_alive_of_unanswered (hs.wire c) hk
    exact h.mono hg (by simp [hdead]) rfl id
  · cases halive : (s.conns c).alive with
    | true => simpa [halive] using Conn.busy_answer h halive (hs.wire c halive) hq hk hfits
    | false =>
      rw [halive] at hg
      exact h.mono hg rfl rfl (fun h => by cases h)

theorem of_closeSocket {s : State N} (hs : PairInv s) : PairInv (closeSocket s) := by
  unfold closeSocket
  split
  · rename_i c hc
    have hl := hs.of_lose c
    exact { hl with
      socket := fun d hd => by cases hd
      quiet := fun d hd => by cases hd
      busy := fun i q consumed _ hd => by cases hd }
  · exact hs

theorem of_connect {s : State N} (hs : PairInv s) : PairInv (connect s) := by
  have hcl := hs.of_closeSocket
  have hnext : (closeSocket s).next = s.next := closeSocket_next s
  have hnew : (closeSocket s).conns s.next = ⟨false, [], [], [], []⟩ :=
    hcl.unused s.next (Nat.le_of_eq hnext)
  have hself : (connect s).conns s.next = ⟨true, [], [], [], []⟩ := setConn_self _ _ _
  have hother : ∀ {d}, d ≠ s.next → (connect s).conns d = (closeSocket s).conns d :=
    fun hd => setConn_of_ne _ hd _
  have hgrows : ∀ d, ((closeSocket s).conns d).Grows ((connect s).conns d) := by
    refine grows_setConn ?_
    rw [hnew]
    exact ⟨fun k content rsp h => absurd h (by simp), List.prefix_refl _⟩
  refine ⟨hcl.owner, ?_, ?_, hcl.wire_setConn fun _ => ⟨[], by simp, rfl, rfl⟩, ?_, ?_, ?_, ?_,
    hcl.returned_of_grows hgrows, hcl.distinct⟩
  · intro d hd
    have hlt : s.next < d := hd
    rw [hother (Nat.ne_of_gt hlt)]
    exact hcl.unused d (by omega)
  · intro d hd
    rw [← Option.some.inj hd]
    exact Nat.lt_succ_self _
  · intro d hd _
    rw [← Option.some.inj hd, hself]
    exact ⟨rfl, fun _ k hk => absurd hk (Nat.not_lt_zero k)⟩
  · intro i q consumed hi hsock
    have hq : q.conn = s.next := (Option.some.inj hsock).symm
    have hsent : ((closeSocket s).threads i).phase.sent = some q := by
      rw [connect_threads] at hi
      rw [closeSocket_threads, hi]
      rfl
    have hrec := (hcl.recorded i q hsent).1
    rw [hq, hnew] at hrec
    cases hrec
  · intro i q hq
    exact ⟨(hgrows _).recorded (hcl.recorded i q hq).1, (hcl.recorded i q hq).2⟩
  · intro i q rsp hi
    exact (hgrows _).parsed _ _ _ (hcl.answered i q rsp hi)

end PairInv

end Czrpc.SyncClient
