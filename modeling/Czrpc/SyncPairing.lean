import Czrpc.SyncPhase

/-! Which response a call of the shared `rpc_client` returns. All requests carry the
call id 0 and the id of a response is not looked at, so the pairing rests on there
being at most one request under way on the connection. -/
namespace Czrpc.SyncClient
open Execution Framing Protocol

variable {N : ℕ}

namespace PairInv

/-- A step of the thread that holds the mutex. Every other thread is outside, so only
its own phase has to be looked at. -/
theorem of_holder {s t : State N} (hs : PairInv s) {i : Fin N}
    (hi : (s.threads i).phase ≠ .outside) (hothers : ∀ j, j ≠ i → t.threads j = s.threads j)
    (hmutex : t.mutex = s.mutex) (hnext : t.next = s.next) (hret : t.returned = s.returned)
    (hgrows : ∀ c, (s.conns c).Grows (t.conns c))
    (hunused : ∀ c, s.next ≤ c → t.conns c = ⟨false, [], [], [], []⟩)
    (hsocket : ∀ c, t.socket = some c → c < s.next)
    (hwire : ∀ c, (t.conns c).alive = true → (t.conns c).Wire)
    (hquiet : ∀ c, t.socket = some c → (∀ q, (t.threads i).phase.uses = some q → q.conn ≠ c) →
      (t.conns c).Quiet)
    (hbusy : ∀ q consumed, (t.threads i).phase = .waiting q consumed → t.socket = some q.conn →
      (t.conns q.conn).Busy q consumed)
    (hrecorded : ∀ q, (t.threads i).phase.sent = some q → (t.conns q.conn).Recorded q ∧
      ∀ e ∈ s.returned, e.1.conn = q.conn → e.1.index < q.index)
    (hanswered : ∀ q rsp, (t.threads i).phase = .answered q rsp → (t.conns q.conn).Paired q rsp) :
    PairInv t := by
  have hout : ∀ j, j ≠ i → (t.threads j).phase = .outside := by
    intro j hj
    rw [hothers j hj]
    exact hs.outside_of_ne hi hj
  refine ⟨?_, hnext ▸ hunused, hnext ▸ hsocket, hwire, ?_, ?_, ?_, ?_,
    hret ▸ hs.returned_of_grows hgrows, hret ▸ hs.distinct⟩
  · intro j hj
    by_cases hji : j = i
    · subst j
      rw [hmutex]
      exact hs.owner i hi
    · exact absurd (hout j hji) hj
  · intro c hc huse
    exact hquiet c hc fun q hq => huse i q hq
  · intro j q consumed hj hsock
    by_cases hji : j = i
    · subst j
      exact hbusy q consumed hj hsock
    · rw [hout j hji] at hj
      cases hj
  · intro j q hj
    by_cases hji : j = i
    · subst j
      rw [hret]
      exact hrecorded q hj
    · rw [hout j hji] at hj
      cases hj
  · intro j q rsp hj
    by_cases hji : j = i
    · subst j
      exact hanswered q rsp hj
    · rw [hout j hji] at hj
      cases hj

theorem of_holder_conn {s : State N} (hs : PairInv s) {i : Fin N}
    (hi : (s.threads i).phase ≠ .outside) {c : ℕ} (hc : s.socket = some c) {conn : Conn} {pc : Pc}
    (hgrow : (s.conns c).Grows conn) (hwire : conn.alive = true → conn.Wire)
    (hquiet : (∀ q, pc.phase.uses = some q → q.conn ≠ c) → conn.Quiet)
    (hbusy : ∀ q consumed, pc.phase = .waiting q consumed → q.conn = c → conn.Busy q consumed)
    (hrecorded : ∀ q, pc.phase.sent = some q → ((setConn s c conn).conns q.conn).Recorded q ∧
      ∀ e ∈ s.returned, e.1.conn = q.conn → e.1.index < q.index)
    (hanswered : ∀ q rsp, pc.phase = .answered q rsp →
      ((setConn s c conn).conns q.conn).Paired q rsp) :
    PairInv (setThread (setConn s c conn) i pc) := by
  have hphase : ((setThread (setConn s c conn) i pc).threads i).phase = pc.phase := by
    rw [setThread_self]
  refine hs.of_holder hi (fun j hj => setThread_of_ne _ hj _) rfl rfl rfl (grows_setConn hgrow) ?_
    hs.socket (hs.wire_setConn hwire) ?_ ?_
    (by rw [hphase]; exact hrecorded) (by rw [hphase]; exact hanswered)
  · intro d hd
    have hlt := hs.socket c hc
    change (setConn s c conn).conns d = _
    rw [setConn_of_ne _ (by omega)]
    exact hs.unused d hd
  · intro d hd huse
    obtain rfl : c = d := Option.some.inj (hc.symm.trans hd)
    rw [hphase] at huse
    change ((setConn s c conn).conns c).Quiet
    rw [setConn_self]
    exact hquiet huse
  · intro q consumed hq hsock
    have hqc : q.conn = c := (Option.some.inj (hc.symm.trans hsock)).symm
    rw [hphase] at hq
    change ((setConn s c conn).conns q.conn).Busy q consumed
    rw [hqc, setConn_self]
    exact hbusy q consumed hq hqc

theorem quiet_of_holder {s : State N} (hs : PairInv s) {i : Fin N}
    (hi : (s.threads i).phase ≠ .outside) {c : ℕ} (hc : s.socket = some c)
    (huse : ∀ q, (s.threads i).phase.uses = some q → q.conn ≠ c) : (s.conns c).Quiet := by
  refine hs.quiet c hc fun j q hq => ?_
  by_cases hji : j = i
  · subst j
    exact huse q hq
  · rw [hs.outside_of_ne hi hji] at hq
    cases hq

theorem of_write {s : State N} (hs : PairInv s) {i : Fin N} {content : RequestContent} {c : ℕ}
    (hi : s.threads i = .writing content) (hc : s.socket = some c) (hfits : content.Fits) :
    PairInv (setThread (setConn s c ((s.conns c).write content)) i
      (.arming ⟨c, (s.conns c).sent.length, content⟩)) := by
  have hhold : (s.threads i).phase = .holding := by
    rw [hi]
    rfl
  have hin : (s.threads i).phase ≠ .outside := by simp [hhold]
  have hquiet : (s.conns c).Quiet := by
    refine hs.quiet_of_holder hin hc fun q hq => ?_
    rw [hhold] at hq
    cases hq
  refine hs.of_holder_conn hin hc (Conn.grows_write _ _) ?_ ?_ ?_ ?_ ?_
  · intro halive
    exact Conn.wire_write (hs.wire c halive) halive hfits
  · intro huse
    exact absurd rfl (huse _ rfl)
  · intro q consumed hq _
    cases hq
    exact ⟨Or.inl ⟨rfl, hquiet.1⟩, fun halive => ⟨by simp [Conn.write], fun k hk =>
      (Conn.grows_write _ _).answered (hquiet.2 halive k hk)⟩⟩
  · intro q hq
    obtain rfl := Option.some.inj hq
    refine ⟨?_, fun e he hec => ?_⟩
    · rw [setConn_self]
      simp [Conn.Recorded, Conn.write]
    · have hrec := (hs.returned e he).1
      rw [hec] at hrec
      exact (List.getElem?_eq_some_iff.mp hrec).1
  · intro q rsp hq
    cases hq

theorem of_read {s : State N} (hs : PairInv s) {i : Fin N} {n c : ℕ} {pc : Pc}
    (hc : s.socket = some c) (hn : 0 < n ∧ n ≤ (s.conns c).toClient.length)
    (hpc : (s.threads i).received ((s.conns c).toClient.take n) = some pc) :
    PairInv (setThread (setConn s c
      { s.conns c with toClient := (s.conns c).toClient.drop n }) i pc) := by
  obtain ⟨q, consumed, hphase⟩ := Pc.waiting_of_received hpc
  have hhold : (s.threads i).phase ≠ .outside := by simp [hphase]
  have hsome : (s.conns c).toClient ≠ [] := by
    intro h
    rw [h, List.length_nil] at hn
    omega
  -- a socket moved to another connection has nothing to read, for no request is under way there
  have hqc : q.conn = c := by
    by_contra hne
    have hquiet := hs.quiet_of_holder hhold hc fun q' hq' => by
      rw [hphase] at hq'
      obtain rfl := Option.some.inj hq'
      exact hne
    exact hsome hquiet.1
  subst hqc
  have hbusy := hs.busy i q consumed hphase hc
  obtain ⟨rsp, hfits, hparsed, hbytes⟩ := hbusy.1.resolve_left fun h => hsome h.2
  have hrec := hs.recorded i q (by rw [hphase]; rfl)
  have hgrow : (s.conns q.conn).Grows
      { s.conns q.conn with toClient := (s.conns q.conn).toClient.drop n } :=
    ⟨fun _ _ _ h => h, List.prefix_refl _⟩
  have hsplit : consumed ++ (s.conns q.conn).toClient.take n ++ (s.conns q.conn).toClient.drop n =
      responseCodec.encode rsp := by
    rw [List.append_assoc, List.take_append_drop, hbytes]
  rcases Pc.received_cases hpc hphase with hnext | ⟨head, buf, rfl, hlen, rfl⟩
  · refine hs.of_holder_conn hhold hc hgrow (hs.wire q.conn) ?_ ?_ ?_ ?_
    · intro huse
      rw [hnext] at huse
      exact absurd rfl (huse q rfl)
    · intro q' consumed' hq' _
      rw [hnext] at hq'
      cases hq'
      exact ⟨Or.inr ⟨rsp, hfits, hparsed, hsplit⟩, hbusy.2⟩
    · intro q' hq'
      rw [hnext] at hq'
      obtain rfl := Option.some.inj hq'
      rw [setConn_self]
      exact hrec
    · intro q' rsp' hq'
      rw [hnext] at hq'
      cases hq'
  · have hframe : head.1 ++ (buf ++ (s.conns q.conn).toClient.take n) ++
        (s.conns q.conn).toClient.drop n = responseCodec.encode rsp := by
      rw [← hsplit, ← List.append_assoc head.1]
    obtain ⟨hdecode, hdrop⟩ := responseCodec.decode_of_append hfits head.2 hlen hframe
    refine hs.of_holder_conn hhold hc hgrow (hs.wire q.conn) ?_ ?_ ?_ ?_
    · intro _
      refine ⟨hdrop, fun halive k hk => ?_⟩
      obtain ⟨hsent, hanswered⟩ := hbusy.2 halive
      rcases Nat.lt_succ_iff_lt_or_eq.mp (hsent ▸ hk) with hlt | rfl
      · exact hanswered k hlt
      · exact ⟨_, _, hparsed⟩
    · intro q' consumed' hq'
      cases hq'
    · intro q' hq'
      obtain rfl := Option.some.inj hq'
      rw [setConn_self]
      exact hrec
    · intro q' rsp' hq'
      cases hq'
      rw [setConn_self, hdecode]
      exact hparsed

theorem of_readFailed {s : State N} (hs : PairInv s) {i : Fin N} {q : Sent} {consumed : Bytes}
    (hi : (s.threads i).phase = .waiting q consumed) : PairInv (setThread s i (.readFailed q)) := by
  have hhold : (s.threads i).phase ≠ .outside := by simp [hi]
  have hphase : ((setThread s i (.readFailed q)).threads i).phase = .givingUp q := by
    rw [setThread_self]
    rfl
  refine hs.of_holder hhold (fun j hj => setThread_of_ne _ hj _) rfl rfl rfl
    (fun c => .refl _) hs.unused hs.socket hs.wire ?_ ?_ ?_ ?_
  · intro c hc huse
    refine hs.quiet_of_holder hhold hc fun q' hq' => huse q' ?_
    rw [hi] at hq'
    rw [hphase]
    exact hq'
  · intro q' consumed' hq'
    rw [hphase] at hq'
    cases hq'
  · intro q' hq'
    rw [hphase] at hq'
    exact hs.recorded i q' (by rw [hi]; exact hq')
  · intro q' rsp hq'
    rw [hphase] at hq'
    cases hq'

theorem of_close {s : State N} (hs : PairInv s) {i : Fin N} {q : Sent}
    (hi : s.threads i = .closing q) : PairInv (setThread (closeSocket s) i (.leaving none)) := by
  have hcl := hs.of_closeSocket
  have hhold : ((closeSocket s).threads i).phase ≠ .outside := by
    simp [closeSocket_threads, hi, Pc.phase]
  have hphase : ((setThread (closeSocket s) i (.leaving none)).threads i).phase = .holding := by
    rw [setThread_self]
    rfl
  refine hcl.of_holder hhold (fun j hj => setThread_of_ne _ hj _) rfl rfl rfl
    (fun c => .refl _) hcl.unused hcl.socket hcl.wire ?_ ?_ ?_ ?_
  · intro c hc
    rw [show (setThread (closeSocket s) i (.leaving none)).socket = none from closeSocket_socket s] at hc
    cases hc
  · intro q' consumed' hq'
    rw [hphase] at hq'
    cases hq'
  · intro q' hq'
    rw [hphase] at hq'
    cases hq'
  · intro q' rsp hq'
    rw [hphase] at hq'
    cases hq'

theorem of_idle {s t : State N} (hs : PairInv s) (hnone : ∀ i, (s.threads i).phase.uses = none)
    (hsent : ∀ i, (t.threads i).phase.sent = none)
    (howner : ∀ i, (t.threads i).phase ≠ .outside → t.mutex = some i)
    (hsocket : t.socket = s.socket) (hconns : t.conns = s.conns) (hnext : t.next = s.next)
    (hreturned : ∀ e ∈ t.returned, (s.conns e.1.conn).Recorded e.1 ∧ (s.conns e.1.conn).Paired e.1 e.2)
    (hdistinct : (t.returned.map fun e => (e.1.conn, e.1.index)).Nodup) : PairInv t := by
  refine ⟨howner, ?_, ?_, ?_, ?_, ?_, ?_, ?_, ?_, hdistinct⟩
  · rw [hnext, hconns]
    exact hs.unused
  · rw [hnext, hsocket]
    exact hs.socket
  · rw [hconns]
    exact hs.wire
  · intro c hc _
    rw [hsocket] at hc
    rw [hconns]
    refine hs.quiet c hc fun i q hq => ?_
    rw [hnone i] at hq
    cases hq
  · intro i q consumed hi
    have := hsent i
    rw [hi] at this
    cases this
  · intro i q hi
    rw [hsent i] at hi
    cases hi
  · intro i q rsp hi
    have := hsent i
    rw [hi] at this
    cases this
  · rw [hconns]
    exact hreturned

theorem of_lock {s : State N} (hs : PairInv s) {i : Fin N} (content : RequestContent)
    (hm : s.mutex = none) : PairInv { setThread s i (.writing content) with mutex := some i } := by
  have hout : ∀ j, (s.threads j).phase = .outside := by
    intro j
    by_contra h
    have := hs.owner j h
    rw [hm] at this
    cases this
  refine hs.of_idle (fun j => by rw [hout j]; rfl) ?_ ?_ rfl rfl rfl hs.returned hs.distinct
  · intro j
    change ((setThread s i (.writing content)).threads j).phase.sent = none
    by_cases hj : j = i
    · subst j
      rw [setThread_self]
      rfl
    · rw [setThread_of_ne _ hj, hout j]
      rfl
  · intro j hph
    change ((setThread s i (.writing content)).threads j).phase ≠ .outside at hph
    by_cases hj : j = i
    · rw [hj]
    · rw [setThread_of_ne _ hj] at hph
      exact absurd (hout j) hph

theorem of_leave {s : State N} (hs : PairInv s) {i : Fin N}
    {result : Option (Sent × ResponseContent)} (hi : s.threads i = .leaving result) (timer : Timer) :
    PairInv { setThread s i .idle with
      mutex := none, timer := timer, returned := s.returned ++ result.toList } := by
  have hhold : (s.threads i).phase ≠ .outside := by
    rw [hi]
    cases result <;> intro h <;> cases h
  have hout : ∀ j, ((setThread s i .idle).threads j).phase = .outside := by
    intro j
    by_cases hj : j = i
    · subst j
      rw [setThread_self]
      rfl
    · rw [setThread_of_ne _ hj]
      exact hs.outside_of_ne hhold hj
  have hnone : ∀ j, (s.threads j).phase.uses = none := by
    intro j
    by_cases hj : j = i
    · subst j
      rw [hi]
      cases result <;> rfl
    · rw [hs.outside_of_ne hhold hj]
      rfl
  refine hs.of_idle hnone (fun j => ?_) (fun j hph => absurd (hout j) hph) rfl rfl rfl ?_ ?_
  · change ((setThread s i .idle).threads j).phase.sent = none
    rw [hout j]
    rfl
  · intro e he
    rcases List.mem_append.mp he with he | he
    · exact hs.returned e he
    · obtain rfl : result = some e := Option.mem_toList.mp he
      exact ⟨(hs.recorded i e.1 (by rw [hi]; rfl)).1, hs.answered i e.1 e.2 (by rw [hi]; rfl)⟩
  · cases result with
    | none => simpa using hs.distinct
    | some e =>
      have hlater := (hs.recorded i e.1 (by rw [hi]; rfl)).2
      simp only [Option.toList_some, List.map_append, List.map_cons, List.map_nil]
      refine List.nodup_append.mpr ⟨hs.distinct, by simp, ?_⟩
      intro key hkey key' hkey' heq
      obtain rfl := List.mem_singleton.mp hkey'
      obtain ⟨e', he', rfl⟩ := List.mem_map.mp hkey
      obtain ⟨hconn, hindex⟩ := Prod.mk.inj heq
      exact absurd (hlater e' he' hconn) (by omega)

theorem of_setThread {s : State N} (hs : PairInv s) {i : Fin N} {pc : Pc}
    (h : pc.phase = (s.threads i).phase) : PairInv (setThread s i pc) := by
  refine hs.congr (fun j => ?_) rfl rfl rfl rfl rfl
  by_cases hj : j = i
  · subst j
    rw [setThread_self, h]
  · rw [setThread_of_ne _ hj]

end PairInv

/-- Every string of a request or of a response has a size below `2 ^ 32`. -/
def FitsHeader (s : State N) : Action N → Prop
  | .write i => ∀ content ∈ (s.threads i).unwritten, content.Fits
  | .answer _ _ _ messageName body => messageName.length < 2 ^ 32 ∧ body.length < 2 ^ 32
  | _ => True

theorem step_pair {requestTimeout : ℕ} {s t : State N} {a : Action N} (hs : PairInv s)
    (hok : FitsHeader s a) (h : step requestTimeout s a = some t) : PairInv t := by
  cases step_effect h with
  | call hi => exact hs.of_setThread (by rw [hi]; rfl)
  | testReady hi => exact hs.of_setThread (by rw [hi]; rfl)
  | testLocking hi => exact hs.of_setThread (by rw [hi]; rfl)
  | lockConn hi => exact (hs.of_setThread (by rw [hi]; rfl)).congr (fun _ => rfl) rfl rfl rfl rfl rfl
  | retestReady hi => exact (hs.of_setThread (by rw [hi]; rfl)).congr (fun _ => rfl) rfl rfl rfl rfl rfl
  | retestConnecting hi hc => exact hs.of_setThread (by rw [hi]; rfl)
  | connect hi => exact hs.of_connect.of_setThread (by rw [connect_threads, hi]; rfl)
  | connectRetry => exact hs.of_closeSocket
  | connectFailed hi =>
    have hidle : PairInv (setThread (closeSocket s) _ .idle) :=
      hs.of_closeSocket.of_setThread (by rw [closeSocket_threads, hi]; rfl)
    exact hidle.congr (fun _ => rfl) rfl rfl rfl rfl rfl
  | setConnected hi => exact (hs.of_setThread (by rw [hi]; rfl)).congr (fun _ => rfl) rfl rfl rfl rfl rfl
  | lock hi hm => exact hs.of_lock _ hm
  | write hi hc => exact hs.of_write hi hc (hok _ (by rw [hi]; rfl))
  | writeFailed hi hc =>
    exact (hs.of_writeFailed hc _ _).of_setThread (by rw [setConn_threads, hi]; rfl)
  | writeClosed hi => exact hs.of_setThread (by rw [hi]; rfl)
  | clearWrite hi => exact (hs.of_setThread (by rw [hi]; rfl)).congr (fun _ => rfl) rfl rfl rfl rfl rfl
  | clearRead hi => exact (hs.of_setThread (by rw [hi]; rfl)).congr (fun _ => rfl) rfl rfl rfl rfl rfl
  | arm hi => exact (hs.of_setThread (by rw [hi]; rfl)).congr (fun _ => rfl) rfl rfl rfl rfl rfl
  | read hc hn hpc => exact hs.of_read hc hn hpc
  | readFailed hi =>
    rcases hi with ⟨buf, hi⟩ | ⟨head, buf, hi⟩
    · exact hs.of_readFailed (by rw [hi]; rfl)
    · exact hs.of_readFailed (by rw [hi]; rfl)
  | close hi => exact hs.of_close hi
  | leave hi => exact hs.of_leave hi _
  | expire => exact hs.congr (fun _ => rfl) rfl rfl rfl rfl rfl
  | fire => exact hs.congr (fun _ => rfl) rfl rfl rfl rfl rfl
  | timerClose => exact hs.of_closeSocket.congr (fun _ => rfl) rfl rfl rfl rfl rfl
  | lose => exact hs.of_lose _
  | parse hf => exact hs.of_parse hf
  | answer ha => exact hs.of_answer ha hok.1 hok.2

/-- In every run that keeps to `FitsHeader`, each call that returns has the response
which the server produced for the request that this call wrote, and no two calls have
the response to the same request. -/
theorem returns_own_response (requestTimeout : ℕ) {as : List (Action N)} {s : State N}
    (hc : Conforms (step requestTimeout) FitsHeader initial as)
    (hr : run (step requestTimeout) initial as = some s) :
    (∀ e ∈ s.returned, (s.conns e.1.conn).Recorded e.1 ∧ (s.conns e.1.conn).Paired e.1 e.2) ∧
      (s.returned.map fun e => (e.1.conn, e.1.index)).Nodup := by
  have hinv : PairInv s := conforming_invariant (fun _ _ _ => step_pair) initial_pair hc hr
  exact ⟨hinv.returned, hinv.distinct⟩

instance (content : RequestContent) : Decidable content.Fits :=
  inferInstanceAs (Decidable (_ ∧ _ ∧ _))

instance (s : State N) : (a : Action N) → Decidable (FitsHeader s a)
  | .write i => inferInstanceAs (Decidable (∀ content ∈ (s.threads i).unwritten, content.Fits))
  | .answer _ _ _ messageName body =>
    inferInstanceAs (Decidable (messageName.length < 2 ^ 32 ∧ body.length < 2 ^ 32))
  | .call _ _ | .test _ | .lockConn _ | .retest _ | .connect _ | .connectRetry _ | .connectFailed _
  | .setConnected _ | .lock _ | .writeFailed _ _ | .clear _ | .arm _ | .read _ _ | .readFailed _
  | .close _ | .leave _ | .expire | .fire | .timerClose | .lose _ | .parse _ => .isTrue trivial

def byeRequest : RequestContent :=
  ⟨0, ⟨.nonSerialize, .rpcClient⟩, [101, 99, 104, 111], [], [98, 121, 101]⟩

/-- One thread calls while the other one waits for its response, which it reads in three pieces. -/
def sharedCalls (i j : Fin N) : List (Action N) :=
  writeRequest i echoRequest ++ [.call j byeRequest, .test j, .parse 0,
    .answer 0 0 .ok [] [104, 105], .read i 8, .read i 4, .read i 6, .leave i, .lock j, .write j,
    .arm j, .parse 0, .answer 0 1 .ok [] [98, 121, 101], .read j 8, .read j 11, .leave j]

theorem returns_own_response_echo :
    ∃ s : State 2, run (step 3) initial (sharedCalls 0 1) = some s ∧
      s.returned = [(⟨0, 0, echoRequest⟩, ⟨0, .ok, [], [104, 105]⟩),
        (⟨0, 1, byeRequest⟩, ⟨0, .ok, [], [98, 121, 101]⟩)] ∧
      ∀ e ∈ s.returned, (s.conns e.1.conn).Recorded e.1 ∧ (s.conns e.1.conn).Paired e.1 e.2 := by
  have hrun : (run (step 3) (initial : State 2) (sharedCalls 0 1)).map State.returned =
      some [(⟨0, 0, echoRequest⟩, ⟨0, .ok, [], [104, 105]⟩),
        (⟨0, 1, byeRequest⟩, ⟨0, .ok, [], [98, 121, 101]⟩)] := by decide +kernel
  obtain ⟨s, hs, he⟩ := Option.map_eq_some_iff.mp hrun
  exact ⟨s, hs, he, (returns_own_response 3 (by decide +kernel) hs).1⟩

theorem step_read (requestTimeout : ℕ) {s : State N} {i : Fin N} {c : ℕ} {bytes rest : Bytes} {pc : Pc}
    (hsock : s.socket = some c) (hbytes : (s.conns c).toClient = bytes ++ rest) (hpos : bytes ≠ [])
    (hpc : (s.threads i).received bytes = some pc) :
    step requestTimeout s (.read i bytes.length) =
      some (setThread (setConn s c { s.conns c with toClient := rest }) i pc) := by
  have hlen : 0 < bytes.length := List.length_pos_iff.mpr hpos
  simp [step, read, hsock, hbytes, hlen, hpc]

theorem received_frame (q : Sent) {rsp : ResponseContent} (hfits : rsp.Fits) :
    ∃ pc, (Pc.readingHead q []).received (responseCodec.head rsp) = some pc ∧
      pc.received (responseCodec.content rsp) = some (.leaving (some (q, rsp))) := by
  have hhead : (responseCodec.head rsp).length = responseCodec.headLen := responseCodec.head_length rsp
  refine ⟨.readingContent q ⟨responseCodec.head rsp, hhead⟩ [], ?_, ?_⟩
  · simp [Pc.received, hhead]
  · simp [Pc.received, responseCodec.contentLen_head rsp hfits, responseCodec.decode_encode rsp hfits]

theorem encode_truncated (callId : UInt32) {body : Bytes} (hbody : body.length = 2 ^ 32) :
    getResponseBuffer (ResponseHeader.ofContent ⟨callId, .ok, [], body⟩) ⟨callId, .ok, [], body⟩ =
      responseCodec.head ⟨callId, .ok, [], []⟩ ++ (responseCodec.content ⟨callId, .ok, [], []⟩ ++ body) := by
  have hsize : sizeWord body = sizeWord [] := by
    rw [sizeWord, hbody]
    rfl
  simp [getResponseBuffer, responseCodec, ResponseHeader.ofContent, ResponseContent.toBytes, hsize]

theorem run_respond (requestTimeout : ℕ) {s : State N} {i : Fin N} {q : Sent} {conn : Conn}
    {rsp seen : ResponseContent} {rest : Bytes} (hi : s.threads i = .readingHead q [])
    (hsock : s.socket = some q.conn) (hconn : s.conns q.conn = conn) (halive : conn.alive = true)
    (hnone : conn.toClient = []) (hk : conn.parsed[q.index]? = some (q.content, none))
    (hid : rsp.callId = q.content.callId) (hfits : seen.Fits)
    (hframe : getResponseBuffer (ResponseHeader.ofContent rsp) rsp =
      responseCodec.head seen ++ (responseCodec.content seen ++ rest)) :
    ∃ t, run (step requestTimeout) s
        [.answer q.conn q.index rsp.code rsp.messageName rsp.body,
          .read i (responseCodec.head seen).length, .read i (responseCodec.content seen).length,
          .leave i] = some t ∧
      (q, seen) ∈ t.returned ∧ (t.conns q.conn).Paired q rsp := by
  obtain ⟨pc, hhead, hcontent⟩ := received_frame q hfits
  have hhead_ne : responseCodec.head seen ≠ [] := by
    simp [responseCodec, ← List.length_pos_iff]
  have hcontent_ne : responseCodec.content seen ≠ [] := by
    intro h
    have hlen := congrArg List.length h
    simp only [responseCodec, ResponseContent.toBytes, List.length_append, wordBytes_length,
      List.length_nil] at hlen
    omega
  let conn₁ : Conn := { conn with
    alive := true
    parsed := conn.parsed.set q.index (q.content, some rsp)
    toClient := responseCodec.head seen ++ (responseCodec.content seen ++ rest) }
  let s₁ := setConn s q.conn conn₁
  let s₂ := setThread (setConn s₁ q.conn
    { conn₁ with toClient := responseCodec.content seen ++ rest }) i pc
  let s₃ := setThread (setConn s₂ q.conn { conn₁ with toClient := rest }) i (.leaving (some (q, seen)))
  have hconn₁ : s₁.conns q.conn = conn₁ := setConn_self _ _ _
  have hconn₂ : s₂.conns q.conn = { conn₁ with toClient := responseCodec.content seen ++ rest } :=
    setConn_self _ _ _
  have h₁ : step requestTimeout s (.answer q.conn q.index rsp.code rsp.messageName rsp.body) = some s₁ := by
    simp only [step, Conn.answer, hconn, hk, halive, hnone, ← hid, hframe, if_true, List.nil_append]
    rfl
  have h₂ : step requestTimeout s₁ (.read i (responseCodec.head seen).length) = some s₂ := by
    have := step_read (s := s₁) requestTimeout hsock (by rw [hconn₁]) hhead_ne (by rw [← hhead, ← hi]; rfl)
    rwa [hconn₁] at this
  have h₃ : step requestTimeout s₂ (.read i (responseCodec.content seen).length) = some s₃ := by
    have := step_read (s := s₂) requestTimeout hsock (by rw [hconn₂]) hcontent_ne
      (by rw [← hcontent, setThread_self])
    rwa [hconn₂] at this
  have h₄ : step requestTimeout s₃ (.leave i) = some { setThread s₃ i .idle with
      mutex := none
      timer := { s₃.timer with armed := false }
      returned := s₃.returned ++ [(q, seen)] } := by
    simp [step, s₃]
  refine ⟨_, run_cons_eq_some.mpr ⟨s₁, h₁, run_cons_eq_some.mpr ⟨s₂, h₂,
    run_cons_eq_some.mpr ⟨s₃, h₃, run_cons_eq_some.mpr ⟨_, h₄, rfl⟩⟩⟩⟩, by simp, ?_⟩
  have hconn₃ : s₃.conns q.conn = { conn₁ with toClient := rest } := setConn_self _ _ _
  change (s₃.conns q.conn).parsed[q.index]? = some (q.content, some rsp)
  rw [hconn₃]
  exact List.getElem?_set_self (List.getElem?_eq_some_iff.mp hk).1

/-- A body of `2 ^ 32` bytes is announced as empty, and the call returns an empty body
in its place. -/
theorem returns_truncated_response : ¬ ∀ (N requestTimeout : ℕ) (as : List (Action N)) (s : State N),
    run (step requestTimeout) initial as = some s →
      ∀ e ∈ s.returned, (s.conns e.1.conn).Paired e.1 e.2 := by
  intro h
  have hstart : (run (step 3) (initial : State 1) (writeRequest 0 echoRequest ++ [.parse 0])).map
      (fun s => (s.threads 0, s.socket, s.conns 0)) = some (.readingHead ⟨0, 0, echoRequest⟩ [], some 0,
        ⟨true, [], [], [echoRequest], [(echoRequest, none)]⟩) := by decide
  obtain ⟨s, hs, he⟩ := Option.map_eq_some_iff.mp hstart
  obtain ⟨hi, he⟩ := Prod.mk.inj he
  obtain ⟨hsock, hconn⟩ := Prod.mk.inj he
  have hbody : (List.replicate (2 ^ 32) 0 : Bytes).length = 2 ^ 32 := List.length_replicate
  obtain ⟨t, ht, hmem, hpaired⟩ := run_respond 3 hi hsock hconn rfl rfl rfl rfl
    ⟨by decide, by decide⟩ (encode_truncated 0 hbody)
  have hother := h 1 3 _ t (run_trans hs ht) _ hmem
  have hsame := Option.some.inj (hpaired.symm.trans hother)
  have hnil : (List.replicate (2 ^ 32) 0 : Bytes) = [] :=
    congrArg ResponseContent.body (Option.some.inj (Prod.mk.inj hsame).2)
  rw [hnil] at hbody
  exact absurd hbody (by decide)

end Czrpc.SyncClient
