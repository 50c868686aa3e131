import Czrpc.SyncLedger

/-! The calls on a shared `rpc_client` are linearizable: a response is read by the call whose
request it answers, and a handler runs between the write of the request and the read of the
response. -/
namespace Czrpc.SyncHistory
open Execution Framing Protocol SyncClient Linearizability

variable {N : ℕ} {σ : Type*} {handler : Handler σ} {init : σ} {s : State N σ}

namespace Ledger

theorem of_read (hs : Ledger handler init s) (hpair : PairInv s.client) {i : Fin N} {n c : ℕ}
    {pc : Pc} (hc : s.client.socket = some c)
    (hn : 0 < n ∧ n ≤ (s.client.conns c).toClient.length)
    (hpc : (s.client.threads i).received ((s.client.conns c).toClient.take n) = some pc) :
    Ledger handler init (record s (.read i n) (setThread (setConn s.client c
      { s.client.conns c with toClient := (s.client.conns c).toClient.drop n }) i pc)) := by
  obtain ⟨q, consumed, hphase⟩ := Pc.waiting_of_received hpc
  have hbusy : s.client.threads i ≠ .idle := by
    intro hidle
    rw [hidle] at hphase
    cases hphase
  have howns : Owns s q (s.current i) := by
    rcases (hs.standing i).waiting q consumed hphase with ho | ⟨⟨-, hto, -⟩, -⟩
    · exact ho
    · exfalso
      have hempty : (s.client.conns c).toClient = [] := by
        by_cases hq : q.conn = c
        · rw [← hq]
          exact hto
        · refine (hpair.quiet_of_holder (i := i) (by simp [hphase]) hc ?_).1
          intro q' hq'
          rw [hphase] at hq'
          obtain rfl := Option.some.inj hq'
          exact hq
      rw [hempty, List.length_nil] at hn
      omega
  have hfades : ∀ d, Fades (s.client.conns d) ((setConn s.client c
      { s.client.conns c with toClient := (s.client.conns c).toClient.drop n }).conns d) := by
    intro d
    by_cases hd : d = c
    · subst hd
      rw [setConn_self]
      exact .of_eq rfl rfl rfl id (fun h => by simp [h])
    · rw [setConn_of_ne _ hd]
      exact .refl _
  refine hs.update ?_ ?_ hfades rfl
  · intro j
    by_cases hj : j = i
    · subst hj
      simp only [setThread_self]
      rcases Pc.received_cases hpc hphase with h | ⟨head, buf, -, -, rfl⟩
      · refine ⟨fun _ => (hs.standing j).pending hbusy, ?_, ?_, ?_⟩
        · intro content hr
          rw [unsent_of_waiting h] at hr
          cases hr
        · intro q' consumed' h'
          rw [h] at h'
          obtain ⟨rfl, -⟩ := Phase.waiting.inj h'
          exact Or.inl howns
        · intro q' rsp h'
          rw [h] at h'
          cases h'
      · refine ⟨fun _ => (hs.standing j).pending hbusy, nofun, nofun, ?_⟩
        intro q' rsp h'
        obtain ⟨rfl, -⟩ := Phase.answered.inj h'
        exact howns
    · simp only [setThread_of_ne _ hj, setConn_threads]
      obtain ⟨hpending, hrequested, hwaiting, hanswered⟩ := hs.standing j
      refine ⟨hpending, hrequested, ?_, hanswered⟩
      intro q' consumed' hw
      rcases hwaiting q' consumed' hw with ho | ⟨hd, hnil⟩
      · exact Or.inl ho
      · exact Or.inr ⟨hd.fade (hfades q'.conn) (Nat.le_refl _), hnil⟩
  · intro j hj
    by_cases hji : j = i
    · rw [hji]
      exact hbusy
    · rwa [setThread_of_ne _ hji] at hj

theorem of_parse (hs : Ledger handler init s) {c : ℕ} {content : RequestContent} {rest : Bytes}
    (hframe : requestCodec.readFrame (s.client.conns c).toServer = some (content, rest)) :
    Ledger handler init (record s (.parse c) (setConn s.client c { s.client.conns c with
      toServer := rest, parsed := (s.client.conns c).parsed ++ [(content, none)] })) := by
  refine hs.keep (fun i => .refl _) ?_ rfl
  intro d
  by_cases hd : d = c
  · subst hd
    rw [setConn_self]
    refine ⟨?_, fun xs h => h.parse hframe, id, id⟩
    intro k content' rsp
    rcases Nat.lt_or_ge k (s.client.conns d).parsed.length with hk | hk
    · simp only [List.getElem?_append_left hk]
    · rw [List.getElem?_append_right hk, List.getElem?_eq_none hk, List.getElem?_singleton]
      split_ifs <;> simp
  · rw [setConn_of_ne _ hd]
    exact .refl _

theorem of_leave (hs : Ledger handler init s) (hpair : PairInv s.client) {i : Fin N} {q : Sent}
    {rsp : ResponseContent} (hi : s.client.threads i = .leaving (some (q, rsp)))
    {t : SyncClient.State N} (hthreads : t.threads = Function.update s.client.threads i .idle)
    (hconns : t.conns = s.client.conns) (hnext : t.next = s.client.next) :
    Ledger handler init (record s (.leave i) t) := by
  have hphase : (s.client.threads i).phase = .answered q rsp := by
    rw [hi]
    rfl
  have howns : Owns s q (s.current i) := (hs.standing i).answered q rsp hphase
  obtain ⟨p, hp, hop, hout⟩ := hs.handled q.conn q.index q.content rsp (hpair.answered i q rsp hphase)
  -- the response is the one of the point that the call has, so returning it is explained
  have hpoint : p.op = s.current i := Option.some.inj (hop.symm.trans howns)
  have hinput : ∀ o : ℕ, (s.calls.modify (s.current i) (·.finish rsp s.now))[o]?.map Operation.input =
      s.calls[o]?.map Operation.input := by
    intro o
    by_cases ho : s.current i = o
    · rw [ho, List.getElem?_modify_eq]
      cases s.calls[o]? <;> rfl
    · rw [List.getElem?_modify_ne _ _ ho]
  have hother : ∀ j, t.threads j ≠ .idle → j ≠ i ∧ s.client.threads j ≠ .idle := by
    intro j hj
    rw [hthreads] at hj
    by_cases hji : j = i
    · subst hji
      rw [Function.update_self] at hj
      exact absurd rfl hj
    · rw [Function.update_of_ne hji] at hj
      exact ⟨hji, hj⟩
  simp only [record, hi]
  refine ⟨(hs.explains.answer ⟨p, hp, hpoint, hout⟩).later (Nat.le_succ _), ?_, ?_, ?_, ?_, ?_,
    hs.single, ?_, ?_⟩
  · intro a ha
    obtain ⟨o, ho⟩ := List.mem_iff_getElem?.mp ha
    by_cases hio : s.current i = o
    · rw [← hio, List.getElem?_modify_eq] at ho
      obtain ⟨b, hb, rfl⟩ := Option.map_eq_some_iff.mp ho
      exact Nat.lt_succ_of_lt (hs.started b (List.mem_of_getElem? hb))
    · rw [List.getElem?_modify_ne _ _ hio] at ho
      exact Nat.lt_succ_of_lt (hs.started a (List.mem_of_getElem? ho))
  · intro j
    by_cases hj : j = i
    · subst hj
      simp only [hthreads, Function.update_self]
      refine ⟨fun h => absurd rfl h, ?_, ?_, ?_⟩
      · intro content hcontent
        cases hcontent
      · intro q consumed hq
        cases hq
      · intro q rsp hq
        cases hq
    · simp only [hthreads, Function.update_of_ne hj]
      obtain ⟨hpending, hrequested, hwaiting, hanswered⟩ := hs.standing j
      refine ⟨?_, ?_, ?_, hanswered⟩
      · intro hb
        obtain ⟨a, ha, hret⟩ := hpending hb
        refine ⟨a, ?_, hret⟩
        have hne : s.current i ≠ s.current j :=
          hs.apart i j (Ne.symm hj) (by simp [hi]) hb
        simp only [List.getElem?_modify_ne _ _ hne, ha]
      · intro content hr
        obtain ⟨hf, hin, hown⟩ := hrequested content hr
        exact ⟨hf, (hinput _).trans hin, hown⟩
      · intro q' consumed hw
        rcases hwaiting q' consumed hw with ho | ⟨hd, hnil⟩
        · exact Or.inl ho
        · refine Or.inr ⟨hd.fade ?_ (Nat.le_of_eq hnext.symm), hnil⟩
          rw [hconns]
          exact .refl _
  · intro j l hjl hj hl
    exact hs.apart j l hjl (hother j hj).2 (hother l hl).2
  · intro c hc
    exact hs.unused c (hnext ▸ hc)
  · intro c
    have hin : inputs { s with
        client := t
        now := s.now + 1
        calls := s.calls.modify (s.current i) (·.finish rsp s.now) } c = inputs s c :=
      List.map_congr_left fun o _ => hinput o
    rw [hin]
    simp only [hconns]
    exact hs.lane c
  · simp only [hconns]
    exact hs.handled
  · simp only [hconns]
    exact hs.answered

theorem of_handle (hs : Ledger handler init s) {c k : ℕ} {content : RequestContent} {conn : Conn}
    (hparsed : (s.client.conns c).parsed[k]? = some (content, none))
    (hconn : (s.client.conns c).answer k (handler s.object content).2.code
      (handler s.object content).2.messageName (handler s.object content).2.body = some conn) :
    Ledger handler init { s with
      client := setConn s.client c conn
      object := (handler s.object content).1
      now := s.now + 1
      points := s.points ++ (s.owners c)[k]?.toList.map fun o =>
        ⟨o, content, response content (handler s.object content).2, s.now⟩ } := by
  obtain ⟨o, a, ho, ha, rfl⟩ := hs.owner_of_parsed hparsed
  -- the request was not handled before, so its call has no point and has not returned
  have hfresh : ∀ p ∈ s.points, p.op ≠ o := by
    intro p hp hop
    obtain ⟨content', hdone⟩ := hs.point_of_owner hp ho hop
    rw [hparsed] at hdone
    cases hdone
  have hret : a.returned = none := by
    cases hr : a.returned with
    | none => rfl
    | some r =>
      obtain ⟨p, hp, hop, -⟩ := hs.explains.complete o a r.1 r.2 ha hr
      exact absurd hop (hfresh p hp)
  obtain ⟨content, rsp, rfl, hk, rfl⟩ := Conn.answer_eq_some hconn
  obtain rfl : a.input = content := (Prod.mk.inj (Option.some.inj (hparsed.symm.trans hk))).1
  have hlt : k < (s.client.conns c).parsed.length := (List.getElem?_eq_some_iff.mp hk).1
  simp only [ho, Option.toList_some, List.map_singleton]
  refine ⟨hs.explains.act ha (hs.started a (List.mem_of_getElem? ha)) hret hfresh,
    fun b hb => Nat.lt_succ_of_lt (hs.started b hb), ?_, hs.apart, hs.unused, ?_, hs.single, ?_, ?_⟩
  · intro j
    obtain ⟨hpending, hrequested, hwaiting, hanswered⟩ := hs.standing j
    refine ⟨hpending, hrequested, ?_, hanswered⟩
    intro q consumed hw
    rcases hwaiting q consumed hw with howns | ⟨⟨hdead, hto, hnext⟩, hnil⟩
    · exact Or.inl howns
    · refine Or.inr ⟨?_, hnil⟩
      by_cases hq : q.conn = c
      · rw [hq] at hdead hto
        refine ⟨?_, ?_, hnext⟩
        · simp only [hq, setConn_self, hdead]
        · simp only [hq, setConn_self, hdead, Bool.false_eq_true, if_false, hto]
      · refine ⟨?_, ?_, hnext⟩
        · simp only [setConn_of_ne _ hq, hdead]
        · simp only [setConn_of_ne _ hq, hto]
  · intro d
    by_cases hd : d = c
    · subst hd
      simp only [setConn_self]
      exact (hs.lane d).handle hk _ _
    · simp only [setConn_of_ne _ hd]
      exact hs.lane d
  · intro d l content' rsp' h
    by_cases hdl : d = c ∧ l = k
    · obtain ⟨rfl, rfl⟩ := hdl
      simp only [setConn_self, List.getElem?_set_self hlt] at h
      cases h
      exact ⟨_, List.mem_append_right _ (List.mem_singleton_self _), ho, rfl⟩
    · have hold : (s.client.conns d).parsed[l]? = some (content', some rsp') := by
        by_cases hd : d = c
        · subst hd
          simp only [setConn_self] at h
          rwa [List.getElem?_set_ne fun hl => hdl ⟨rfl, hl.symm⟩] at h
        · simpa only [setConn_of_ne _ hd] using h
      obtain ⟨p, hp, hop, hout⟩ := hs.handled d l content' rsp' hold
      exact ⟨p, List.mem_append_left _ hp, hop, hout⟩
  · intro p hp
    rcases List.mem_append.mp hp with hp | hp
    · obtain ⟨d, l, content', hop, hdone⟩ := hs.answered p hp
      refine ⟨d, l, content', hop, ?_⟩
      by_cases hd : d = c
      · subst hd
        simp only [setConn_self]
        exact (Conn.grows_answer hk _ []).parsed l content' _ hdone
      · simpa only [setConn_of_ne _ hd] using hdone
    · obtain rfl := List.mem_singleton.mp hp
      refine ⟨c, k, a.input, ho, ?_⟩
      simp only [setConn_self, List.getElem?_set_self hlt]
      rfl

end Ledger

/-- The whole state: the pairing of responses with requests, and the books. -/
structure Inv (handler : Handler σ) (init : σ) (s : State N σ) : Prop where
  pair : PairInv s.client
  ledger : Ledger handler init s

theorem Ledger.fitsHeader (hs : Ledger handler init s) {a : SyncClient.Action N}
    (ha : ∀ c k code messageName body, a ≠ .answer c k code messageName body) :
    FitsHeader s.client a := by
  cases a with
  | write i =>
    intro content hc
    refine ((hs.standing i).requested content ?_).1
    cases hpc : s.client.threads i <;> simp_all [Pc.unwritten, unsent]
  | answer c k code messageName body => exact absurd rfl (ha c k code messageName body)
  | _ => trivial

theorem Ledger.of_client (hs : Ledger handler init s) (hpair : PairInv s.client)
    {requestTimeout : ℕ} {a : SyncClient.Action N} {t : SyncClient.State N}
    (hsized : Sized (.client a)) (ha : ∀ c k code messageName body, a ≠ .answer c k code messageName body)
    (h : SyncClient.step requestTimeout s.client a = some t) : Ledger handler init (record s a t) := by
  have hsame : ∀ c, Fades (s.client.conns c) (s.client.conns c) := fun c => .refl _
  cases SyncClient.step_effect h with
  | call hi => exact hs.of_call hsized
  | testReady hi | testLocking hi | lockConn hi | retestReady hi | retestConnecting hi hc
  | setConnected hi =>
    exact hs.move (by rw [hi]; exact .toward (by simp) (.inr rfl) (.inl rfl)) rfl hsame rfl
  | connect hi =>
    exact hs.of_connect.move (by
      rw [connect_threads, hi]
      exact .toward (by simp) (.inr rfl) (.inl rfl)) rfl (fun c => .refl _) rfl
  | connectRetry =>
    refine hs.keep (fun j => ?_) (fades_closeSocket _) (closeSocket_next _)
    rw [closeSocket_threads]
    exact .refl _
  | connectFailed hi =>
    exact hs.move (by rw [hi]; exact .toward (by simp) (.inl rfl) (.inl rfl))
      (setThread_closeSocket_threads _ _ _) (fades_closeSocket _) (closeSocket_next _)
  | lock hi hm =>
    exact hs.move (by rw [hi]; exact .toward (by simp) (.inr rfl) (.inr (.inr (.inl rfl)))) rfl
      hsame rfl
  | write hi hc => exact hs.of_write hpair hi hc
  | writeFailed hi hc => exact hs.of_writeFailed hpair hi hc
  | @writeClosed i content n hi =>
    simp only [record]
    split
    · rename_i c content' hc hi'
      simp only [SyncClient.step, hi', hc] at h
      have hwritten := hs.of_writeFailed (n := n) hpair hi' hc
      rw [Option.some.inj h] at hwritten
      simpa only [record, hc, hi'] using hwritten
    · exact hs.move (by rw [hi]; exact .toward (by simp) (.inl rfl) (.inl rfl)) rfl hsame rfl
  | clearWrite hi | clearRead hi | arm hi =>
    exact hs.move (by rw [hi]; exact .toward (by simp) (.inl rfl) (.inl rfl)) rfl hsame rfl
  | read hc hn hpc => exact hs.of_read hpair hc hn hpc
  | readFailed hi =>
    refine hs.move (.toward ?_ (.inl rfl) (.inr (.inr (.inr ⟨_, rfl⟩)))) rfl hsame rfl
    rcases hi with ⟨buf, hi⟩ | ⟨head, buf, hi⟩ <;> simp [hi]
  | close hi =>
    exact hs.move (by rw [hi]; exact .toward (by simp) (.inl rfl) (.inr (.inr (.inl rfl))))
      (setThread_closeSocket_threads _ _ _) (fades_closeSocket _) (closeSocket_next _)
  | @leave i result timer hi =>
    cases result with
    | none =>
      simp only [record, hi]
      exact hs.move (by rw [hi]; exact .toward (by simp) (.inl rfl) (.inr (.inl rfl))) rfl hsame rfl
    | some r => exact hs.of_leave hpair hi rfl rfl rfl
  | expire => exact hs.keep (fun i => .refl _) hsame rfl
  | fire => exact hs.keep (fun i => .refl _) hsame rfl
  | timerClose =>
    refine hs.keep (fun j => ?_) (fades_closeSocket _) (closeSocket_next _)
    simp only [closeSocket_threads]
    exact .refl _
  | lose => exact hs.keep (fun i => .refl _) (fades_lose _ _) rfl
  | parse hf => exact hs.of_parse hf
  | answer => exact absurd rfl (ha _ _ _ _ _)

theorem record_client (s : State N σ) (a : SyncClient.Action N) (t : SyncClient.State N) :
    (record s a t).client = t := by
  cases a <;> simp only [record] <;> split <;> rfl

theorem step_inv {requestTimeout : ℕ} {s t : State N σ} {a : Action N} (hs : Inv handler init s)
    (hsized : Sized a) (h : step handler requestTimeout s a = some t) : Inv handler init t := by
  cases a with
  | client a =>
    by_cases ha : ∃ c k code messageName body, a = .answer c k code messageName body
    · obtain ⟨c, k, code, messageName, body, rfl⟩ := ha
      cases h
    · push Not at ha
      have hstep : step handler requestTimeout s (.client a) =
          (SyncClient.step requestTimeout s.client a).map (record s a) := by
        cases a with
        | answer c k code messageName body => exact absurd rfl (ha c k code messageName body)
        | _ => rfl
      rw [hstep] at h
      obtain ⟨client, hclient, rfl⟩ := Option.map_eq_some_iff.mp h
      refine ⟨?_, hs.ledger.of_client hs.pair hsized ha hclient⟩
      rw [record_client]
      exact step_pair hs.pair (hs.ledger.fitsHeader ha) hclient
  | handle c k =>
    simp only [step] at h
    split at h
    · rename_i content hparsed
      obtain ⟨conn, hconn, rfl⟩ := Option.map_eq_some_iff.mp h
      refine ⟨?_, hs.ledger.of_handle hparsed hconn⟩
      obtain ⟨hname, hbody⟩ := (handler s.object content).2.fits
      exact hs.pair.of_answer hconn hname hbody
    · cases h

def count : Handler ℕ := fun n _ => (n + 1, ⟨.ok, [], [UInt8.ofNat n], by decide, by simp⟩)

def callAgain (i : Fin N) (k : ℕ) : List (Action N) :=
  [.client (.call i echoRequest), .client (.test i), .client (.lock i), .client (.write i),
    .client (.arm i), .client (.parse 0), .handle 0 k, .client (.read i 8), .client (.read i 9),
    .client (.leave i)]

/-- The first thread connects. The second one begins its call before the first returns. -/
def twoCalls : List (Action 2) :=
  (writeRequest 0 echoRequest).map .client ++ [.client (.call 1 echoRequest), .client (.parse 0),
    .handle 0 0, .client (.read 0 8), .client (.read 0 9), .client (.leave 0)] ++
  (callAgain 1 1).tail

end Czrpc.SyncHistory
