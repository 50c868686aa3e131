import Czrpc.SyncHistory

/-! How the books follow the client: a call begins, a connection is made, and a request is
written whole, cut short, or to a connection that is already lost. -/
namespace Czrpc.SyncHistory
open Execution Framing Protocol SyncClient Linearizability

variable {N : ℕ} {σ : Type*} {handler : Handler σ} {init : σ} {s : State N σ}

section Own

def Gets (s : State N σ) (c : ℕ) (whole : Bool) : Prop := ((s.client.conns c).alive && whole) = true

instance (s : State N σ) (c : ℕ) (whole : Bool) : Decidable (Gets s c whole) :=
  inferInstanceAs (Decidable (_ = true))

variable {i : Fin N} {c : ℕ} {whole : Bool}

theorem own_of_gets (i : Fin N) (h : Gets s c whole) :
    own s i c whole = Function.update s.owners c (s.owners c ++ [s.current i]) := if_pos h

theorem own_of_not_gets (i : Fin N) (h : ¬ Gets s c whole) : own s i c whole = s.owners := if_neg h

theorem own_of_ne {d : ℕ} (h : d ≠ c) : own s i c whole d = s.owners d := by
  by_cases hw : Gets s c whole
  · rw [own_of_gets i hw, Function.update_of_ne h]
  · rw [own_of_not_gets i hw]

theorem own_self : own s i c whole c =
    s.owners c ++ if Gets s c whole then [s.current i] else [] := by
  split_ifs with hw
  · rw [own_of_gets i hw, Function.update_self]
  · rw [own_of_not_gets i hw, List.append_nil]

theorem own_of_owner {d k o : ℕ} (h : (s.owners d)[k]? = some o) :
    (own s i c whole d)[k]? = some o := by
  by_cases hd : d = c
  · subst hd
    rw [own_self, List.getElem?_append_left (List.getElem?_eq_some_iff.mp h).1, h]
  · rw [own_of_ne hd, h]

theorem owner_of_own {d k o : ℕ} (h : (own s i c whole d)[k]? = some o) :
    (s.owners d)[k]? = some o ∨ d = c ∧ k = (s.owners c).length ∧ o = s.current i := by
  by_cases hd : d = c
  · subst hd
    rw [own_self] at h
    rcases Nat.lt_or_ge k (s.owners d).length with hk | hk
    · rw [List.getElem?_append_left hk] at h
      exact Or.inl h
    · rw [List.getElem?_append_right hk] at h
      split_ifs at h with hw
      · rw [List.getElem?_singleton] at h
        split_ifs at h with hz
        exact Or.inr ⟨rfl, by omega, (Option.some.inj h).symm⟩
      · cases h
  · rw [own_of_ne hd] at h
    exact Or.inl h

end Own

/-- What a write, whole or not, does to a connection. -/
structure Writes (a b : Conn) : Prop where
  parsed : b.parsed = a.parsed
  toClient : b.toClient = a.toClient
  alive : b.alive = true → a.alive = true

theorem Writes.setConn {client : SyncClient.State N} {c : ℕ} {conn : Conn}
    (h : Writes (client.conns c) conn) (d : ℕ) :
    Writes (client.conns d) ((setConn client c conn).conns d) := by
  by_cases hd : d = c
  · subst hd
    rw [setConn_self]
    exact h
  · rw [setConn_of_ne _ hd]
    exact ⟨rfl, rfl, id⟩

theorem Dropped.write {client : SyncClient.State N} {c : ℕ} {conn : Conn} {q : Sent}
    (h : Dropped client q) (hw : Writes (client.conns c) conn) :
    Dropped (SyncClient.setConn client c conn) q := by
  obtain ⟨hdead, hto, hlt⟩ := h
  have hq := hw.setConn q.conn
  refine ⟨?_, by rw [hq.toClient, hto], hlt⟩
  by_contra hb
  rw [Bool.not_eq_false] at hb
  rw [hq.alive hb] at hdead
  cases hdead

namespace Lane
variable {conn : Conn} {xs : List (Option RequestContent)} {content : RequestContent}

/-- A request goes out behind the others. -/
theorem extend (h : Lane conn xs) (halive : conn.alive = true) (hfits : content.Fits) {conn' : Conn}
    (hparsed : conn'.parsed = conn.parsed)
    (hto : conn'.toServer = conn.toServer ++ requestCodec.encode content)
    (hsent : conn'.alive = true → conn'.sent.length = conn.sent.length + 1) :
    Lane conn' (xs ++ [some content]) := by
  obtain ⟨rest, cut, hx, hrest, hbytes, hcut, hlive⟩ := h
  obtain ⟨rfl, hlen⟩ := hlive halive
  refine ⟨rest ++ [content], [], ?_, ?_, ?_, hcut, ?_⟩
  · rw [hx, hparsed]
    simp
  · intro x hx'
    rcases List.mem_append.mp hx' with hx' | hx'
    · exact hrest x hx'
    · obtain rfl := List.mem_singleton.mp hx'
      exact hfits
  · rw [hto, hbytes]
    simp
  · intro hb
    exact ⟨rfl, by rw [hsent hb, hlen, List.length_append, List.length_singleton]⟩

theorem breakOff (h : Lane conn xs) (halive : conn.alive = true) (hfits : content.Fits) {n : ℕ}
    (hn : n < (requestCodec.encode content).length) {conn' : Conn}
    (hparsed : conn'.parsed = conn.parsed)
    (hto : conn'.toServer = conn.toServer ++ (requestCodec.encode content).take n)
    (hdead : conn'.alive = false) : Lane conn' xs := by
  obtain ⟨rest, cut, hx, hrest, hbytes, -, hlive⟩ := h
  obtain ⟨rfl, -⟩ := hlive halive
  have hnone : requestCodec.readFrame ((requestCodec.encode content).take n) = none :=
    requestCodec.readFrame_cut hfits (List.take_prefix _ _) (by rw [List.length_take]; omega)
  refine ⟨rest, _, by rw [hx, hparsed], hrest, ?_, hnone, ?_⟩
  · rw [hto, hbytes, List.append_nil]
  · intro hb
    rw [hdead] at hb
    cases hb

theorem dead (h : Lane conn xs) {conn' : Conn} (hparsed : conn'.parsed = conn.parsed)
    (hto : conn'.toServer = conn.toServer) (hdead : conn'.alive = false) : Lane conn' xs := by
  obtain ⟨rest, cut, hx, hrest, hbytes, hcut, -⟩ := h
  refine ⟨rest, cut, by rw [hx, hparsed], hrest, by rw [hto, hbytes], hcut, ?_⟩
  intro hb
  rw [hdead] at hb
  cases hb

theorem handle (h : Lane conn xs) {k : ℕ} (hk : conn.parsed[k]? = some (content, none))
    (rsp : ResponseContent) (toClient : Bytes) :
    Lane { conn with parsed := conn.parsed.set k (content, some rsp), toClient := toClient } xs := by
  obtain ⟨rest, cut, hx, hrest⟩ := h
  have hlt : k < (conn.parsed.map Prod.fst).length := by
    rw [List.length_map]
    exact (List.getElem?_eq_some_iff.mp hk).1
  have hget : (conn.parsed.map Prod.fst)[k] = content := by
    rw [List.getElem_map, (List.getElem?_eq_some_iff.mp hk).2]
  refine ⟨rest, cut, ?_, hrest⟩
  simp only [hx, List.map_set, ← hget, List.set_getElem_self]

theorem parse (h : Lane conn xs) {rest : Bytes}
    (hframe : requestCodec.readFrame conn.toServer = some (content, rest)) :
    Lane { conn with toServer := rest, parsed := conn.parsed ++ [(content, none)] } xs := by
  obtain ⟨waiting, cut, hx, hfits, hbytes, hcut, hlive⟩ := h
  cases waiting with
  | nil =>
    rw [hbytes, List.flatMap_nil, List.nil_append, hcut] at hframe
    cases hframe
  | cons x waiting =>
    rw [hbytes, List.flatMap_cons, List.append_assoc,
      requestCodec.readFrame_encode (hfits x List.mem_cons_self)] at hframe
    obtain ⟨rfl, rfl⟩ := Prod.mk.inj (Option.some.inj hframe)
    refine ⟨waiting, cut, ?_, fun y hy => hfits y (List.mem_cons_of_mem _ hy), rfl, hcut, hlive⟩
    rw [hx]
    simp

end Lane

namespace Ledger

theorem update (hs : Ledger handler init s) {t : SyncClient.State N}
    (hstanding : ∀ i, Standing { s with client := t, now := s.now + 1 } (s.current i) (t.threads i))
    (hbusy : ∀ i, t.threads i ≠ .idle → s.client.threads i ≠ .idle)
    (hconns : ∀ c, Fades (s.client.conns c) (t.conns c)) (hnext : t.next = s.client.next) :
    Ledger handler init { s with client := t, now := s.now + 1 } where
  explains := hs.explains.later (Nat.le_succ _)
  started a ha := Nat.lt_succ_of_lt (hs.started a ha)
  standing := hstanding
  apart i j hij hi hj := hs.apart i j hij (hbusy i hi) (hbusy j hj)
  unused c hc := hs.unused c (hnext ▸ hc)
  lane c := (hconns c).lane _ (hs.lane c)
  single := hs.single
  handled c k content rsp h := hs.handled c k content rsp (((hconns c).answers k content rsp).mp h)
  answered p hp := by
    obtain ⟨c, k, content, ho, hparsed⟩ := hs.answered p hp
    exact ⟨c, k, content, ho, ((hconns c).answers k content _).mpr hparsed⟩

theorem keep (hs : Ledger handler init s) {t : SyncClient.State N}
    (hthreads : ∀ i, Continues (s.client.threads i) (t.threads i))
    (hconns : ∀ c, Fades (s.client.conns c) (t.conns c)) (hnext : t.next = s.client.next) :
    Ledger handler init { s with client := t, now := s.now + 1 } := by
  refine hs.update ?_ (fun i => (hthreads i).busy) hconns hnext
  intro i
  obtain ⟨hpending, hrequested, hwaiting, hanswered⟩ := (hs.standing i).continue (hthreads i)
  refine ⟨hpending, hrequested, ?_, hanswered⟩
  intro q consumed hw
  rcases hwaiting q consumed hw with ho | ⟨hd, hnil⟩
  · exact Or.inl ho
  · exact Or.inr ⟨hd.fade (hconns q.conn) (Nat.le_of_eq hnext.symm), hnil⟩

theorem move (hs : Ledger handler init s) {t : SyncClient.State N} {i : Fin N} {pc : Pc}
    (hc : Continues (s.client.threads i) pc)
    (hthreads : t.threads = Function.update s.client.threads i pc)
    (hconns : ∀ c, Fades (s.client.conns c) (t.conns c)) (hnext : t.next = s.client.next) :
    Ledger handler init { s with client := t, now := s.now + 1 } := by
  refine hs.keep ?_ hconns hnext
  intro j
  rw [hthreads]
  by_cases hj : j = i
  · subst j
    rw [Function.update_self]
    exact hc
  · rw [Function.update_of_ne hj]
    exact .refl _

theorem of_call (hs : Ledger handler init s) {i : Fin N} {content : RequestContent}
    (hfits : content.Fits) :
    Ledger handler init (record s (.call i content) (setThread s.client i (.testing content))) := by
  have hold : ∀ {o : ℕ} {a : Operation RequestContent ResponseContent}, s.calls[o]? = some a →
      (s.calls ++ [⟨content, s.now, none⟩])[o]? = some a := by
    intro o a ha
    rw [List.getElem?_append_left (List.getElem?_eq_some_iff.mp ha).1, ha]
  have howned : ∀ {c k o : ℕ}, (s.owners c)[k]? = some o → o < s.calls.length := by
    intro c k o ho
    obtain ⟨a, ha⟩ := hs.owner_known ho
    exact (List.getElem?_eq_some_iff.mp ha).1
  have hcurrent : ∀ {j : Fin N}, s.client.threads j ≠ .idle → s.current j < s.calls.length := by
    intro j hj
    obtain ⟨a, ha, -⟩ := (hs.standing j).pending hj
    exact (List.getElem?_eq_some_iff.mp ha).1
  have hinputs : ∀ c, inputs (record s (.call i content) (setThread s.client i (.testing content))) c =
      inputs s c := by
    intro c
    refine List.map_congr_left ?_
    intro o ho
    obtain ⟨k, hk⟩ := List.mem_iff_getElem?.mp ho
    obtain ⟨a, ha⟩ := hs.owner_known hk
    simp only [record, hold ha, ha]
  refine ⟨(hs.explains.later (Nat.le_succ _)).invoke content s.now, ?_, ?_, ?_, hs.unused, ?_,
    hs.single, hs.handled, hs.answered⟩
  · intro a ha
    rcases List.mem_append.mp ha with ha | ha
    · exact Nat.lt_succ_of_lt (hs.started a ha)
    · obtain rfl := List.mem_singleton.mp ha
      exact Nat.lt_succ_self _
  · intro j
    by_cases hj : j = i
    · subst j
      simp only [record, setThread_self, Function.update_self]
      refine ⟨?_, ?_, nofun, nofun⟩
      · intro _
        exact ⟨⟨content, s.now, none⟩, List.getElem?_concat_length, rfl⟩
      · intro content' hc
        obtain rfl := Option.some.inj hc
        refine ⟨hfits, ?_, ?_⟩
        · simp only [List.getElem?_concat_length, Option.map_some]
        · intro c hmem
          obtain ⟨k, hk⟩ := List.mem_iff_getElem?.mp hmem
          exact Nat.lt_irrefl _ (howned hk)
    · simp only [record, setThread_of_ne _ hj, Function.update_of_ne hj]
      obtain ⟨hpending, hrequested, hwaiting, hanswered⟩ := hs.standing j
      refine ⟨?_, ?_, hwaiting, hanswered⟩
      · intro hb
        obtain ⟨a, ha, hret⟩ := hpending hb
        exact ⟨a, hold ha, hret⟩
      · intro content' hc
        obtain ⟨hf, hin, hown⟩ := hrequested content' hc
        obtain ⟨a, ha, rfl⟩ := Option.map_eq_some_iff.mp hin
        refine ⟨hf, ?_, hown⟩
        simp only [hold ha, Option.map_some]
  · intro j l hjl hj hl
    simp only [record] at hj hl ⊢
    by_cases hji : j = i
    · subst j
      have hli : l ≠ i := Ne.symm hjl
      rw [setThread_of_ne _ hli] at hl
      rw [Function.update_self, Function.update_of_ne hli]
      exact Nat.ne_of_gt (hcurrent hl)
    · rw [setThread_of_ne _ hji] at hj
      rw [Function.update_of_ne hji]
      by_cases hli : l = i
      · subst l
        rw [Function.update_self]
        exact Nat.ne_of_lt (hcurrent hj)
      · rw [setThread_of_ne _ hli] at hl
        rw [Function.update_of_ne hli]
        exact hs.apart j l hjl hj hl
  · intro c
    rw [hinputs c]
    exact hs.lane c

theorem of_connect (hs : Ledger handler init s) :
    Ledger handler init { s with client := SyncClient.connect s.client } := by
  have hconn : ∀ c, c ≠ s.client.next →
      (SyncClient.connect s.client).conns c = (closeSocket s.client).conns c := by
    intro c hc
    exact setConn_of_ne _ hc _
  have hfades : ∀ c, c ≠ s.client.next →
      Fades (s.client.conns c) ((SyncClient.connect s.client).conns c) := by
    intro c hc
    rw [hconn c hc]
    exact fades_closeSocket _ c
  have hnew : (SyncClient.connect s.client).conns s.client.next = ⟨true, [], [], [], []⟩ :=
    setConn_self _ _ _
  have hthreads : (SyncClient.connect s.client).threads = s.client.threads := connect_threads _
  refine ⟨hs.explains, hs.started, ?_, ?_, ?_, ?_, hs.single, ?_, ?_⟩
  · intro i
    rw [show (SyncClient.connect s.client).threads i = s.client.threads i by rw [hthreads]]
    obtain ⟨hpending, hrequested, hwaiting, hanswered⟩ := hs.standing i
    refine ⟨hpending, hrequested, ?_, hanswered⟩
    intro q consumed hw
    rcases hwaiting q consumed hw with ho | ⟨hd, hnil⟩
    · exact Or.inl ho
    · exact Or.inr ⟨hd.fade (hfades _ (Nat.ne_of_lt hd.2.2)) (Nat.le_succ _), hnil⟩
  · intro i j
    simp only [hthreads]
    exact hs.apart i j
  · intro c hc
    exact hs.unused c (Nat.le_of_succ_le hc)
  · intro c
    by_cases hc : c = s.client.next
    · subst c
      have hnil : inputs { s with client := SyncClient.connect s.client } s.client.next = [] := by
        simp [inputs, hs.unused _ (Nat.le_refl _)]
      simp only [hnew, hnil]
      exact ⟨[], [], rfl, by simp, rfl, by decide, fun _ => ⟨rfl, rfl⟩⟩
    · exact (hfades c hc).lane _ (hs.lane c)
  · intro c k content rsp h
    by_cases hc : c = s.client.next
    · subst c
      simp only [hnew] at h
      cases h
    · exact hs.handled c k content rsp (((hfades c hc).answers k content rsp).mp h)
  · intro p hp
    obtain ⟨c, k, content, ho, hparsed⟩ := hs.answered p hp
    have hc : c ≠ s.client.next := by
      rintro rfl
      rw [hs.unused _ (Nat.le_refl _)] at ho
      cases ho
    exact ⟨c, k, content, ho, ((hfades c hc).answers k content _).mpr hparsed⟩

/-- Thread `i` has written its request, or failed to. -/
theorem of_written (hs : Ledger handler init s) {i : Fin N} {content : RequestContent} {c : ℕ}
    (hi : s.client.threads i = .writing content) (hc : c < s.client.next) {conn : Conn} {pc : Pc}
    {whole : Bool} (hwrites : Writes (s.client.conns c) conn)
    (hlane : Lane conn (inputs s c ++ if Gets s c whole then [some content] else []))
    (hstanding : Standing { s with
      client := setThread (setConn s.client c conn) i pc
      owners := own s i c whole } (s.current i) pc) :
    Ledger handler init { s with
      client := setThread (setConn s.client c conn) i pc
      now := s.now + 1
      owners := own s i c whole } := by
  have hbusy : s.client.threads i ≠ .idle := by simp [hi]
  obtain ⟨-, hinput, hfree⟩ := (hs.standing i).requested content (by rw [hi]; rfl)
  -- a call writes once: no connection has its request yet
  have hgone : ∀ (d k : ℕ), (s.owners d)[k]? ≠ some (s.current i) := fun d k hk =>
    hfree d (List.mem_of_getElem? hk)
  refine ⟨hs.explains.later (Nat.le_succ _), fun a ha => Nat.lt_succ_of_lt (hs.started a ha), ?_, ?_,
    ?_, ?_, ?_, ?_, ?_⟩
  · intro j
    by_cases hj : j = i
    · subst hj
      simp only [setThread_self]
      exact ⟨hstanding.pending, hstanding.requested, hstanding.waiting, hstanding.answered⟩
    · simp only [setThread_of_ne _ hj, setConn_threads]
      obtain ⟨hpending, hrequested, hwaiting, hanswered⟩ := hs.standing j
      refine ⟨hpending, ?_, ?_, fun q rsp hq => own_of_owner (hanswered q rsp hq)⟩
      · intro content' hr
        obtain ⟨hf, hin, hown⟩ := hrequested content' hr
        refine ⟨hf, hin, ?_⟩
        intro d hmem
        obtain ⟨k, hk⟩ := List.mem_iff_getElem?.mp hmem
        rcases owner_of_own hk with hk | ⟨-, -, heq⟩
        · exact hown d (List.mem_of_getElem? hk)
        · refine hs.apart j i hj ?_ hbusy heq
          intro hidle
          rw [hidle] at hr
          cases hr
      · intro q consumed hq
        rcases hwaiting q consumed hq with ho | ⟨hd, hnil⟩
        · exact Or.inl (own_of_owner ho)
        · exact Or.inr ⟨hd.write hwrites, hnil⟩
  · intro j l hjl hj hl
    have hold : ∀ {j : Fin N}, (setThread (setConn s.client c conn) i pc).threads j ≠ .idle →
        s.client.threads j ≠ .idle := by
      intro j hj
      by_cases hji : j = i
      · rw [hji]
        exact hbusy
      · rwa [setThread_of_ne _ hji] at hj
    exact hs.apart j l hjl (hold hj) (hold hl)
  · intro d hd
    have hdc : d ≠ c := Nat.ne_of_gt (Nat.lt_of_lt_of_le hc hd)
    simp only [own_of_ne hdc]
    exact hs.unused d hd
  · intro d
    by_cases hd : d = c
    · subst hd
      have hin : inputs { s with
          client := setThread (setConn s.client d conn) i pc
          now := s.now + 1
          owners := own s i d whole } d =
          inputs s d ++ if Gets s d whole then [some content] else [] := by
        simp only [inputs, own_self, List.map_append]
        split_ifs
        · rw [List.map_singleton, hinput]
        · rfl
      rw [hin]
      simp only [setThread, setConn_self]
      exact hlane
    · have hin : inputs { s with
          client := setThread (setConn s.client c conn) i pc
          now := s.now + 1
          owners := own s i c whole } d = inputs s d := by
        simp only [inputs, own_of_ne hd]
      rw [hin]
      simp only [setThread, setConn_of_ne _ hd]
      exact hs.lane d
  · intro d e k l o hk hl
    rcases owner_of_own hk with hold | ⟨rfl, rfl, rfl⟩
    · rcases owner_of_own hl with hold' | ⟨-, -, rfl⟩
      · exact hs.single d e k l o hold hold'
      · exact absurd hold (hgone d k)
    · rcases owner_of_own hl with hold' | ⟨rfl, rfl, -⟩
      · exact absurd hold' (hgone e l)
      · exact ⟨rfl, rfl⟩
  · intro d k content' rsp h
    simp only [setThread, (hwrites.setConn d).parsed] at h
    obtain ⟨p, hp, ho, hout⟩ := hs.handled d k content' rsp h
    exact ⟨p, hp, own_of_owner ho, hout⟩
  · intro p hp
    obtain ⟨d, k, content', ho, h⟩ := hs.answered p hp
    refine ⟨d, k, content', own_of_owner ho, ?_⟩
    simp only [setThread, (hwrites.setConn d).parsed]
    exact h

theorem of_write (hs : Ledger handler init s) (hpair : PairInv s.client) {i : Fin N}
    {content : RequestContent} {c : ℕ} (hi : s.client.threads i = .writing content)
    (hc : s.client.socket = some c) :
    Ledger handler init (record s (.write i) (setThread
      (setConn s.client c ((s.client.conns c).write content)) i
      (.arming ⟨c, (s.client.conns c).sent.length, content⟩))) := by
  have hlt := hpair.socket c hc
  have hbusy : s.client.threads i ≠ .idle := by simp [hi]
  obtain ⟨hfits, -, -⟩ := (hs.standing i).requested content (by rw [hi]; rfl)
  have hhold : (s.client.threads i).phase = .holding := by
    rw [hi]
    rfl
  have hquiet : (s.client.conns c).Quiet := by
    refine hpair.quiet_of_holder (i := i) (by simp [hhold]) hc ?_
    intro q hq
    rw [hhold] at hq
    cases hq
  simp only [record, hc]
  refine hs.of_written hi hlt ⟨rfl, rfl, id⟩ ?_ ⟨fun _ => (hs.standing i).pending hbusy, nofun, ?_, nofun⟩
  · split_ifs with hw
    · have halive : (s.client.conns c).alive = true := by simpa [Gets] using hw
      exact (hs.lane c).extend halive hfits rfl (by simp [Conn.write, halive, requestCodec_encode])
        (fun _ => by simp [Conn.write])
    · have hdead : (s.client.conns c).alive = false := by simpa [Gets] using hw
      rw [List.append_nil]
      exact (hs.lane c).dead rfl (by simp [Conn.write, hdead]) hdead
  · intro q consumed hq
    obtain ⟨rfl, rfl⟩ : q = ⟨c, (s.client.conns c).sent.length, content⟩ ∧ consumed = [] := by
      cases hq
      exact ⟨rfl, rfl⟩
    by_cases hw : Gets s c true
    · have halive : (s.client.conns c).alive = true := by simpa [Gets] using hw
      obtain ⟨rest, cut, -, -, -, -, hlive⟩ := hs.lane c
      have hlen : (s.client.conns c).sent.length = (s.owners c).length := by
        simpa [inputs] using (hlive halive).2
      refine Or.inl ?_
      simp only [Owns, own_self, if_pos hw, hlen, List.getElem?_concat_length]
    · have hdead : (s.client.conns c).alive = false := by simpa [Gets] using hw
      refine Or.inr ⟨⟨?_, ?_, hlt⟩, rfl⟩
      · simp [setThread, Conn.write, hdead]
      · simp [setThread, Conn.write, hquiet.1]

theorem of_writeFailed (hs : Ledger handler init s) (hpair : PairInv s.client) {i : Fin N}
    {content : RequestContent} {c n : ℕ} (hi : s.client.threads i = .writing content)
    (hc : s.client.socket = some c) :
    Ledger handler init (record s (.writeFailed i n) (setThread
      (setConn s.client c ((s.client.conns c).writeFailed content n)) i .writeFailed)) := by
  have hbusy : s.client.threads i ≠ .idle := by simp [hi]
  obtain ⟨hfits, -, -⟩ := (hs.standing i).requested content (by rw [hi]; rfl)
  simp only [record, hc, hi]
  refine hs.of_written hi (hpair.socket c hc) ⟨rfl, rfl, nofun⟩ ?_
    ⟨fun _ => (hs.standing i).pending hbusy, nofun, nofun, nofun⟩
  cases halive : (s.client.conns c).alive with
  | false =>
    rw [if_neg (by simp [Gets, halive]), List.append_nil]
    exact (hs.lane c).dead rfl (by simp [Conn.writeFailed, halive]) rfl
  | true =>
    by_cases hn : (requestCodec.encode content).length ≤ n
    · rw [if_pos (by simp [Gets, halive, hn])]
      refine (hs.lane c).extend halive hfits rfl ?_ nofun
      simp only [Conn.writeFailed, halive, if_true, ← requestCodec_encode, List.take_of_length_le hn]
    · rw [if_neg (by simp [Gets, halive, hn]), List.append_nil]
      refine (hs.lane c).breakOff halive hfits (Nat.lt_of_not_le hn) rfl ?_ rfl
      simp only [Conn.writeFailed, halive, if_true, requestCodec_encode]

end Ledger

end Czrpc.SyncHistory
