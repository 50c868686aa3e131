import Czrpc.SyncClient

/-! What is on its way on one connection of the shared `rpc_client`: the requests that the
server has yet to read, and the response to the one request that is under way. -/
namespace Czrpc.SyncClient
open Execution Framing Protocol

namespace Conn

def Answered (conn : Conn) (k : ℕ) : Prop := ∃ content rsp, conn.parsed[k]? = some (content, some rsp)

/-- The server has read the requests in the order in which they were written, and the
bytes on their way are those of the others. -/
def Wire (conn : Conn) : Prop :=
  ∃ rest : List RequestContent, (∀ content ∈ rest, content.Fits) ∧
    conn.parsed.map Prod.fst ++ rest = conn.sent ∧ conn.toServer = rest.flatMap requestCodec.encode

/-- Nothing is under way. -/
def Quiet (conn : Conn) : Prop :=
  conn.toClient = [] ∧ (conn.alive = true → ∀ k < conn.sent.length, conn.Answered k)

/-- The only request under way is `q`, and `consumed` is what has been read of its
response. -/
def Busy (conn : Conn) (q : Sent) (consumed : Bytes) : Prop :=
  ((consumed = [] ∧ conn.toClient = []) ∨ ∃ rsp : ResponseContent, rsp.Fits ∧
    conn.parsed[q.index]? = some (q.content, some rsp) ∧
    consumed ++ conn.toClient = responseCodec.encode rsp) ∧
  (conn.alive = true → conn.sent.length = q.index + 1 ∧ ∀ k < q.index, conn.Answered k)

def Recorded (conn : Conn) (q : Sent) : Prop := conn.sent[q.index]? = some q.content

def Paired (conn : Conn) (q : Sent) (rsp : ResponseContent) : Prop :=
  conn.parsed[q.index]? = some (q.content, some rsp)

/-- What has been written and answered stays. -/
structure Grows (a b : Conn) : Prop where
  parsed : ∀ (k : ℕ) content rsp, a.parsed[k]? = some (content, some rsp) →
    b.parsed[k]? = some (content, some rsp)
  sent : a.sent <+: b.sent

theorem Grows.refl (a : Conn) : a.Grows a := ⟨fun _ _ _ h => h, List.prefix_refl _⟩

theorem Grows.answered {a b : Conn} (h : a.Grows b) {k : ℕ} (ha : a.Answered k) : b.Answered k := by
  obtain ⟨content, rsp, he⟩ := ha
  exact ⟨content, rsp, h.parsed k content rsp he⟩

theorem Grows.recorded {a b : Conn} (h : a.Grows b) {q : Sent} (ha : a.Recorded q) :
    b.Recorded q := by
  obtain ⟨later, hl⟩ := h.sent
  unfold Recorded at ha ⊢
  rw [← hl, List.getElem?_append_left (List.getElem?_eq_some_iff.mp ha).1]
  exact ha

theorem grows_write (conn : Conn) (content : RequestContent) : conn.Grows (conn.write content) :=
  ⟨fun _ _ _ h => h, List.prefix_append _ _⟩

theorem Quiet.mono {a b : Conn} (h : a.Quiet) (hg : a.Grows b) (hc : b.toClient = a.toClient)
    (hs : b.sent = a.sent) (ha : b.alive = true → a.alive = true) : b.Quiet := by
  refine ⟨hc.trans h.1, fun hb k hk => hg.answered (h.2 (ha hb) k ?_)⟩
  rwa [hs] at hk

theorem Busy.mono {a b : Conn} {q : Sent} {consumed : Bytes} (h : a.Busy q consumed)
    (hg : a.Grows b) (hc : b.toClient = a.toClient) (hs : b.sent = a.sent)
    (ha : b.alive = true → a.alive = true) : b.Busy q consumed := by
  constructor
  · rcases h.1 with hnone | ⟨rsp, hfits, hparsed, hbytes⟩
    · exact Or.inl ⟨hnone.1, hc.trans hnone.2⟩
    · exact Or.inr ⟨rsp, hfits, hg.parsed _ _ _ hparsed, by rw [hc, hbytes]⟩
  · intro hb
    obtain ⟨hlen, hanswered⟩ := h.2 (ha hb)
    exact ⟨by rw [hs, hlen], fun k hk => hg.answered (hanswered k hk)⟩

theorem grows_parse (conn : Conn) (content : RequestContent) (rest : Bytes) :
    conn.Grows { conn with toServer := rest, parsed := conn.parsed ++ [(content, none)] } := by
  refine ⟨fun k content' rsp hk => ?_, List.prefix_refl _⟩
  rw [List.getElem?_append_left (List.getElem?_eq_some_iff.mp hk).1]
  exact hk

theorem wire_parse {conn : Conn} (h : conn.Wire) {content : RequestContent} {rest : Bytes}
    (hf : requestCodec.readFrame conn.toServer = some (content, rest)) :
    Wire { conn with toServer := rest, parsed := conn.parsed ++ [(content, none)] } := by
  obtain ⟨requests, hfits, hsent, hbytes⟩ := h
  cases requests with
  | nil =>
    have hshort := requestCodec.readFrame_shorter hf
    rw [hbytes] at hshort
    exact absurd hshort (Nat.not_lt_zero _)
  | cons r requests =>
    have hr := requestCodec.readFrame_encode (hfits r List.mem_cons_self)
      (requests.flatMap requestCodec.encode)
    rw [hbytes, List.flatMap_cons, hr] at hf
    obtain ⟨rfl, rfl⟩ := Prod.mk.inj (Option.some.inj hf)
    refine ⟨requests, fun x hx => hfits x (List.mem_cons_of_mem _ hx), ?_, rfl⟩
    simpa using hsent

theorem wire_write {conn : Conn} (h : conn.Wire) (halive : conn.alive = true)
    {content : RequestContent} (hfits : content.Fits) : (conn.write content).Wire := by
  obtain ⟨requests, hrest, hsent, hbytes⟩ := h
  refine ⟨requests ++ [content], ?_, ?_, ?_⟩
  · intro x hx
    rcases List.mem_append.mp hx with hx | hx
    · exact hrest x hx
    · rw [List.mem_singleton.mp hx]
      exact hfits
  · simp [write, ← hsent]
  · simp [write, halive, hbytes, requestCodec_encode]

theorem answer_eq_some {conn conn' : Conn} {k : ℕ} {code : RpcErrorCode} {messageName body : Bytes}
    (h : conn.answer k code messageName body = some conn') :
    ∃ content rsp, rsp = ⟨content.callId, code, messageName, body⟩ ∧
      conn.parsed[k]? = some (content, none) ∧ conn' = { conn with
        parsed := conn.parsed.set k (content, some rsp)
        toClient := if conn.alive then conn.toClient ++ responseCodec.encode rsp
          else conn.toClient } := by
  unfold answer at h
  split at h
  · rename_i content hk
    exact ⟨content, _, rfl, hk, (Option.some.inj h).symm⟩
  · cases h

theorem grows_answer {conn : Conn} {k : ℕ} {content : RequestContent}
    (hk : conn.parsed[k]? = some (content, none)) (rsp : ResponseContent) (toClient : Bytes) :
    conn.Grows { conn with parsed := conn.parsed.set k (content, some rsp), toClient := toClient } := by
  refine ⟨fun j content' rsp hj => ?_, List.prefix_refl _⟩
  have hjk : k ≠ j := by
    rintro rfl
    rw [hk] at hj
    cases hj
  rw [List.getElem?_set_ne hjk]
  exact hj

theorem wire_answer {conn : Conn} (h : conn.Wire) {k : ℕ} {content : RequestContent}
    (hk : conn.parsed[k]? = some (content, none)) (rsp : ResponseContent) (toClient : Bytes) :
    Wire { conn with parsed := conn.parsed.set k (content, some rsp), toClient := toClient } := by
  obtain ⟨requests, hfits, hsent, hbytes⟩ := h
  refine ⟨requests, hfits, ?_, hbytes⟩
  have hsame : (conn.parsed.set k (content, some rsp)).map Prod.fst = conn.parsed.map Prod.fst := by
    apply List.ext_getElem?
    intro j
    by_cases hj : k = j
    · subst j
      have hlt := (List.getElem?_eq_some_iff.mp hk).1
      rw [List.getElem?_map, List.getElem?_set_self hlt, List.getElem?_map, hk]
      rfl
    · rw [List.getElem?_map, List.getElem?_set_ne hj, List.getElem?_map]
  simp only [hsame]
  exact hsent

theorem Wire.sent_of_parsed {conn : Conn} (h : conn.Wire) {k : ℕ} {content : RequestContent}
    {rsp : Option ResponseContent} (hk : conn.parsed[k]? = some (content, rsp)) :
    conn.sent[k]? = some content := by
  obtain ⟨requests, -, hsent, -⟩ := h
  have hmap : (conn.parsed.map Prod.fst)[k]? = some content := by
    rw [List.getElem?_map, hk]
    rfl
  rw [← hsent, List.getElem?_append_left (List.getElem?_eq_some_iff.mp hmap).1, hmap]

theorem Quiet.not_alive_of_unanswered {conn : Conn} (h : conn.Quiet) (hw : conn.alive = true → conn.Wire)
    {k : ℕ} {content : RequestContent} (hk : conn.parsed[k]? = some (content, none)) :
    conn.alive = false := by
  by_contra halive
  have hal : conn.alive = true := by simpa using halive
  have hsent := (hw hal).sent_of_parsed hk
  obtain ⟨content', rsp, hans⟩ := h.2 hal k (List.getElem?_eq_some_iff.mp hsent).1
  rw [hk] at hans
  cases hans

theorem busy_answer {conn : Conn} {q : Sent} {consumed : Bytes} (h : conn.Busy q consumed)
    (halive : conn.alive = true) (hw : conn.Wire) (hq : conn.Recorded q) {k : ℕ}
    {content : RequestContent} (hk : conn.parsed[k]? = some (content, none)) {rsp : ResponseContent}
    (hfits : rsp.Fits) :
    Busy { conn with
      parsed := conn.parsed.set k (content, some rsp)
      toClient := conn.toClient ++ responseCodec.encode rsp } q consumed := by
  obtain ⟨hlen, hanswered⟩ := h.2 halive
  have hsent := hw.sent_of_parsed hk
  have hlt : k < conn.sent.length := (List.getElem?_eq_some_iff.mp hsent).1
  have hkq : q.index = k := by
    by_contra hne
    obtain ⟨content', rsp', hans⟩ := hanswered k (by omega)
    rw [hk] at hans
    cases hans
  have hcontent : content = q.content := by
    unfold Recorded at hq
    rw [hkq, hsent] at hq
    exact Option.some.inj hq
  have hnone : consumed = [] ∧ conn.toClient = [] := by
    rcases h.1 with hnone | ⟨rsp', -, hparsed, -⟩
    · exact hnone
    · rw [hkq, hk] at hparsed
      cases hparsed
  refine ⟨Or.inr ⟨rsp, hfits, ?_, ?_⟩, fun _ => ⟨hlen, fun j hj => ?_⟩⟩
  · rw [hkq, hcontent]
    exact List.getElem?_set_self (List.getElem?_eq_some_iff.mp hk).1
  · simp [hnone.1, hnone.2]
  · exact (grows_answer hk rsp _).answered (hanswered j hj)

end Conn

end Czrpc.SyncClient
