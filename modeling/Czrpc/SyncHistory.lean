import Czrpc.Linearizability
import Czrpc.SyncPairing

/-! The calls that threads make through a shared `rpc_client`, as operations on an object that
the server's handlers serve. A handler changes the object and answers in one step; it runs
once for each request that the server has read. Each call writes its request once, and the
server gets it whole at most once, even where the write reports an error. -/
namespace Czrpc.SyncHistory
open Execution Framing Protocol SyncClient Linearizability

variable {N : ℕ} {σ : Type*}

/-- What a handler answers: the header of the response has room for the lengths. -/
structure Reply where
  code : RpcErrorCode
  messageName : Bytes
  body : Bytes
  fits : messageName.length < 2 ^ 32 ∧ body.length < 2 ^ 32

abbrev Handler (σ : Type*) := σ → RequestContent → σ × Reply

def response (content : RequestContent) (r : Reply) : ResponseContent :=
  ⟨content.callId, r.code, r.messageName, r.body⟩

def spec (handler : Handler σ) (s : σ) (content : RequestContent) : σ × ResponseContent :=
  ((handler s content).1, response content (handler s content).2)

/-- The client with its history. `now` counts the steps. `current` is the call that a thread
made last. `owners` lists, for a connection, the calls whose request the server gets whole,
in the order in which it does. -/
structure State (N : ℕ) (σ : Type*) where
  client : SyncClient.State N
  object : σ
  now : ℕ
  calls : List (Operation RequestContent ResponseContent)
  current : Fin N → ℕ
  owners : ℕ → List ℕ
  points : List (Point RequestContent ResponseContent)

def initial (object : σ) : State N σ :=
  ⟨SyncClient.initial, object, 0, [], fun _ => 0, fun _ => [], []⟩

/-- A step of the client or of the network, or a worker of the server that runs the handler of
the `k`-th request of a connection. -/
inductive Action (N : ℕ)
  | client (a : SyncClient.Action N)
  | handle (c k : ℕ)

/-- The server gets the whole request of thread `i`, unless the connection is lost or its
write has been cut short. -/
def own (s : State N σ) (i : Fin N) (c : ℕ) (whole : Bool) : ℕ → List ℕ :=
  if (s.client.conns c).alive && whole then
    Function.update s.owners c (s.owners c ++ [s.current i])
  else s.owners

def record (s : State N σ) (a : SyncClient.Action N) (t : SyncClient.State N) : State N σ :=
  let s' := { s with client := t, now := s.now + 1 }
  match a with
  | .call i content => { s' with
      calls := s.calls ++ [⟨content, s.now, none⟩]
      current := Function.update s.current i s.calls.length }
  | .write i =>
    match s.client.socket with
    | some c => { s' with owners := own s i c true }
    | none => s'
  | .writeFailed i n =>
    match s.client.socket, s.client.threads i with
    | some c, .writing content =>
      { s' with owners := own s i c ((requestCodec.encode content).length ≤ n) }
    | _, _ => s'
  | .leave i =>
    match s.client.threads i with
    | .leaving (some (_, rsp)) =>
      { s' with calls := s.calls.modify (s.current i) (·.finish rsp s.now) }
    | _ => s'
  | _ => s'

def step (handler : Handler σ) (requestTimeout : ℕ) (s : State N σ) : Action N → Option (State N σ)
  -- only handlers answer
  | .client (.answer _ _ _ _ _) => none
  | .client a => (SyncClient.step requestTimeout s.client a).map (record s a)
  | .handle c k =>
    match (s.client.conns c).parsed[k]? with
    | some (content, none) =>
      let r := handler s.object content
      ((s.client.conns c).answer k r.2.code r.2.messageName r.2.body).map fun conn =>
        { s with
          client := setConn s.client c conn
          object := r.1
          now := s.now + 1
          points := s.points ++
            (s.owners c)[k]?.toList.map fun o => ⟨o, content, response content r.2, s.now⟩ }
    | _ => none

def Sized : Action N → Prop
  | .client (.call _ content) => content.Fits
  | _ => True

instance : (a : Action N) → Decidable (Sized a)
  | .client (.call _ content) => inferInstanceAs (Decidable content.Fits)
  | .client (.test _) | .client (.lockConn _) | .client (.retest _) | .client (.connect _)
  | .client (.connectRetry _) | .client (.connectFailed _) | .client (.setConnected _)
  | .client (.lock _) | .client (.write _) | .client (.writeFailed _ _) | .client (.clear _)
  | .client (.arm _) | .client (.read _ _) | .client (.readFailed _) | .client (.close _)
  | .client (.leave _) | .client .expire | .client .fire | .client .timerClose | .client (.lose _)
  | .client (.parse _) | .client (.answer _ _ _ _ _) | .handle _ _ => .isTrue trivial

def unsent : Pc → Option RequestContent
  | .testing content | .locking content | .retesting content | .connecting content
  | .connected content | .ready content | .writing content => some content
  | _ => none

theorem unsent_of_waiting {pc : Pc} {q : Sent} {consumed : Bytes}
    (h : pc.phase = .waiting q consumed) : unsent pc = none := by
  cases pc <;> first | rfl | cases h

def inputs (s : State N σ) (c : ℕ) : List (Option RequestContent) :=
  (s.owners c).map fun o => s.calls[o]?.map Operation.input

/-- The server has read the first of these requests. The others are on their way, and behind
them at most the beginning of one that was cut short. -/
def Lane (conn : Conn) (xs : List (Option RequestContent)) : Prop :=
  ∃ (rest : List RequestContent) (cut : Bytes),
    xs = (conn.parsed.map Prod.fst ++ rest).map some ∧ (∀ content ∈ rest, content.Fits) ∧
    conn.toServer = rest.flatMap requestCodec.encode ++ cut ∧ requestCodec.readFrame cut = none ∧
    (conn.alive = true → cut = [] ∧ conn.sent.length = xs.length)

def Owns (s : State N σ) (q : Sent) (o : ℕ) : Prop := (s.owners q.conn)[q.index]? = some o

def Dropped (s : SyncClient.State N) (q : Sent) : Prop :=
  (s.conns q.conn).alive = false ∧ (s.conns q.conn).toClient = [] ∧ q.conn < s.next

/-- What is known of a call while its thread is at the given place. -/
structure Standing (s : State N σ) (o : ℕ) (pc : Pc) : Prop where
  pending : pc ≠ .idle → ∃ a, s.calls[o]? = some a ∧ a.returned = none
  requested : ∀ content, unsent pc = some content → content.Fits ∧
    s.calls[o]?.map Operation.input = some content ∧ ∀ c, o ∉ s.owners c
  waiting : ∀ q consumed, pc.phase = .waiting q consumed →
    Owns s q o ∨ Dropped s.client q ∧ consumed = []
  answered : ∀ q rsp, pc.phase = .answered q rsp → Owns s q o

/-- The books of the history agree with the client and the server. -/
structure Ledger (handler : Handler σ) (init : σ) (s : State N σ) : Prop where
  explains : Explains (spec handler) init s.object s.now s.calls s.points
  started : ∀ a ∈ s.calls, a.invoked < s.now
  standing : ∀ i, Standing s (s.current i) (s.client.threads i)
  apart : ∀ i j, i ≠ j → s.client.threads i ≠ .idle → s.client.threads j ≠ .idle →
    s.current i ≠ s.current j
  unused : ∀ c, s.client.next ≤ c → s.owners c = []
  lane : ∀ c, Lane (s.client.conns c) (inputs s c)
  single : ∀ (c d k l o : ℕ), (s.owners c)[k]? = some o → (s.owners d)[l]? = some o → c = d ∧ k = l
  handled : ∀ (c k : ℕ) content rsp, (s.client.conns c).parsed[k]? = some (content, some rsp) →
    ∃ p ∈ s.points, (s.owners c)[k]? = some p.op ∧ p.output = rsp
  answered : ∀ p ∈ s.points, ∃ (c k : ℕ) (content : RequestContent), (s.owners c)[k]? = some p.op ∧
    (s.client.conns c).parsed[k]? = some (content, some p.output)

theorem initial_ledger (handler : Handler σ) (init : σ) :
    Ledger handler init (initial init : State N σ) where
  explains := explains_nil _ init 0
  started a ha := by cases ha
  standing i := ⟨fun h => absurd rfl h, nofun, nofun, nofun⟩
  apart i j _ hi := absurd rfl hi
  unused c _ := rfl
  lane c := ⟨[], [], rfl, by simp, rfl, by decide, by simp [initial, SyncClient.initial]⟩
  single c d k l o h := by cases h
  handled c k content rsp h := by cases h
  answered p hp := by cases hp

variable {handler : Handler σ} {init : σ} {s : State N σ}

namespace Ledger

theorem owner_known (hs : Ledger handler init s) {c k o : ℕ} (h : (s.owners c)[k]? = some o) :
    ∃ a, s.calls[o]? = some a := by
  obtain ⟨rest, cut, hx, -⟩ := hs.lane c
  have hmem : s.calls[o]?.map Operation.input ∈ inputs s c :=
    List.mem_map.mpr ⟨o, List.mem_of_getElem? h, rfl⟩
  rw [hx] at hmem
  obtain ⟨content, -, hc⟩ := List.mem_map.mp hmem
  obtain ⟨a, ha, -⟩ := Option.map_eq_some_iff.mp hc.symm
  exact ⟨a, ha⟩

theorem owner_of_parsed (hs : Ledger handler init s) {c k : ℕ} {content : RequestContent}
    {rsp : Option ResponseContent} (h : (s.client.conns c).parsed[k]? = some (content, rsp)) :
    ∃ o a, (s.owners c)[k]? = some o ∧ s.calls[o]? = some a ∧ a.input = content := by
  obtain ⟨rest, cut, hx, -⟩ := hs.lane c
  have hk : k < ((s.client.conns c).parsed.map Prod.fst).length := by
    rw [List.length_map]
    exact (List.getElem?_eq_some_iff.mp h).1
  have hget : (inputs s c)[k]? = some (some content) := by
    rw [hx, List.getElem?_map, List.getElem?_append_left hk, List.getElem?_map, h]
    rfl
  rw [inputs, List.getElem?_map] at hget
  obtain ⟨o, ho, hinput⟩ := Option.map_eq_some_iff.mp hget
  obtain ⟨a, ha, hin⟩ := Option.map_eq_some_iff.mp hinput
  exact ⟨o, a, ho, ha, hin⟩

theorem point_of_owner (hs : Ledger handler init s) {c k o : ℕ} {p : Point _ _} (hp : p ∈ s.points)
    (ho : (s.owners c)[k]? = some o) (hop : p.op = o) :
    ∃ content, (s.client.conns c).parsed[k]? = some (content, some p.output) := by
  obtain ⟨d, l, content, hd, hparsed⟩ := hs.answered p hp
  rw [hop] at hd
  obtain ⟨rfl, rfl⟩ := hs.single d c l k o hd ho
  exact ⟨content, hparsed⟩

end Ledger

structure Fades (a b : Conn) : Prop where
  answers : ∀ (k : ℕ) content rsp, b.parsed[k]? = some (content, some rsp) ↔
    a.parsed[k]? = some (content, some rsp)
  lane : ∀ xs, Lane a xs → Lane b xs
  alive : b.alive = true → a.alive = true
  toClient : a.toClient = [] → b.toClient = []

theorem Fades.refl (a : Conn) : Fades a a := ⟨fun _ _ _ => Iff.rfl, fun _ => id, id, id⟩

theorem Fades.of_eq {a b : Conn} (hparsed : b.parsed = a.parsed) (hto : b.toServer = a.toServer)
    (hsent : b.sent = a.sent) (halive : b.alive = true → a.alive = true)
    (hclient : a.toClient = [] → b.toClient = []) : Fades a b := by
  refine ⟨fun k content rsp => by rw [hparsed], ?_, halive, hclient⟩
  rintro xs ⟨rest, cut, hx, hfits, hbytes, hcut, hlive⟩
  refine ⟨rest, cut, by rw [hparsed, hx], hfits, by rw [hto, hbytes], hcut, ?_⟩
  intro hb
  rw [hsent]
  exact hlive (halive hb)

theorem fades_lose (s : SyncClient.State N) (c d : ℕ) :
    Fades (s.conns d) ((SyncClient.lose s c).conns d) := by
  by_cases hd : d = c
  · subst d
    rw [SyncClient.lose, setConn_self]
    exact .of_eq rfl rfl rfl nofun id
  · rw [SyncClient.lose, setConn_of_ne _ hd]
    exact .refl _

theorem fades_closeSocket (s : SyncClient.State N) (d : ℕ) :
    Fades (s.conns d) ((closeSocket s).conns d) := by
  unfold closeSocket
  split
  · exact fades_lose s _ d
  · exact .refl _

structure Continues (pc pc' : Pc) : Prop where
  busy : pc' ≠ .idle → pc ≠ .idle
  requested : ∀ content, unsent pc' = some content → unsent pc = some content
  waiting : ∀ q consumed, pc'.phase = .waiting q consumed → pc.phase = .waiting q consumed
  answered : ∀ q rsp, pc'.phase = .answered q rsp → pc.phase = .answered q rsp

theorem Continues.refl (pc : Pc) : Continues pc pc :=
  ⟨id, fun _ => id, fun _ _ => id, fun _ _ => id⟩

theorem Continues.toward {pc pc' : Pc} (hbusy : pc ≠ .idle)
    (hrequested : unsent pc' = none ∨ unsent pc' = unsent pc)
    (hphase : pc'.phase = pc.phase ∨ pc'.phase = .outside ∨ pc'.phase = .holding ∨
      ∃ q, pc'.phase = .givingUp q) : Continues pc pc' := by
  refine ⟨fun _ => hbusy, ?_, ?_, ?_⟩
  · intro content h
    rcases hrequested with hr | hr
    · rw [hr] at h
      cases h
    · rwa [← hr]
  · intro q consumed h
    rcases hphase with hp | hp | hp | ⟨_, hp⟩
    · rwa [← hp]
    all_goals
      rw [hp] at h
      cases h
  · intro q rsp h
    rcases hphase with hp | hp | hp | ⟨_, hp⟩
    · rwa [← hp]
    all_goals
      rw [hp] at h
      cases h

theorem Standing.continue {pc pc' : Pc} {o : ℕ} (h : Standing s o pc) (hc : Continues pc pc') :
    Standing s o pc' :=
  ⟨fun hb => h.pending (hc.busy hb), fun content hr => h.requested content (hc.requested content hr),
    fun q consumed hw => h.waiting q consumed (hc.waiting q consumed hw),
    fun q rsp ha => h.answered q rsp (hc.answered q rsp ha)⟩

theorem Dropped.fade {a b : SyncClient.State N} {q : Sent} (h : Dropped a q)
    (hc : Fades (a.conns q.conn) (b.conns q.conn)) (hn : a.next ≤ b.next) : Dropped b q := by
  obtain ⟨halive, hto, hlt⟩ := h
  refine ⟨?_, hc.toClient hto, Nat.lt_of_lt_of_le hlt hn⟩
  by_contra hb
  rw [Bool.not_eq_false] at hb
  rw [hc.alive hb] at halive
  cases halive

end Czrpc.SyncHistory
