import Czrpc.Echo
import Czrpc.SyncPairing

/-! The shared `rpc_client` and the dispatch of the server together: the workers answer
with what the handlers write, in any order and at any time, and a call that returns has
what the handler of its own request wrote. -/
namespace Czrpc.SyncClient
open Execution Framing Protocol Dispatch Calls

variable {N : ℕ} {M D : Type} (pb : Protobuf M D) (router : Router M) (session : Except String Bytes)

/-- A worker answers a request with something that the dispatch writes for it. -/
def Dispatches (s : State N) : Action N → Prop
  | .answer c k code messageName body => ∀ content, (s.conns c).parsed[k]? = some (content, none) →
      ⟨content.callId, code, messageName, body⟩ ∈ (serve pb router session content).written
  | _ => True

def Conn.Served (conn : Conn) : Prop :=
  ∀ (k : ℕ) content rsp, conn.parsed[k]? = some (content, some rsp) →
    rsp ∈ (serve pb router session content).written

variable {pb router session}

theorem Conn.served_parse {conn : Conn} (h : conn.Served pb router session) (content : RequestContent)
    (rest : Bytes) : Conn.Served pb router session
      { conn with toServer := rest, parsed := conn.parsed ++ [(content, none)] } := by
  intro k content' rsp hk
  rcases Nat.lt_or_ge k conn.parsed.length with hlt | hge
  · rw [List.getElem?_append_left hlt] at hk
    exact h k content' rsp hk
  · rw [List.getElem?_append_right hge] at hk
    have hlast := List.mem_singleton.mp (List.mem_of_getElem? hk)
    cases hlast

theorem Conn.served_answer {conn conn' : Conn} (h : conn.Served pb router session) {k : ℕ}
    {code : RpcErrorCode} {messageName body : Bytes}
    (ha : conn.answer k code messageName body = some conn')
    (hok : ∀ content, conn.parsed[k]? = some (content, none) →
      ⟨content.callId, code, messageName, body⟩ ∈ (serve pb router session content).written) :
    conn'.Served pb router session := by
  obtain ⟨content, rsp, rfl, hk, rfl⟩ := Conn.answer_eq_some ha
  intro j content' rsp' hj
  by_cases hjk : k = j
  · subst j
    rw [List.getElem?_set_self (List.getElem?_eq_some_iff.mp hk).1] at hj
    cases hj
    exact hok content hk
  · rw [List.getElem?_set_ne hjk] at hj
    exact h j content' rsp' hj

def AllServed (pb : Protobuf M D) (router : Router M) (session : Except String Bytes) (s : State N) : Prop :=
  ∀ c, (s.conns c).Served pb router session

theorem AllServed.setConn {s : State N} (hs : AllServed pb router session s) {c : ℕ} {conn : Conn}
    (h : conn.Served pb router session) : AllServed pb router session (setConn s c conn) := by
  intro d
  by_cases hd : d = c
  · subst d
    rw [setConn_self]
    exact h
  · rw [setConn_of_ne _ hd]
    exact hs d

theorem AllServed.closeSocket {s : State N} (hs : AllServed pb router session s) :
    AllServed pb router session (closeSocket s) := by
  unfold SyncClient.closeSocket
  split
  · exact AllServed.setConn hs (hs _)
  · exact hs

theorem step_served {requestTimeout : ℕ} {s t : State N} {a : Action N}
    (hs : AllServed pb router session s) (hok : Dispatches pb router session s a)
    (h : step requestTimeout s a = some t) : AllServed pb router session t := by
  cases step_effect h with
  | call | testReady | testLocking | lockConn | retestReady | retestConnecting | setConnected | lock
  | writeClosed | clearWrite | clearRead | arm | readFailed | leave | expire | fire => exact hs
  | connect => exact AllServed.setConn hs.closeSocket fun k content rsp hk => by cases hk
  | connectRetry => exact hs.closeSocket
  | connectFailed => exact hs.closeSocket
  | close => exact hs.closeSocket
  | timerClose => exact hs.closeSocket
  | write => exact AllServed.setConn hs (hs _)
  | writeFailed => exact AllServed.setConn hs (hs _)
  | read => exact AllServed.setConn hs (hs _)
  | lose => exact AllServed.setConn hs (hs _)
  | parse => exact AllServed.setConn hs (Conn.served_parse (hs _) _ _)
  | answer ha => exact AllServed.setConn hs (Conn.served_answer (hs _) ha hok)

/-- Whatever the threads, the timer, the connections and the workers do, a call that
returns has a response that the handler of its own request wrote. -/
theorem returns_served (requestTimeout : ℕ) {as : List (Action N)} {s : State N}
    (hc : Conforms (step requestTimeout)
      (fun s a => FitsHeader s a ∧ Dispatches pb router session s a) initial as)
    (hr : run (step requestTimeout) initial as = some s) :
    ∀ e ∈ s.returned, e.2 ∈ (serve pb router session e.1.content).written := by
  have hinv : PairInv s ∧ AllServed pb router session s :=
    conforming_invariant (I := fun s => PairInv s ∧ AllServed pb router session s)
      (fun _ _ _ hs hok h => ⟨step_pair hs.1 hok.1 h, step_served hs.2 hok.2 h⟩)
      ⟨initial_pair, fun c k content rsp hk => by cases hk⟩ hc hr
  intro e he
  exact hinv.2 e.1.conn e.1.index e.1.content e.2 (hinv.1.returned e he).2

/-- Against a server that echoes, every raw call that returns gives back its argument. -/
theorem returns_echo (requestTimeout : ℕ) {sessionId funcName : Bytes} (he : Echo.Echoes pb router funcName)
    {as : List (Action N)} {s : State N}
    (hc : Conforms (step requestTimeout)
      (fun s a => FitsHeader s a ∧ Dispatches pb router (.ok sessionId) s a) initial as)
    (hr : run (step requestTimeout) initial as = some s) {q : Sent} {rsp : ResponseContent}
    (hmem : (q, rsp) ∈ s.returned) {body : Bytes}
    (hq : q.content = rawRequest .rpcClient 0 funcName body) : callRawResult rsp = .ok body := by
  have hserved := returns_served requestTimeout hc hr (q, rsp) hmem
  simp only [hq, Echo.serve_echoRaw sessionId he (Or.inl rfl) 0 body] at hserved
  split_ifs at hserved
  · cases hserved
  · rw [List.mem_singleton.mp hserved]
    rfl

end Czrpc.SyncClient
