import Czrpc.ServerWrites

/-! What becomes of a call at the server. Exceptions are caught at two places: what the handler
throws by `invoker_function`, and anything else, up to the session id, which throws if the
socket cannot name its ends, by `rpc_coming`. -/
namespace Czrpc.RequestOutcome
open Framing Protocol Dispatch
open ServerWrites (IsCall noMessages)

variable {M D : Type}

section Routes
variable (pb : Protobuf M D) (router : Router M) (session : Except String Bytes)

inductive Route (M : Type)
  | ignored
  | closed
  | unbound
  | bound (func : Handler M) (req : Request M)

def routeIn (table : UnorderedMap Bytes (Handler M)) (protocol : Bytes) (req : Request M) : Route M :=
  match table.find protocol with
  | some func => .bound func req
  | none => .unbound

def routeOf (content : RequestContent) : Route M :=
  if content.flag.mode = .serialize then
    match pb.deserialize content.messageName content.body, session with
    | .ok message, .ok sessionId =>
      routeIn router.routeMap content.protocol ⟨some message, [], sessionId⟩
    | _, _ => .closed
  else if content.flag.mode = .nonSerialize then
    match session with
    | .ok sessionId => routeIn router.routeRawMap content.protocol ⟨none, content.body, sessionId⟩
    | .error _ => .closed
  else .ignored

end Routes

def Route.output (callId : UInt32) : Route M → Output
  | .ignored => ⟨[], false⟩
  | .closed => ⟨[], true⟩
  | .unbound => ⟨[⟨callId, .routeFailed, [], []⟩], false⟩
  | .bound func req => (func req callId).output ⟨[], false⟩

theorem run_routeIn (table : UnorderedMap Bytes (Handler M)) (protocol : Bytes) (req : Request M)
    (callId : UInt32) :
    (do
      let ok ← Router.routeIn table protocol req callId
      if !ok then responseError callId .routeFailed : Work Unit).run ⟨[], false⟩ =
      .ok () ((routeIn table protocol req).output callId) := by
  cases hf : table.find protocol with
  | some func =>
    rw [Work.run_bind, Dispatch.run_routeIn hf, routeIn, hf]
    rfl
  | none =>
    rw [Work.run_bind, Router.routeIn, routeIn, hf]
    rfl

variable (pb : Protobuf M D) (router : Router M) (session : Except String Bytes)

theorem serve_eq (content : RequestContent) (hcall : IsCall content) :
    serve pb router session content = (routeOf pb router session content).output content.callId := by
  have htype : content.flag.type = .rpcClient ∨ content.flag.type = .asyncRpcClient := hcall
  rw [serve, routerThread, if_pos htype, rpcComing, Work.output, Work.run_tryCatch]
  unfold routeOf
  split_ifs with hs hn
  · rw [rpcComingWithSerialize]
    cases pb.deserialize content.messageName content.body with
    | error e => rfl
    | ok message =>
      cases session with
      | error e => rfl
      | ok sessionId =>
        have hrun := run_routeIn router.routeMap content.protocol ⟨some message, [], sessionId⟩
          content.callId
        simp only [Work.throwing_ok_bind, Router.route]
        rw [hrun]
  · rw [rpcComingWithNonSerialize]
    cases session with
    | error e => rfl
    | ok sessionId =>
      have hrun := run_routeIn router.routeRawMap content.protocol ⟨none, content.body, sessionId⟩
        content.callId
      simp only [Work.throwing_ok_bind, Router.routeRaw]
      rw [hrun]
  · rfl

inductive Answer (M : Type)
  | message (message : M)
  | raw (rawData : Bytes)

def Answer.set (pb : Protobuf M D) (callId : UInt32) : Answer M → Work Unit
  | .message m => setResponse pb callId (some m)
  | .raw rawData => setResponseRaw callId rawData

def Answer.Nonempty (pb : Protobuf M D) : Answer M → Prop
  | .message m => pb.isInitialized m = true ∧ pb.fullName m ≠ [] ∧ pb.serializeAsString m ≠ []
  | .raw rawData => rawData ≠ []

/-- The handler calls `set_response` once, with an answer that is not empty, and then returns
or throws. -/
def AnswersOnce (pb : Protobuf M D) (callId : UInt32) (work : Work Unit) : Prop :=
  ∃ answer : Answer M, answer.Nonempty pb ∧
    ∃ after : Except String Unit, work = do
      answer.set pb callId
      throwing after

def Throws (work : Work Unit) : Prop := ∃ what, work = throw what

/-- Every handler that is bound answers a request once or throws before it has answered. -/
def Behaved (pb : Protobuf M D) (router : Router M) : Prop :=
  ∀ protocol func, router.routeMap.find protocol = some func ∨
    router.routeRawMap.find protocol = some func →
    ∀ req callId, AnswersOnce pb callId (func req callId) ∨ Throws (func req callId)

/-- One response with the call id of the request and nothing else, or the connection closed. -/
def Settled (content : RequestContent) (out : Output) : Prop :=
  (∃ rsp : ResponseContent, rsp.callId = content.callId ∧ out = ⟨[rsp], false⟩) ∨ out = ⟨[], true⟩

theorem not_settled (content : RequestContent) : ¬ Settled content ⟨[], false⟩ := by
  rintro (⟨rsp, -, h⟩ | h)
  · simp at h
  · simp at h

variable {pb router session} {content : RequestContent}

theorem AnswersOnce.output {callId : UInt32} {work : Work Unit} (h : AnswersOnce pb callId work) :
    ∃ rsp : ResponseContent, rsp.callId = callId ∧ work.output ⟨[], false⟩ = ⟨[rsp], false⟩ := by
  obtain ⟨answer, hne, after, rfl⟩ := h
  have hset : ∃ rsp : ResponseContent, rsp.callId = callId ∧
      (answer.set pb callId).run ⟨[], false⟩ = .ok () ⟨[rsp], false⟩ := by
    cases answer with
    | message m =>
      obtain ⟨hinit, hname, hbody⟩ := hne
      refine ⟨⟨callId, .ok, pb.fullName m, pb.serializeAsString m⟩, rfl, ?_⟩
      rw [Answer.set, setResponse, Protobuf.serialize_eq hinit, Work.throwing_ok_bind,
        if_pos ⟨hname, hbody⟩]
      rfl
    | raw rawData =>
      have hdata : rawData ≠ [] := hne
      refine ⟨⟨callId, .ok, [], rawData⟩, rfl, ?_⟩
      rw [Answer.set, setResponseRaw, if_pos hdata]
      rfl
  obtain ⟨rsp, hid, hrun⟩ := hset
  refine ⟨rsp, hid, ?_⟩
  rw [Work.output, Work.run_bind, hrun]
  cases after <;> rfl

theorem Throws.output {work : Work Unit} (h : Throws work) : work.output ⟨[], false⟩ = ⟨[], false⟩ := by
  obtain ⟨what, rfl⟩ := h
  rfl

theorem routeIn_eq_bound {table : UnorderedMap Bytes (Handler M)} {protocol : Bytes}
    {req req' : Request M} {func : Handler M} (h : routeIn table protocol req = .bound func req') :
    table.find protocol = some func := by
  unfold routeIn at h
  split at h
  · rename_i f hf
    obtain ⟨rfl, -⟩ := Route.bound.inj h
    exact hf
  · cases h

theorem Behaved.handler (h : Behaved pb router) {func : Handler M} {req : Request M}
    (hroute : routeOf pb router session content = .bound func req) :
    AnswersOnce pb content.callId (func req content.callId) ∨ Throws (func req content.callId) := by
  unfold routeOf at hroute
  split_ifs at hroute
  · split at hroute
    · exact h _ _ (Or.inl (routeIn_eq_bound hroute)) req content.callId
    · cases hroute
  · split at hroute
    · exact h _ _ (Or.inr (routeIn_eq_bound hroute)) req content.callId
    · cases hroute

variable (pb router session content) in
theorem routeOf_eq_ignored_iff :
    routeOf pb router session content = .ignored ↔
      ¬ (content.flag.mode = .serialize ∨ content.flag.mode = .nonSerialize) := by
  have hroute : ∀ table protocol req, routeIn table protocol req ≠ (.ignored : Route M) := by
    intro table protocol req h
    unfold routeIn at h
    split at h <;> cases h
  unfold routeOf
  split_ifs with hs hn
  · simp only [hs, true_or, not_true_eq_false, iff_false]
    split
    · exact hroute _ _ _
    · simp
  · simp only [hn, or_true, not_true_eq_false, iff_false]
    split
    · exact hroute _ _ _
    · simp
  · simp [hs, hn]

/-- A call is settled, by one response with its id or by closing the connection, if and only
if its mode is one of the two and the handler that it gets to, if any, does not throw before
it has answered. -/
theorem settled_iff (hrouter : Behaved pb router) (hcall : IsCall content) :
    Settled content (serve pb router session content) ↔
      (content.flag.mode = .serialize ∨ content.flag.mode = .nonSerialize) ∧
        ∀ func req, routeOf pb router session content = .bound func req →
          ¬ Throws (func req content.callId) := by
  have hmode : (content.flag.mode = .serialize ∨ content.flag.mode = .nonSerialize) ↔
      routeOf pb router session content ≠ .ignored := by
    rw [ne_eq, routeOf_eq_ignored_iff, not_not]
  rw [serve_eq pb router session content hcall, hmode]
  cases hroute : routeOf pb router session content with
  | ignored => simp [Route.output, not_settled]
  | closed => simp [Route.output, Settled]
  | unbound => simp [Route.output, Settled]
  | bound func req =>
    simp only [Route.output, ne_eq, reduceCtorEq, not_false_eq_true, true_and, Route.bound.injEq]
    constructor
    · rintro hsettled f r ⟨rfl, rfl⟩ hthrows
      rw [hthrows.output] at hsettled
      exact not_settled content hsettled
    · intro h
      rcases hrouter.handler hroute with hanswers | hthrows
      · obtain ⟨rsp, hid, hout⟩ := hanswers.output
        exact Or.inl ⟨rsp, hid, hout⟩
      · exact absurd hthrows (h func req ⟨rfl, rfl⟩)

def echoOrThrow : Handler Empty := fun req callId =>
  if req.rawData = [] then throw "empty" else setResponseRaw callId req.rawData

def echoRouter : Router Empty := (⟨.empty, .empty⟩ : Router Empty).bindRaw [101] echoOrThrow

theorem echoOrThrow_throws {req : Request Empty} (h : req.rawData = []) (callId : UInt32) :
    Throws (echoOrThrow req callId) := ⟨"empty", if_pos h⟩

theorem echoOrThrow_answers {req : Request Empty} (h : req.rawData ≠ []) (callId : UInt32) :
    AnswersOnce noMessages callId (echoOrThrow req callId) := by
  refine ⟨.raw req.rawData, h, .ok (), ?_⟩
  rw [echoOrThrow, if_neg h]
  exact (bind_pure_unit (x := setResponseRaw callId req.rawData)).symm

theorem echoRouter_behaved : Behaved noMessages echoRouter := by
  rintro protocol func (h | h) req callId
  · cases h
  · have hmem := (UnorderedMap.find_eq_some_iff _ _ _).mp h
    obtain ⟨-, rfl⟩ : protocol = [101] ∧ func = echoOrThrow := by
      simpa [echoRouter, Router.bindRaw, UnorderedMap.replace, UnorderedMap.contains,
        UnorderedMap.find, UnorderedMap.empty, UnorderedMap.emplace] using hmem
    by_cases hdata : req.rawData = []
    · exact Or.inr (echoOrThrow_throws hdata callId)
    · exact Or.inl (echoOrThrow_answers hdata callId)

def rawCall (mode : SerializeMode) (body : Bytes) : RequestContent :=
  ⟨7, ⟨mode, .rpcClient⟩, [101], [], body⟩

theorem settled_answered :
    serve noMessages echoRouter (.ok []) (rawCall .nonSerialize [104]) = ⟨[⟨7, .ok, [], [104]⟩], false⟩ ∧
      Settled (rawCall .nonSerialize [104])
        (serve noMessages echoRouter (.ok []) (rawCall .nonSerialize [104])) := by
  refine ⟨rfl, (settled_iff echoRouter_behaved (Or.inl rfl)).mpr ⟨Or.inr rfl, ?_⟩⟩
  rintro func req hroute hthrows
  have hbound : routeOf noMessages echoRouter (.ok []) (rawCall .nonSerialize [104]) =
      .bound echoOrThrow ⟨none, [104], []⟩ := rfl
  obtain ⟨rfl, rfl⟩ := Route.bound.inj (hbound.symm.trans hroute)
  have hout : (echoOrThrow ⟨none, [104], []⟩ 7).output ⟨[], false⟩ = ⟨[], false⟩ := hthrows.output
  exact absurd hout (by decide)

/-- A call whose handler throws, and a call of another mode whose handler would answer, are
neither answered nor closed. -/
theorem unsettled :
    (¬ ∀ (router : Router Empty) (content : RequestContent), Behaved noMessages router →
      IsCall content → content.flag.mode = .nonSerialize →
      Settled content (serve noMessages router (.ok []) content)) ∧
    ¬ ∀ (router : Router Empty) (content : RequestContent), Behaved noMessages router →
      IsCall content → content.body ≠ [] →
      Settled content (serve noMessages router (.ok []) content) := by
  constructor
  · intro h
    exact not_settled _ (h echoRouter (rawCall .nonSerialize []) echoRouter_behaved (Or.inl rfl) rfl)
  · intro h
    exact not_settled _ (h echoRouter (rawCall ⟨2⟩ [104]) echoRouter_behaved (Or.inl rfl) (by decide))

end Czrpc.RequestOutcome
