import Czrpc.Protocol
import Czrpc.ReadDelivery

/-! The streams of the protocol, read back by the loops that read them: requests by
`connection`, responses by `async_rpc_client` and by the blocking reads of `rpc_client`,
pushes by `sub_client`. -/
namespace Czrpc.StreamRoundTrip
open Execution Framing Protocol ReadLoop

/-- `read_head` and `read_content` of `connection`; its `handle_error` leaves the socket
alone. -/
def connectionLoop : Loop RequestContent := ⟨requestCodec.toFormat, false⟩

/-- `async_read_head` and `async_read_content` of `async_rpc_client`. -/
def asyncRpcClientLoop : Loop ResponseContent := ⟨responseCodec.toFormat, true⟩

/-- `async_read_head` and `async_read_content` of `sub_client`. -/
def subClientLoop : Loop PushContent := ⟨pushCodec.toFormat, true⟩

theorem transmits_beginning {φ : Type*} (C : Codec φ) (closes : Bool) {xs : List φ}
    (hx : ∀ x ∈ xs, C.Fits x) {bs : Bytes} (hp : bs <+: xs.flatMap C.encode) :
    ∃ k ≤ xs.length, (∀ j ≤ xs.length, ((xs.take j).flatMap C.encode).length ≤ bs.length ↔ j ≤ k) ∧
      C.readFrames bs = xs.take k ∧ Transmits ⟨C.toFormat, closes⟩ bs (xs.take k) := by
  obtain ⟨k, hk, htake, hends⟩ := C.within_eq_take xs bs.length
  have hframes : C.readFrames bs = xs.take k := (C.readFrames_beginning hx hp).trans htake
  refine ⟨k, hk, hends, hframes, ?_⟩
  rw [← hframes]
  exact transmits_readFrames ⟨C.toFormat, closes⟩ bs

/-- From any beginning of a stream of requests the server routes those whose frames lie
wholly inside of it, in order, and then reports an error. -/
theorem requests_routed {xs : List RequestContent} (hx : ∀ x ∈ xs, x.Fits) {bs : Bytes}
    (hp : bs <+: xs.flatMap fun c => getRequestBuffer (RequestHeader.ofContent c) c) :
    ∃ k ≤ xs.length,
      (∀ j ≤ xs.length, ((xs.take j).flatMap fun c =>
        getRequestBuffer (RequestHeader.ofContent c) c).length ≤ bs.length ↔ j ≤ k) ∧
      Transmits connectionLoop bs (xs.take k) := by
  obtain ⟨k, hk, hends, -, htransmits⟩ := transmits_beginning requestCodec false hx hp
  exact ⟨k, hk, hends, htransmits⟩

def helloRequest : RequestContent := ⟨7, ⟨⟨9⟩, .asyncRpcClient⟩, [101], [], [104, 105]⟩

def cutRequests : Bytes :=
  getRequestBuffer (RequestHeader.ofContent helloRequest) helloRequest ++
    (getRequestBuffer (RequestHeader.ofContent helloRequest) helloRequest).take 20

theorem requests_routed_cut :
    ∃ as s, run (step connectionLoop) (start cutRequests true) as = some s ∧
      ∃ k, (k = 1 ∨ k = 2) ∧ s.events = [.frame helloRequest] ++ List.replicate k .error := by
  have hfits : ∀ x ∈ [helloRequest, helloRequest], x.Fits := by
    intro x hx
    obtain rfl : x = helloRequest := by simpa using hx
    exact ⟨by decide, by decide, by decide⟩
  have hp : cutRequests <+: [helloRequest, helloRequest].flatMap fun c =>
      getRequestBuffer (RequestHeader.ofContent c) c := by decide
  obtain ⟨k, hk, hends, htransmits⟩ := requests_routed hfits hp
  have h1 : 1 ≤ k := (hends 1 (by decide)).mp (by decide)
  have h2 : ¬ 2 ≤ k := (hends 2 (by decide)).not.mp (by decide)
  obtain rfl : k = 1 := by omega
  exact htransmits.exists_run

/-- The members of `client_base` that a blocking read uses, and the bytes that its socket
has yet to receive. -/
structure ClientBase where
  stream : Bytes
  rspHeadBuf : Bytes
  rspHead : ResponseHeader
  rspContent : Bytes
  deriving DecidableEq, Repr

namespace ClientBase

def readHead (s : ClientBase) : Option ClientBase :=
  (readExact responseCodec.headLen s.stream).map fun r => { s with rspHeadBuf := r.1, stream := r.2 }

def readContent (s : ClientBase) : Option (ResponseContent × ClientBase) :=
  (readExact s.rspHead.contentSize s.stream).map fun r =>
    (makeResponseContent s.rspHead r.1, { s with rspContent := r.1, stream := r.2 })

def read (s : ClientBase) : Option (ResponseContent × ClientBase) :=
  s.readHead.bind fun s => readContent { s with rspHead := ResponseHeader.ofBytes s.rspHeadBuf }

def reads : ℕ → ClientBase → List ResponseContent
  | 0, _ => []
  | n + 1, s =>
    match s.read with
    | some (content, s') => content :: reads n s'
    | none => []

theorem read_eq (s : ClientBase) : (s.read.map fun r => (r.1, r.2.stream)) =
    responseCodec.readFrame s.stream := by
  unfold read readHead Format.readFrame
  cases hhead : readExact responseCodec.headLen s.stream with
  | none => rfl
  | some r =>
    obtain ⟨head, rest⟩ := r
    simp only [Option.map_some, Option.bind_some, readContent]
    have hlen : (ResponseHeader.ofBytes head).contentSize = responseCodec.contentLen head := rfl
    rw [hlen]
    cases hcontent : readExact (responseCodec.contentLen head) rest with
    | none => rfl
    | some r => rfl

theorem reads_eq (n : ℕ) (s : ClientBase) :
    s.reads n = (responseCodec.readFrames s.stream).take n := by
  induction n generalizing s with
  | zero => simp [reads]
  | succ n ih =>
    have hread := s.read_eq
    unfold reads
    cases hr : s.read with
    | none =>
      rw [hr, Option.map_none] at hread
      simp [responseCodec.readFrames_none hread.symm]
    | some r =>
      obtain ⟨content, s'⟩ := r
      rw [hr, Option.map_some] at hread
      rw [responseCodec.readFrames_cons hread.symm, List.take_succ_cons]
      simp only [ih]

end ClientBase

/-- From any beginning of a stream of responses, or of pushes, each client delivers those
whose frames lie wholly inside of it, in order. -/
theorem responses_and_pushes_delivered :
    (∀ xs : List ResponseContent, (∀ x ∈ xs, x.Fits) → ∀ bs : Bytes,
      (bs <+: xs.flatMap fun c => getResponseBuffer (ResponseHeader.ofContent c) c) →
      ∃ k ≤ xs.length,
        (∀ j ≤ xs.length, ((xs.take j).flatMap fun c =>
          getResponseBuffer (ResponseHeader.ofContent c) c).length ≤ bs.length ↔ j ≤ k) ∧
        Transmits asyncRpcClientLoop bs (xs.take k) ∧
        ∀ s : ClientBase, s.stream = bs → ∀ n, s.reads n = (xs.take k).take n) ∧
    ∀ xs : List PushContent, (∀ x ∈ xs, x.Fits) → ∀ bs : Bytes,
      (bs <+: xs.flatMap fun c => getPushBuffer (PushHeader.ofContent c) c) →
      ∃ k ≤ xs.length,
        (∀ j ≤ xs.length, ((xs.take j).flatMap fun c =>
          getPushBuffer (PushHeader.ofContent c) c).length ≤ bs.length ↔ j ≤ k) ∧
        Transmits subClientLoop bs (xs.take k) := by
  constructor
  · intro xs hx bs hp
    obtain ⟨k, hk, hends, hframes, htransmits⟩ := transmits_beginning responseCodec true hx hp
    refine ⟨k, hk, hends, htransmits, ?_⟩
    rintro s rfl n
    rw [s.reads_eq, hframes]
  · intro xs hx bs hp
    obtain ⟨k, hk, hends, -, htransmits⟩ := transmits_beginning pushCodec true hx hp
    exact ⟨k, hk, hends, htransmits⟩

def sentResponses : List ResponseContent :=
  [⟨7, .ok, [109], [104, 105]⟩, ⟨8, .routeFailed, [110, 111], [33]⟩, ⟨9, .ok, [109], [98, 121, 101]⟩]

def cutResponses : Bytes :=
  (sentResponses.flatMap fun c => getResponseBuffer (ResponseHeader.ofContent c) c).take 55

def sentPushes : List PushContent :=
  [⟨⟨5⟩, [116], [109], [104, 105]⟩, ⟨⟨9⟩, [117, 118], [110], [33]⟩, ⟨⟨5⟩, [116], [109], [98]⟩]

def cutPushes : Bytes :=
  (sentPushes.flatMap fun c => getPushBuffer (PushHeader.ofContent c) c).take 45

theorem responses_and_pushes_delivered_cut :
    (∃ as s, run (step asyncRpcClientLoop) (start cutResponses true) as = some s ∧
      ∃ k, (k = 1 ∨ k = 2) ∧
        s.events = (sentResponses.take 2).map .frame ++ List.replicate k .error) ∧
    (ClientBase.mk cutResponses [] (ResponseHeader.ofBytes []) []).reads 3 =
      sentResponses.take 2 ∧
    ∃ as s, run (step subClientLoop) (start cutPushes true) as = some s ∧
      ∃ k, (k = 1 ∨ k = 2) ∧ s.events = (sentPushes.take 2).map .frame ++ List.replicate k .error := by
  obtain ⟨hresponses, hpushes⟩ := responses_and_pushes_delivered
  have hfitsR : ∀ x ∈ sentResponses, x.Fits := by simp [sentResponses, ResponseContent.Fits]
  have hfitsP : ∀ x ∈ sentPushes, x.Fits := by simp [sentPushes, PushContent.Fits]
  obtain ⟨k, hk, hends, htransmits, hreads⟩ :=
    hresponses sentResponses hfitsR cutResponses (List.take_prefix _ _)
  have h2 : 2 ≤ k := (hends 2 (by decide)).mp (by decide)
  have h3 : ¬ 3 ≤ k := (hends 3 (by decide)).not.mp (by decide)
  obtain rfl : k = 2 := by omega
  refine ⟨htransmits.exists_run, hreads _ rfl 3, ?_⟩
  obtain ⟨k, hk, hends, htransmits⟩ :=
    hpushes sentPushes hfitsP cutPushes (List.take_prefix _ _)
  have h2 : 2 ≤ k := (hends 2 (by decide)).mp (by decide)
  have h3 : ¬ 3 ≤ k := (hends 3 (by decide)).not.mp (by decide)
  obtain rfl : k = 2 := by omega
  exact htransmits.exists_run

end Czrpc.StreamRoundTrip
