import Mathlib.Data.Int.Notation
import Czrpc.SyncClient

/-! `client_base::connect`, the loop that `try_connect` runs under `conn_mutex_`. It tries until
an attempt succeeds, and after an attempt that failed it sleeps and gives up if `connect_timeout_`
has passed since it began. Time passes in milliseconds, the code sees whole seconds, and nobody
sets the clock meanwhile. -/
namespace Czrpc.ConnectLoop
open Execution

def time (now : ℕ) : ℤ := (now / 1000 : ℕ)

/-- What `boost::asio::connect` comes to and how long it takes. `pause` is the time from its
failure to the reading of the clock, in which the thread sleeps. -/
structure Attempt where
  ok : Bool
  duration : ℕ
  pause : ℕ
  deriving DecidableEq, Repr

inductive Outcome
  | connected (now : ℕ)
  | threw (now : ℕ)
  | trying (now : ℕ)
  deriving DecidableEq, Repr

def Attempt.failedAt (a : Attempt) (now : ℕ) : ℕ := now + a.duration + a.pause

def connectLoop (connectTimeout beginTime : ℤ) : ℕ → List Attempt → Outcome
  | now, [] => .trying now
  | now, a :: as =>
    if a.ok then .connected (now + a.duration)
    else if time (a.failedAt now) - beginTime ≥ connectTimeout then .threw (a.failedAt now)
    else connectLoop connectTimeout beginTime (a.failedAt now) as

def connect (connectTimeout : ℤ) (now : ℕ) (as : List Attempt) : Outcome :=
  connectLoop connectTimeout (time now) now as

/-- The attempt `last` is the one that ends the loop. It begins at `start`: at once, or after a
test that found the timeout not yet passed. -/
structure Course (connectTimeout beginTime : ℤ) (now : ℕ) (before : List Attempt) (last : Attempt)
    (start : ℕ) (outcome : Outcome) : Prop where
  failed : ∀ a ∈ before, a.ok = false
  inTime : start = now ∨ time start - beginTime < connectTimeout
  outcome : (last.ok = true ∧ outcome = .connected (start + last.duration)) ∨
    (last.ok = false ∧ connectTimeout ≤ time (last.failedAt start) - beginTime ∧
      outcome = .threw (last.failedAt start))

theorem Course.cons {connectTimeout beginTime : ℤ} {now : ℕ} {before : List Attempt}
    {a last : Attempt} {start : ℕ} {outcome : Outcome}
    (h : Course connectTimeout beginTime (a.failedAt now) before last start outcome)
    (ha : a.ok = false) (hin : time (a.failedAt now) - beginTime < connectTimeout) :
    Course connectTimeout beginTime now (a :: before) last start outcome := by
  refine ⟨?_, ?_, h.outcome⟩
  · intro b hb
    rcases List.mem_cons.mp hb with rfl | hb
    · exact ha
    · exact h.failed b hb
  · rcases h.inTime with rfl | hstart
    · exact Or.inr hin
    · exact Or.inr hstart

/-- The loop goes on through failures until an attempt ends it, or is still going on in time. -/
theorem connectLoop_course (connectTimeout beginTime : ℤ) (now : ℕ) {as : List Attempt}
    (hpause : ∀ a ∈ as, a.ok = false → 20 ≤ a.pause) :
    (∃ before last rest start, as = before ++ last :: rest ∧
      Course connectTimeout beginTime now before last start
        (connectLoop connectTimeout beginTime now as)) ∨
    ∃ t, connectLoop connectTimeout beginTime now as = .trying t ∧ now + 20 * as.length ≤ t ∧
      (as = [] ∨ time t - beginTime < connectTimeout) := by
  induction as generalizing now with
  | nil => exact Or.inr ⟨now, rfl, Nat.le_refl _, Or.inl rfl⟩
  | cons a as ih =>
    simp only [connectLoop]
    split_ifs with hok hlate
    · exact Or.inl ⟨[], a, as, now, rfl, by simp, Or.inl rfl, Or.inl ⟨hok, rfl⟩⟩
    · exact Or.inl ⟨[], a, as, now, rfl, by simp, Or.inl rfl,
        Or.inr ⟨by simpa using hok, hlate, rfl⟩⟩
    · have hfail : a.ok = false := by simpa using hok
      have hin : time (a.failedAt now) - beginTime < connectTimeout := Int.not_le.mp hlate
      have hslept := hpause a (by simp) hfail
      rcases ih (a.failedAt now) (fun b hb => hpause b (by simp [hb])) with
        ⟨before, last, rest, start, rfl, hcourse⟩ | ⟨t, ht, hle, hlast⟩
      · exact Or.inl ⟨a :: before, last, rest, start, rfl, hcourse.cons hfail hin⟩
      · refine Or.inr ⟨t, ht, ?_, Or.inr ?_⟩
        · simp only [Attempt.failedAt, List.length_cons] at hle ⊢
          omega
        · rcases hlast with rfl | hlast
          · obtain rfl := Outcome.trying.inj ht
            exact hin
          · exact hlast

theorem time_sub_le (now t : ℕ) : 1000 * (time t - time now) < (t : ℤ) - now + 1000 := by
  unfold time
  omega

theorem lt_of_time_sub {now t : ℕ} {connectTimeout : ℤ} (h : time t - time now < connectTimeout) :
    (t : ℤ) < now + 1000 * connectTimeout := by
  unfold time at h
  omega

theorem Course.start_le {connectTimeout : ℤ} {now : ℕ} {before : List Attempt} {last : Attempt}
    {start : ℕ} {outcome : Outcome}
    (h : Course connectTimeout (time now) now before last start outcome) :
    (start : ℤ) ≤ now + max 0 (1000 * connectTimeout) := by
  rcases h.inTime with rfl | hin
  · omega
  · have hlt := lt_of_time_sub hin
    omega

/-- However the attempts go, `connect` returns at the first one that succeeds, and throws only
after failures, when the timeout less one second has passed. It ends after the timeout and one
more attempt at the latest, and it does end: enough attempts leave it no more time. -/
theorem connect_in_time (connectTimeout : ℤ) (now longest : ℕ) {as : List Attempt}
    (hpause : ∀ a ∈ as, a.ok = false → 20 ≤ a.pause) (hlongest : ∀ a ∈ as, a.duration + a.pause ≤ longest) :
    (∀ t, connect connectTimeout now as = .connected t →
      (∃ before last rest, as = before ++ last :: rest ∧ (∀ a ∈ before, a.ok = false) ∧
        last.ok = true) ∧
      (t : ℤ) ≤ now + max 0 (1000 * connectTimeout) + longest) ∧
    (∀ t, connect connectTimeout now as = .threw t →
      (∃ tried rest, as = tried ++ rest ∧ tried ≠ [] ∧ ∀ a ∈ tried, a.ok = false) ∧
      1000 * (connectTimeout - 1) < (t : ℤ) - now ∧
      (t : ℤ) ≤ now + max 0 (1000 * connectTimeout) + longest) ∧
    (as ≠ [] → 1000 * connectTimeout ≤ 20 * as.length →
      ∀ t, connect connectTimeout now as ≠ .trying t) := by
  unfold connect
  rcases connectLoop_course connectTimeout (time now) now hpause with
    ⟨before, last, rest, start, rfl, hcourse⟩ | ⟨t, ht, hle, hlast⟩
  · have hstart := hcourse.start_le
    have htook := hlongest last (by simp)
    rcases hcourse.outcome with ⟨hok, he⟩ | ⟨hfail, hlate, he⟩ <;> rw [he]
    · refine ⟨?_, nofun, nofun⟩
      intro t ht
      obtain rfl := Outcome.connected.inj ht
      refine ⟨⟨before, last, rest, rfl, hcourse.failed, hok⟩, ?_⟩
      omega
    · refine ⟨nofun, ?_, nofun⟩
      intro t ht
      obtain rfl := Outcome.threw.inj ht
      refine ⟨⟨before ++ [last], rest, by simp, by simp, ?_⟩, ?_, ?_⟩
      · intro a ha
        rcases List.mem_append.mp ha with ha | ha
        · exact hcourse.failed a ha
        · rw [List.mem_singleton.mp ha]
          exact hfail
      · have hshown := time_sub_le now (last.failedAt start)
        omega
      · unfold Attempt.failedAt
        omega
  · rw [ht]
    refine ⟨nofun, nofun, ?_⟩
    intro hne hmany _ _
    have hlt := lt_of_time_sub (hlast.resolve_left hne)
    omega

theorem connect_in_time_late : ∃ t : ℕ, connect 3 500
      [⟨false, 1000, 20⟩, ⟨false, 1000, 20⟩, ⟨true, 5, 0⟩] = .connected t ∧
    (t : ℤ) ≤ 500 + max 0 (1000 * 3) + 1020 := by
  have hrun : connect 3 500 [⟨false, 1000, 20⟩, ⟨false, 1000, 20⟩, ⟨true, 5, 0⟩] =
      .connected 2545 := by decide
  exact ⟨2545, hrun,
    ((connect_in_time 3 500 1020 (by decide) (by decide)).1 2545 hrun).2⟩

variable {N : ℕ}

def connectActions (connectTimeout beginTime : ℤ) (i : Fin N) :
    ℕ → List Attempt → List (SyncClient.Action N)
  | _, [] => []
  | now, a :: as =>
    if a.ok then [.connect i]
    else if time (a.failedAt now) - beginTime ≥ connectTimeout then [.connectFailed i]
    else .connectRetry i :: connectActions connectTimeout beginTime i (a.failedAt now) as

def Done (s : SyncClient.State N) (i : Fin N) (content : Protocol.RequestContent)
    (t : SyncClient.State N) : Outcome → Prop
  | .connected _ => t.threads i = .connected content ∧ t.next = s.next + 1
  | .threw _ => t.threads i = .idle ∧ t.next = s.next ∧ t.connMutex = none
  | .trying _ => t.threads i = .connecting content ∧ t.next = s.next

/-- Whatever the loop does with time, a thread of the client can do. -/
theorem connectLoop_run (requestTimeout : ℕ) (connectTimeout beginTime : ℤ) (now : ℕ)
    (as : List Attempt) {s : SyncClient.State N} {i : Fin N} {content : Protocol.RequestContent}
    (hi : s.threads i = .connecting content) :
    ∃ t, run (SyncClient.step requestTimeout) s
        (connectActions connectTimeout beginTime i now as) = some t ∧
      Done s i content t (connectLoop connectTimeout beginTime now as) := by
  induction as generalizing now s with
  | nil => exact ⟨s, rfl, hi, rfl⟩
  | cons a as ih =>
    simp only [connectLoop, connectActions]
    split_ifs with hok hlate
    · refine ⟨SyncClient.setThread (SyncClient.connect s) i (.connected content), ?_, ?_, rfl⟩
      · simp [run_cons, SyncClient.step, hi]
      · exact SyncClient.setThread_self _ _ _
    · refine ⟨{ SyncClient.setThread (SyncClient.closeSocket s) i .idle with connMutex := none },
        ?_, ?_, ?_, rfl⟩
      · simp [run_cons, SyncClient.step, hi]
      · exact SyncClient.setThread_self _ _ _
      · exact SyncClient.closeSocket_next s
    · have hretry : SyncClient.step requestTimeout s (.connectRetry i) =
          some (SyncClient.closeSocket s) := by simp [SyncClient.step, hi]
      obtain ⟨t, ht, hdone⟩ := ih (a.failedAt now) (s := SyncClient.closeSocket s)
        (by rw [SyncClient.closeSocket_threads]; exact hi)
      refine ⟨t, run_cons_eq_some.mpr ⟨_, hretry, ht⟩, ?_⟩
      cases he : connectLoop connectTimeout beginTime (a.failedAt now) as <;>
        simpa [he, Done, SyncClient.closeSocket_next] using hdone

end Czrpc.ConnectLoop
