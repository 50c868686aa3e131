import Czrpc.IoServicePool

/-! How a server comes to its connections: each `tcp_endpoint` chooses an `io_service` for its
acceptor, and then its `accept` chooses one for a new connection object, waits for a client on it,
starts it unless there was an error, and begins again. The handlers of the endpoints run on the
io threads, and all of them choose through the one pool. -/
namespace Czrpc.Acceptor
open Execution

variable {E : ℕ}

/-- Where an endpoint stands. `chose` is inside or just after the call of `get_io_service`, whose
first access has told the service; `first` tells the constructor's call from that of `accept`. -/
inductive Pc
  | constructing
  | making
  | chose (first : Bool) (service : ℕ)
  | waiting (conn : ℕ)
  deriving DecidableEq, Repr

/-- A connection object is its position in `services`, which tells the service of each.
`started` are the objects that were started and `refused` those whose accept failed. -/
structure State (E : ℕ) where
  pool : IoServicePool.State (Fin E)
  endpoints : Fin E → Pc
  services : List ℕ
  started : List ℕ
  refused : List ℕ

def initial : State E := ⟨IoServicePool.initial, fun _ => .constructing, [], [], []⟩

inductive Action (E : ℕ)
  | pool (a : IoServicePool.Action (Fin E))
  | proceed (e : Fin E)
  | complete (e : Fin E) (ec : Bool)

def Pc.access (nextIoService : ℕ) : IoServicePool.Action (Fin E) → Pc → Option Pc
  | .index _, .constructing => some (.chose true nextIoService)
  | .index _, .making => some (.chose false nextIoService)
  | .index _, _ => none
  | _, .chose first service => some (.chose first service)
  | _, _ => none

def setEndpoint (s : State E) (e : Fin E) (pc : Pc) : State E :=
  { s with endpoints := Function.update s.endpoints e pc }

def step (size : ℕ) (s : State E) : Action E → Option (State E)
  | .pool a =>
    (Pc.access s.pool.nextIoService a (s.endpoints a.thread)).bind fun pc =>
      (IoServicePool.step size s.pool a).map fun pool =>
        { setEndpoint s a.thread pc with pool := pool }
  | .proceed e =>
    match s.endpoints e, s.pool.threads e with
    | .chose true _, .idle => some (setEndpoint s e .making)
    | .chose false service, .idle =>
      some { setEndpoint s e (.waiting s.services.length) with services := s.services ++ [service] }
    | _, _ => none
  | .complete e ec =>
    match s.endpoints e with
    | .waiting conn =>
      if ec then some { setEndpoint s e .making with refused := s.refused ++ [conn] }
      else some { setEndpoint s e .making with started := s.started ++ [conn] }
    | _ => none

inductive Effect (size : ℕ) (s : State E) : Action E → State E → Prop
  | pool {a : IoServicePool.Action (Fin E)} {pc : Pc} {pool : IoServicePool.State (Fin E)}
      (hpc : Pc.access s.pool.nextIoService a (s.endpoints a.thread) = some pc)
      (hpool : IoServicePool.step size s.pool a = some pool) :
      Effect size s (.pool a) { setEndpoint s a.thread pc with pool := pool }
  | constructed {e : Fin E} {service : ℕ} (he : s.endpoints e = .chose true service) :
      Effect size s (.proceed e) (setEndpoint s e .making)
  | made {e : Fin E} {service : ℕ} (he : s.endpoints e = .chose false service) :
      Effect size s (.proceed e) { setEndpoint s e (.waiting s.services.length) with
        services := s.services ++ [service] }
  | refuse {e : Fin E} {conn : ℕ} (he : s.endpoints e = .waiting conn) :
      Effect size s (.complete e true) { setEndpoint s e .making with
        refused := s.refused ++ [conn] }
  | start {e : Fin E} {conn : ℕ} (he : s.endpoints e = .waiting conn) :
      Effect size s (.complete e false) { setEndpoint s e .making with
        started := s.started ++ [conn] }

theorem step_effect {size : ℕ} {s t : State E} {a : Action E} (h : step size s a = some t) :
    Effect size s a t := by
  cases a with
  | pool a =>
    obtain ⟨pc, hpc, h⟩ := Option.bind_eq_some_iff.mp h
    obtain ⟨pool, hpool, rfl⟩ := Option.map_eq_some_iff.mp h
    exact .pool hpc hpool
  | proceed e =>
    simp only [step] at h
    split at h
    · obtain rfl := Option.some.inj h
      exact .constructed ‹_›
    · obtain rfl := Option.some.inj h
      exact .made ‹_›
    · cases h
  | complete e ec =>
    simp only [step] at h
    split at h
    · cases ec <;> obtain rfl := Option.some.inj h
      · exact .start ‹_›
      · exact .refuse ‹_›
    · cases h

/-- The objects that are done with, and the one each endpoint waits on, are all there are, and
no object is two of these. -/
structure Inv (s : State E) : Prop where
  once : (s.started ++ s.refused).Nodup
  known : ∀ c ∈ s.started ++ s.refused, c < s.services.length
  waiting : ∀ e c, s.endpoints e = .waiting c → c < s.services.length ∧
    c ∉ s.started ++ s.refused ∧ ∀ f, s.endpoints f = .waiting c → f = e
  all : ∀ c < s.services.length, c ∈ s.started ++ s.refused ∨ ∃ e, s.endpoints e = .waiting c

theorem initial_inv : Inv (initial : State E) where
  once := List.nodup_nil
  known := nofun
  waiting := nofun
  all := nofun

theorem setEndpoint_waiting {s : State E} {e f : Fin E} {pc : Pc} {c : ℕ}
    (hpc : ∀ d, pc ≠ .waiting d) (h : (setEndpoint s e pc).endpoints f = .waiting c) :
    f ≠ e ∧ s.endpoints f = .waiting c := by
  by_cases hf : f = e
  · subst hf
    exact absurd ((Function.update_self _ _ _).symm.trans h) (hpc c)
  · exact ⟨hf, (Function.update_of_ne hf _ _).symm.trans h⟩

theorem Inv.move {s : State E} (hs : Inv s) {e : Fin E} {pc : Pc}
    (hbefore : ∀ c, s.endpoints e ≠ .waiting c) (hpc : ∀ c, pc ≠ .waiting c)
    (pool : IoServicePool.State (Fin E)) : Inv { setEndpoint s e pc with pool := pool } := by
  refine ⟨hs.once, hs.known, ?_, ?_⟩
  · intro f c hf
    obtain ⟨-, hf⟩ := setEndpoint_waiting hpc hf
    obtain ⟨hlt, hnot, honly⟩ := hs.waiting f c hf
    exact ⟨hlt, hnot, fun g hg => honly g (setEndpoint_waiting hpc hg).2⟩
  · intro c hc
    rcases hs.all c hc with hdone | ⟨f, hf⟩
    · exact Or.inl hdone
    · have hne : f ≠ e := fun he => hbefore c (he ▸ hf)
      exact Or.inr ⟨f, (Function.update_of_ne hne _ _).trans hf⟩

theorem access_waiting {next : ℕ} {a : IoServicePool.Action (Fin E)} {pc pc' : Pc}
    (h : Pc.access next a pc = some pc') :
    (∀ c, pc ≠ .waiting c) ∧ ∀ c, pc' ≠ .waiting c := by
  cases a <;> cases pc <;> cases h <;> exact ⟨nofun, nofun⟩

theorem Inv.made {s : State E} (hs : Inv s) {e : Fin E} {service : ℕ}
    (he : ∀ c, s.endpoints e ≠ .waiting c) :
    Inv { setEndpoint s e (.waiting s.services.length) with
      services := s.services ++ [service] } := by
  have hlength : (s.services ++ [service]).length = s.services.length + 1 := by simp
  have hnew : (setEndpoint s e (.waiting s.services.length)).endpoints e =
      .waiting s.services.length := Function.update_self _ _ _
  have hold : ∀ {f c}, f ≠ e →
      ((setEndpoint s e (.waiting s.services.length)).endpoints f = .waiting c ↔
        s.endpoints f = .waiting c) := by
    intro f c hf
    exact iff_of_eq (congrArg (· = Pc.waiting c) (Function.update_of_ne hf _ _))
  refine ⟨hs.once, ?_, ?_, ?_⟩
  · intro c hc
    have hlt := hs.known c hc
    dsimp only
    omega
  · intro f c hf
    dsimp only at hf ⊢
    by_cases hfe : f = e
    · subst hfe
      obtain rfl : s.services.length = c := by
        rw [hnew] at hf
        exact Pc.waiting.inj hf
      refine ⟨by omega, fun hmem => absurd (hs.known _ hmem) (Nat.lt_irrefl _), ?_⟩
      intro g hg
      by_contra hgf
      exact absurd (hs.waiting g _ ((hold hgf).mp hg)).1 (Nat.lt_irrefl _)
    · obtain ⟨hlt, hnot, honly⟩ := hs.waiting f c ((hold hfe).mp hf)
      refine ⟨by omega, hnot, ?_⟩
      intro g hg
      by_cases hge : g = e
      · subst hge
        obtain rfl : s.services.length = c := by
          rw [hnew] at hg
          exact Pc.waiting.inj hg
        exact absurd hlt (Nat.lt_irrefl _)
      · exact honly g ((hold hge).mp hg)
  · intro c hc
    dsimp only at hc ⊢
    by_cases hlast : c = s.services.length
    · exact Or.inr ⟨e, hlast ▸ hnew⟩
    · rcases hs.all c (by omega) with hdone | ⟨f, hf⟩
      · exact Or.inl hdone
      · have hne : f ≠ e := fun h => he c (h ▸ hf)
        exact Or.inr ⟨f, (hold hne).mpr hf⟩

theorem Inv.done {s : State E} (hs : Inv s) {e : Fin E} {conn : ℕ}
    (he : s.endpoints e = .waiting conn) {started refused : List ℕ}
    (hperm : (started ++ refused).Perm (conn :: (s.started ++ s.refused))) :
    Inv { setEndpoint s e .making with started := started, refused := refused } := by
  obtain ⟨hlt, hnot, honly⟩ := hs.waiting e conn he
  have hmaking : ∀ c, Pc.making ≠ .waiting c := nofun
  have hmem : ∀ c, c ∈ started ++ refused ↔ c = conn ∨ c ∈ s.started ++ s.refused := by
    intro c
    rw [hperm.mem_iff, List.mem_cons]
  refine ⟨hperm.nodup_iff.mpr (List.nodup_cons.mpr ⟨hnot, hs.once⟩), ?_, ?_, ?_⟩
  · intro c hc
    rcases (hmem c).mp hc with rfl | hc
    · exact hlt
    · exact hs.known c hc
  · intro f c hf
    obtain ⟨hfe, hf⟩ := setEndpoint_waiting hmaking hf
    obtain ⟨hc, hcnot, hconly⟩ := hs.waiting f c hf
    refine ⟨hc, ?_, fun g hg => hconly g (setEndpoint_waiting hmaking hg).2⟩
    intro hin
    rcases (hmem c).mp hin with rfl | hin
    · exact hfe (honly f hf)
    · exact hcnot hin
  · intro c hc
    by_cases hcc : c = conn
    · exact Or.inl ((hmem c).mpr (Or.inl hcc))
    · rcases hs.all c hc with hdone | ⟨f, hf⟩
      · exact Or.inl ((hmem c).mpr (Or.inr hdone))
      · have hne : f ≠ e := by
          rintro rfl
          rw [he] at hf
          exact hcc (Pc.waiting.inj hf).symm
        exact Or.inr ⟨f, (Function.update_of_ne hne _ _).trans hf⟩

theorem step_inv {size : ℕ} {s t : State E} {a : Action E} (hs : Inv s)
    (h : step size s a = some t) : Inv t := by
  cases step_effect h with
  | pool hpc hpool => exact hs.move (access_waiting hpc).1 (access_waiting hpc).2 _
  | constructed he =>
    have hmaking : ∀ c, Pc.making ≠ .waiting c := nofun
    exact hs.move (by rw [he]; nofun) hmaking s.pool
  | made he => exact hs.made (by rw [he]; nofun)
  | refuse he =>
    refine hs.done he ?_
    rw [← List.append_assoc]
    exact List.perm_append_singleton _ _
  | start he =>
    refine hs.done he ?_
    rw [List.append_assoc, List.singleton_append]
    exact List.perm_middle

/-- In every run, whatever the order of the endpoints' steps and whichever accepts fail, each
connection object is waited on by exactly one endpoint, or it was started once, or its accept
failed once, and these are all the objects that were made. -/
theorem accepted_once (size : ℕ) {as : List (Action E)} {s : State E}
    (hr : run (step size) initial as = some s) :
    (s.started ++ s.refused).Nodup ∧ (∀ c ∈ s.started ++ s.refused, c < s.services.length) ∧
    (∀ e c, s.endpoints e = .waiting c → c < s.services.length ∧ c ∉ s.started ++ s.refused ∧
      ∀ f, s.endpoints f = .waiting c → f = e) ∧
    ∀ c < s.services.length, c ∈ s.started ++ s.refused ∨ ∃ e, s.endpoints e = .waiting c := by
  have hinv : Inv s := run_invariant (fun _ _ _ => step_inv) initial_inv hr
  exact ⟨hinv.once, hinv.known, hinv.waiting, hinv.all⟩

def soleEndpoint : Fin 1 := ⟨0, Nat.one_pos⟩

def choose (wraps : Bool) : List (Action 1) :=
  [.pool (.index soleEndpoint), .pool (.increment soleEndpoint), .pool (.compare soleEndpoint)] ++
    (if wraps then [.pool (.reset soleEndpoint)] else []) ++ [.proceed soleEndpoint]

/-- With two services: one client is accepted, one accept fails, and the endpoint waits again. -/
def twoAccepts : List (Action 1) :=
  choose false ++ choose true ++ [.complete soleEndpoint false] ++ choose false ++
    [.complete soleEndpoint true] ++ choose true

theorem accepted_once_two : ∃ s : State 1, run (step 2) initial twoAccepts = some s ∧
    s.started = [0] ∧ s.refused = [1] ∧ ∃ e, s.endpoints e = .waiting 2 := by
  have hrun : (run (step 2) initial twoAccepts).map (fun s => (s.started, s.refused, s.services)) =
      some ([0], [1], [1, 0, 1]) := by decide +kernel
  obtain ⟨s, hs, he⟩ := Option.map_eq_some_iff.mp hrun
  simp only [Prod.mk.injEq] at he
  obtain ⟨hstarted, hrefused, hservices⟩ := he
  have hlast := (accepted_once 2 hs).2.2.2 2 (by rw [hservices]; decide)
  rw [hstarted, hrefused] at hlast
  exact ⟨s, hs, hstarted, hrefused, hlast.resolve_left (by decide)⟩

/-- No other call of `get_io_service` is under way. -/
def Solo (s : State E) : Action E → Prop
  | .pool a => ∀ f, f ≠ a.thread → s.pool.threads f = .idle
  | _ => True

instance (s : State E) : (a : Action E) → Decidable (Solo s a)
  | .pool a => inferInstanceAs (Decidable (∀ f, f ≠ a.thread → s.pool.threads f = .idle))
  | .proceed _ | .complete _ _ => .isTrue trivial

/-- Every service has been used `rounds` times, and those below `level` once more. -/
def Even (size level : ℕ) (used : List ℕ) : Prop :=
  ∃ rounds, ∀ i < size, used.count i = rounds + if i < level then 1 else 0

theorem Even.count_le {size level : ℕ} {used : List ℕ} (h : Even size level used) {i j : ℕ}
    (hi : i < size) (hj : j < size) : used.count i ≤ used.count j + 1 := by
  obtain ⟨rounds, hcount⟩ := h
  rw [hcount i hi, hcount j hj]
  split_ifs <;> omega

theorem Even.use {size level : ℕ} {used : List ℕ} (h : Even size level used) :
    Even size (level + 1) (used ++ [level]) := by
  obtain ⟨rounds, hcount⟩ := h
  refine ⟨rounds, ?_⟩
  intro i hi
  rw [List.count_append, hcount i hi, List.count_singleton]
  by_cases hlevel : level = i
  · simp [hlevel]
  · have hiff : i < level + 1 ↔ i < level := by omega
    simp [hlevel, hiff]

theorem Even.wrap {size : ℕ} {used : List ℕ} (h : Even size size used) : Even size 0 used := by
  obtain ⟨rounds, hcount⟩ := h
  refine ⟨rounds + 1, ?_⟩
  intro i hi
  rw [hcount i hi, if_pos hi, if_neg (Nat.not_lt_zero i)]

def Fair (size : ℕ) (pc : IoServicePool.Pc) (nextIoService : ℕ) (used : List ℕ) : Prop :=
  match pc with
  | .idle => nextIoService < size ∧ Even size nextIoService used
  | .indexed => nextIoService < size ∧ Even size (nextIoService + 1) used
  | .incremented => nextIoService ≤ size ∧ Even size nextIoService used
  | .resetting => nextIoService = size ∧ Even size nextIoService used

theorem Fair.even {size : ℕ} {pc : IoServicePool.Pc} {nextIoService : ℕ} {used : List ℕ}
    (h : Fair size pc nextIoService used) : ∃ level, Even size level used := by
  cases pc <;> exact ⟨_, h.2⟩

structure Balanced (size : ℕ) (pool : IoServicePool.State (Fin E)) : Prop where
  even : ∃ level, Even size level pool.used
  fair : ∀ e, (∀ f, f ≠ e → pool.threads f = .idle) →
    Fair size (pool.threads e) pool.nextIoService pool.used

theorem initial_balanced {size : ℕ} (hsize : 0 < size) :
    Balanced size (IoServicePool.initial : IoServicePool.State (Fin E)) := by
  have heven : Even size 0 [] := ⟨0, by simp⟩
  exact ⟨⟨0, heven⟩, fun _ _ => ⟨hsize, heven⟩⟩

theorem Balanced.of_fair {size : ℕ} {s t : IoServicePool.State (Fin E)} {e : Fin E}
    {pc : IoServicePool.Pc} (hsolo : ∀ f, f ≠ e → s.threads f = .idle)
    (ht : t.threads = Function.update s.threads e pc)
    (h : Fair size pc t.nextIoService t.used) : Balanced size t := by
  refine ⟨h.even, ?_⟩
  intro f hf
  rw [ht] at hf ⊢
  by_cases hfe : f = e
  · rw [hfe, Function.update_self]
    exact h
  · have he : pc = .idle := (Function.update_self _ _ _).symm.trans (hf e (Ne.symm hfe))
    rw [Function.update_of_ne hfe, hsolo f hfe, ← he]
    exact h

theorem pool_balanced {size : ℕ} (hsize : 0 < size) {s t : IoServicePool.State (Fin E)}
    {a : IoServicePool.Action (Fin E)} (hs : Balanced size s)
    (hsolo : ∀ f, f ≠ a.thread → s.threads f = .idle)
    (h : IoServicePool.step size s a = some t) : Balanced size t := by
  have hfair := hs.fair a.thread hsolo
  cases IoServicePool.step_effect h with
  | index he =>
    simp only [IoServicePool.Action.thread, he, Fair] at hfair
    exact .of_fair hsolo rfl ⟨hfair.1, hfair.2.use⟩
  | increment he =>
    simp only [IoServicePool.Action.thread, he, Fair] at hfair
    exact .of_fair hsolo rfl ⟨hfair.1, hfair.2⟩
  | atEnd he hn =>
    simp only [IoServicePool.Action.thread, he, Fair] at hfair
    exact .of_fair hsolo rfl ⟨hn, hfair.2⟩
  | inside he hn =>
    simp only [IoServicePool.Action.thread, he, Fair] at hfair
    exact .of_fair hsolo rfl ⟨Nat.lt_of_le_of_ne hfair.1 hn, hfair.2⟩
  | reset he =>
    simp only [IoServicePool.Action.thread, he, Fair] at hfair
    obtain ⟨hn, heven⟩ := hfair
    rw [hn] at heven
    exact .of_fair hsolo rfl ⟨hsize, heven.wrap⟩

theorem step_balanced {size : ℕ} (hsize : 0 < size) {s t : State E} {a : Action E}
    (hs : Balanced size s.pool) (hok : Solo s a) (h : step size s a = some t) :
    Balanced size t.pool := by
  cases step_effect h with
  | pool hpc hpool => exact pool_balanced hsize hs hok hpool
  | constructed | made | refuse | start => exact hs

end Czrpc.Acceptor
