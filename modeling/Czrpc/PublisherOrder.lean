import Czrpc.Publishers

/-! What the publishers post to a connection that is held under their topics: every thread
posts what it publishes, once and in its own order. -/
namespace Czrpc.Publishers
open Execution Framing Protocol ServerWrites
open Dispatch (Protobuf)

variable {C H : Type*} {M D : Type} {n : ℕ} [DecidableEq C] {pb : Protobuf M D}

theorem nodup_addTopic {alive : C → Bool} {tm : TopicManager C} {c : C} (h : alive c = true)
    (hn : tm.topicMap.Nodup) (topicName : Bytes) : (tm.addTopic alive topicName c).topicMap.Nodup := by
  unfold TopicManager.addTopic
  split_ifs with hany
  · exact hn
  · refine hn.append (List.nodup_singleton _) (List.disjoint_singleton.mpr ?_)
    intro hm
    refine hany (List.any_eq_true.mpr ⟨_, hm, ?_⟩)
    simp [(TopicManager.lock_eq_some_iff h c).mpr rfl]

theorem nodup_step {s t : Server.State C n} {a : Server.Action C n}
    (hs : s.topics.topicMap.Nodup) (h : Server.step s a = some t) : t.topics.topicMap.Nodup := by
  have herror : ∀ (u : Server.State C n) (c : C) (type : ClientType) (expired : List C),
      u.topics.topicMap.Nodup → (Server.handleError u c type expired).topics.topicMap.Nodup := by
    intro u c type expired hu
    unfold Server.handleError
    split
    · exact hu.filter _
    · exact hu
  cases Server.step_effect h with
  | accept | headRead | contentRead | take => exact hs
  | headFailed | contentFailed => exact herror _ _ _ _ hs
  | @execute w expired c content pool hp he =>
    simp only [TopicManager.routerThread_eq]
    split
    · exact nodup_addTopic (by simpa using he) hs _
    · exact hs.filter _
    · exact hs

theorem count_getConnectionByTopic {tm : TopicManager C} (hn : tm.topicMap.Nodup) (c : C)
    (topicName : Bytes) : (tm.getConnectionByTopic topicName).count c ≤ 1 := by
  refine List.nodup_iff_count_le_one.mp ?_ c
  refine List.Nodup.map_on ?_ (hn.filter _)
  rintro ⟨t, d⟩ hd ⟨u, e⟩ he (rfl : d = e)
  have ht : t = topicName := by simpa using (List.mem_filter.mp hd).2
  have hu : u = topicName := by simpa using (List.mem_filter.mp he).2
  rw [ht, hu]

theorem mem_getConnectionByTopic {tm : TopicManager C} {c : C} {topicName : Bytes}
    (h : tm.holds c topicName = true) : c ∈ tm.getConnectionByTopic topicName := by
  have hm : (topicName, c) ∈ tm.topicMap := by simpa [TopicManager.holds] using h
  exact List.mem_map.mpr ⟨_, List.mem_filter.mpr ⟨hm, by simp⟩, rfl⟩

def ofThread (t : ℕ) (log : List (ℕ × Item M)) : List (Item M) :=
  (log.filter fun e => e.1 = t).map Prod.snd

theorem ofThread_append (t : ℕ) (as bs : List (ℕ × Item M)) :
    ofThread t (as ++ bs) = ofThread t as ++ ofThread t bs := by
  simp [ofThread]

theorem ofThread_single (t u : ℕ) (item : Item M) :
    ofThread t [(u, item)] = if u = t then [item] else [] := by
  unfold ofThread
  split_ifs with h <;> simp [h]

/-- What a thread has published and not yet posted to the connection. -/
def pending (c : C) (s : State C H M n) (t : ℕ) : List (Item M) :=
  match s.server.publishing t with
  | some (_, conns) => if c ∈ conns then (s.current t).toList else []
  | none => []

/-- The push can be sent, and its receiver makes the item of it. -/
def Carries (pb : Protobuf M D) (content : PushContent) (item : Item M) : Prop :=
  content.Fits ∧ decode pb content = some item

/-- Every thread posts what it publishes, once and in its order, and nothing else is posted to
the connection. -/
structure Inv (pb : Protobuf M D) (c : C) (s : State C H M n) : Prop where
  server : ServerWrites.Inv s.server
  nodup : s.server.core.topics.topicMap.Nodup
  subscriber : ∀ content, (c, content) ∈ s.server.core.routed → content.flag.type = .subClient
  loops : ∀ t call, s.server.publishing t = some call → call.2.count c ≤ 1 ∧
    (c ∈ call.2 → ∃ item, s.current t = some item ∧ (t, item) ∈ s.calls ∧ Carries pb call.1 item)
  frames : ∃ cs : List PushContent, framesTo c s.server.written = cs.map .push ∧
    (∀ content ∈ cs, content.Fits) ∧ cs.map (decode pb) = s.posts.map fun e => some e.2
  calls : ∀ t, ofThread t s.calls = ofThread t s.posts ++ pending c s t
  posts : s.posts ⊆ s.calls

theorem initial_inv (c : C) : Inv pb c (initial : State C H M n) where
  server := ServerWrites.initial_inv
  nodup := List.nodup_nil
  subscriber content h := by cases h
  loops t call h := by cases h
  frames := ⟨[], rfl, by simp, rfl⟩
  calls t := rfl
  posts := List.Subset.refl _

theorem Inv.not_caller {c : C} {s : State C H M n} (h : Inv pb c s) : ¬ Caller s.server.core c := by
  rintro ⟨content, hm, hcall⟩
  exact isCall_not_subClient hcall (h.subscriber content hm)

theorem Inv.quiet {c : C} {s : State C H M n} (hs : Inv pb c s) {server : ServerWrites.State C H n}
    (hinv : ServerWrites.Inv server) (hnodup : server.core.topics.topicMap.Nodup)
    (hsub : ∀ content, (c, content) ∈ server.core.routed → content.flag.type = .subClient)
    (hp : server.publishing = s.server.publishing)
    (hw : framesTo c server.written = framesTo c s.server.written) :
    Inv pb c { s with server := server } where
  server := hinv
  nodup := hnodup
  subscriber := hsub
  loops t call h := hs.loops t call (hp ▸ h)
  frames := by
    obtain ⟨cs, hcs, hall⟩ := hs.frames
    exact ⟨cs, hw.trans hcs, hall⟩
  calls t := by
    have h := hs.calls t
    simpa only [pending, hp] using h
  posts := hs.posts

theorem Inv.start {c : C} {s : State C H M n} (hs : Inv pb c s) {t : ℕ} {content : PushContent}
    {item : Item M} (ht : s.server.publishing t = none) (hcarries : Carries pb content item)
    (hholds : s.server.core.topics.holds c content.protocol = true)
    (hinv : ServerWrites.Inv (startCall s.server t content)) :
    Inv pb c ⟨startCall s.server t content, Function.update s.current t (some item),
      s.calls ++ [(t, item)], s.posts⟩ := by
  refine ⟨hinv, hs.nodup, hs.subscriber, ?_, hs.frames, ?_, ?_⟩
  · intro u call hu
    by_cases hut : u = t
    · subst u
      simp only [startCall, setCall, Function.update_self, Option.some.injEq] at hu ⊢
      subst call
      exact ⟨count_getConnectionByTopic hs.nodup c _, fun _ => ⟨item, rfl, by simp, hcarries⟩⟩
    · simp only [startCall, setCall, Function.update_of_ne hut] at hu ⊢
      obtain ⟨hcount, hcall⟩ := hs.loops u call hu
      refine ⟨hcount, fun hc => ?_⟩
      obtain ⟨other, hcurrent, hm, hother⟩ := hcall hc
      exact ⟨other, hcurrent, List.mem_append_left _ hm, hother⟩
  · intro u
    have hcalls := hs.calls u
    rw [ofThread_append, ofThread_single]
    by_cases hut : u = t
    · subst u
      simp only [pending, ht, List.append_nil] at hcalls
      simp [hcalls, pending, startCall, setCall, mem_getConnectionByTopic hholds]
    · simp only [if_neg (Ne.symm hut), List.append_nil, hcalls, pending, startCall, setCall,
        Function.update_of_ne hut]
  · exact fun e he => List.mem_append_left _ (hs.posts he)

theorem Inv.advance {c : C} {s : State C H M n} (hs : Inv pb c s) {t : ℕ} {content : PushContent}
    {conns : List C} (call : Option (PushContent × List C))
    (ht : s.server.publishing t = some (content, conns))
    (hcall : ∀ next, call = some next → next.1 = content ∧ next.2.count c = conns.count c)
    (hend : call = none → c ∉ conns) (hinv : ServerWrites.Inv (setCall s.server t call)) :
    Inv pb c { s with server := setCall s.server t call } := by
  have hmem : ∀ next, call = some next → (c ∈ next.2 ↔ c ∈ conns) := by
    intro next hnext
    rw [← List.count_pos_iff, ← List.count_pos_iff, (hcall next hnext).2]
  obtain ⟨hcount, hpublished⟩ := hs.loops t _ ht
  refine ⟨hinv, hs.nodup, hs.subscriber, ?_, hs.frames, ?_, hs.posts⟩
  · intro u other hu
    by_cases hut : u = t
    · subst u
      simp only [setCall, Function.update_self] at hu
      obtain ⟨hcontent, hsame⟩ := hcall other hu
      rw [hcontent, hsame]
      exact ⟨hcount, fun hc => hpublished ((hmem other hu).mp hc)⟩
    · simp only [setCall, Function.update_of_ne hut] at hu
      exact hs.loops u other hu
  · intro u
    have hcalls := hs.calls u
    by_cases hut : u = t
    · subst u
      cases hc : call with
      | none => simpa [pending, setCall, ht, hend hc] using hcalls
      | some next =>
        obtain ⟨nextContent, nextConns⟩ := next
        have hiff := hmem _ hc
        simp only [pending, ht] at hcalls
        simpa only [pending, setCall, Function.update_self, hiff] using hcalls
    · simpa only [pending, setCall, Function.update_of_ne hut] using hcalls

theorem Inv.posted {c : C} {s : State C H M n} (hs : Inv pb c s) {t : ℕ} {content : PushContent}
    {rest : List C} {item : Item M} (ht : s.server.publishing t = some (content, c :: rest))
    (hcurrent : s.current t = some item)
    (hinv : ServerWrites.Inv
      (asyncWrite (setCall s.server t (some (content, rest))) c (.push content))) :
    Inv pb c { s with
      server := asyncWrite (setCall s.server t (some (content, rest))) c (.push content)
      posts := s.posts ++ [(t, item)] } := by
  obtain ⟨hcount, hpublished⟩ := hs.loops t _ ht
  obtain ⟨published, hpub, hmem, hcarries⟩ := hpublished List.mem_cons_self
  obtain rfl : published = item := Option.some.inj (hpub.symm.trans hcurrent)
  have hgone : c ∉ rest := by
    rw [List.count_cons_self] at hcount
    exact List.count_eq_zero.mp (by omega)
  refine ⟨hinv, hs.nodup, hs.subscriber, ?_, ?_, ?_, ?_⟩
  · intro u other hu
    by_cases hut : u = t
    · subst u
      simp only [asyncWrite, setCall, Function.update_self, Option.some.injEq] at hu
      subst other
      exact ⟨by simp [List.count_eq_zero.mpr hgone], fun hc => absurd hc hgone⟩
    · simp only [asyncWrite, setCall, Function.update_of_ne hut] at hu
      exact hs.loops u other hu
  · obtain ⟨cs, hcs, hfits, hall⟩ := hs.frames
    refine ⟨cs ++ [content], ?_, ?_, ?_⟩
    · have hone : framesTo c [(c, Frame.push content)] = [.push content] := by simp [framesTo]
      simp only [asyncWrite, setCall, framesTo_append, hcs, hone, List.map_append, List.map_singleton]
    · intro x hx
      rcases List.mem_append.mp hx with hx | hx
      · exact hfits x hx
      · rw [List.mem_singleton.mp hx]
        exact hcarries.1
    · rw [List.map_append, List.map_append, hall]
      simp [hcarries.2]
  · intro u
    have hcalls := hs.calls u
    rw [ofThread_append, ofThread_single]
    by_cases hut : u = t
    · subst u
      simp only [pending, ht, List.mem_cons_self, if_true, hcurrent, Option.toList_some] at hcalls
      simp [hcalls, pending, asyncWrite, setCall, hgone]
    · simpa only [if_neg (Ne.symm hut), List.append_nil, pending, asyncWrite, setCall,
        Function.update_of_ne hut] using hcalls
  · intro e he
    rcases List.mem_append.mp he with he | he
    · exact hs.posts he
    · obtain rfl := List.mem_singleton.mp he
      exact hmem

theorem decode_messagePush (hlaw : pb.Lawful) {message : M} (hreg : pb.Registered message)
    (hinit : pb.isInitialized message = true) (topicName : Bytes) :
    decode pb (messagePush pb topicName message) = some (topicName, .message message) := by
  simp only [decode, messagePush, if_true, hlaw.deserialize_serialize hreg hinit]

theorem decode_publishRaw (topicName data : Bytes) :
    decode pb (publishRawContent topicName data) = some (topicName, .raw data) := by
  simp only [decode, publishRawContent, if_true]
  rw [if_neg (by decide)]

omit [DecidableEq C] in
theorem entered_ofHandlers {a : ServerWrites.Action C H M n} (h : ofHandlers a = true) :
    entered pb a = none := by
  cases a <;> first | rfl | cases h

theorem posting_ofHandlers {a : ServerWrites.Action C H M n} (h : ofHandlers a = true) (c : C)
    (s : State C H M n) : posting c s a = none := by
  cases a <;> first | rfl | cases h

theorem routed_step {s t : Server.State C n} {a : Server.Action C n} {e : C × RequestContent}
    (h : Server.step s a = some t) (he : e ∈ t.routed) : e ∈ s.routed ∨ a = .contentRead e.1 e.2 := by
  cases Server.step_effect h with
  | accept | headRead | take | execute => exact Or.inl he
  | headFailed | contentFailed =>
    rw [Server.handleError_routed] at he
    exact Or.inl he
  | contentRead =>
    rcases List.mem_append.mp he with he | he
    · exact Or.inl he
    · obtain rfl := List.mem_singleton.mp he
      exact Or.inr rfl

theorem Inv.posted_elsewhere {c : C} {s : State C H M n} (hs : Inv pb c s) {t : ℕ}
    {content : PushContent} {d : C} {rest : List C}
    (ht : s.server.publishing t = some (content, d :: rest)) (hd : d ≠ c)
    (hinv : ServerWrites.Inv
      (asyncWrite (setCall s.server t (some (content, rest))) d (.push content))) :
    Inv pb c { s with
      server := asyncWrite (setCall s.server t (some (content, rest))) d (.push content) } := by
  have hset : ServerWrites.Inv (setCall s.server t (some (content, rest))) := by
    refine hs.server.setPublishing t ?_
    intro next hnext e he
    obtain rfl := Option.some.inj hnext
    exact hs.server.publishing t _ ht e (List.mem_cons_of_mem _ he)
  have hadvance := hs.advance (some (content, rest)) ht (by simp [hd]) (by simp) hset
  have hnone : framesTo c [(d, Frame.push content)] = [] := by simp [framesTo, hd]
  refine hadvance.quiet hinv hadvance.nodup hadvance.subscriber rfl ?_
  simp only [asyncWrite, framesTo_append, hnone, List.append_nil]

theorem step_inv (hlaw : pb.Lawful) {c : C} {s s' : State C H M n} {a : ServerWrites.Action C H M n}
    (hs : Inv pb c s) (hserved : Served pb c s a) (hsized : Sized pb a)
    (h : step pb c s a = some s') : Inv pb c s' := by
  obtain ⟨server, hserver, rfl⟩ := Option.map_eq_some_iff.mp h
  have hinv := ServerWrites.step_inv hs.server hserver
  cases step_change hs.server hserver with
  | @core b server hcore hp hw =>
    have hsub : ∀ content, (c, content) ∈ server.core.routed → content.flag.type = .subClient := by
      intro content hm
      rcases routed_step hcore hm with hm | rfl
      · exact hs.subscriber content hm
      · exact hserved rfl
    have hquiet := hs.quiet hinv (nodup_step hs.nodup hcore) hsub hp (by rw [hw])
    simpa [entered, enter, posting] using hquiet
  | @handlers b server new ha hc hp hw hnew =>
    have hnone : framesTo c new = [] := by
      simp only [framesTo, List.map_eq_nil_iff, List.filter_eq_nil_iff, decide_eq_true_eq]
      rintro e he rfl
      exact hs.not_caller (hnew e he)
    have hquiet := hs.quiet hinv (hc ▸ hs.nodup) (hc ▸ hs.subscriber) hp
      (by rw [hw, framesTo_append, hnone, List.append_nil])
    simpa [entered_ofHandlers ha, posting_ofHandlers ha, enter] using hquiet
  | @threw t topicName message hm =>
    have hentered : entered pb (.publish t topicName message : ServerWrites.Action C H M n) = none := by
      cases message with
      | none => rfl
      | some m => simp [entered, hm m rfl]
    simpa [hentered, enter, posting] using hs
  | @publish t topicName message ht hi =>
    obtain ⟨hholds, hreg⟩ := hserved message rfl hi
    have hcarries : Carries pb (messagePush pb topicName message) (topicName, .message message) :=
      ⟨hsized message rfl, decode_messagePush hlaw hreg hi topicName⟩
    have hstart := hs.start ht hcarries hholds hinv
    simpa [entered, enter, posting, hi] using hstart
  | @publishRaw t topicName message ht =>
    have hstart := hs.start ht ⟨hsized, decode_publishRaw topicName message⟩ hserved hinv
    simpa [entered, enter, posting] using hstart
  | @expired t content d rest ht =>
    have hother : d ≠ c := by
      rintro rfl
      cases hserved _ ht rfl
    have hadvance := hs.advance (some (content, rest)) ht (by simp [hother])
      (by simp) hinv
    simpa [entered, enter, posting] using hadvance
  | @push t content d rest ht =>
    by_cases hd : d = c
    · subst d
      obtain ⟨item, hcurrent, -⟩ := (hs.loops t _ ht).2 List.mem_cons_self
      have hposted := hs.posted ht hcurrent hinv
      simpa [entered, enter, posting, ht, hcurrent] using hposted
    · have hposted := hs.posted_elsewhere ht hd hinv
      simpa [entered, enter, posting, ht, hd] using hposted
  | @ended t content ht =>
    have hadvance := hs.advance none ht (by simp) (by simp) hinv
    simpa [entered, enter, posting] using hadvance

end Czrpc.Publishers
