import Catalyrst.Lib.Presence
import Catalyrst.Pulse.Simulation

/-!
# What one observer is told in one tick

A view promises that its subject was announced to the observer. It may also be
out of date: its subject's slot is not active, or belongs to another wallet now.
Serving an observer keeps that promise and reports only on announced subjects.
-/

namespace Catalyrst.Pulse
open Catalyrst.Lib Catalyrst.Lib.Presence

namespace ServerMessage

/-- The subject that a message announces. -/
def joins : ServerMessage → Option U32
  | .playerJoined joined => some joined.state.subjectId
  | _ => none

/-- The subject that a message takes away. -/
def leaves : ServerMessage → Option U32
  | .playerLeft subjectId => some subjectId
  | _ => none

/-- The subjects that a message is about, other than by announcing them or taking
them away. Those of a batch are the ones its receiver decodes. -/
def reports : ServerMessage → List U32
  | .playerStateFull full => [full.subjectId]
  | .playerStateDelta delta => [delta.subjectId]
  | .playerProfileVersionAnnounced announced => [announced.subjectId]
  | .emoteStarted started => [started.subjectId]
  | .emoteStopped stopped => [stopped.subjectId]
  | .teleported teleport => [teleport.subjectId]
  | .playerStateDeltaBatch batch =>
    ((decodeBatch batch.subjectCount.val batch.payload fun _ => 0).getD []).map
      BatchSubject.subjectId
  | .handshake _ => []
  | .playerJoined _ => []
  | .playerLeft _ => []

end ServerMessage

/-- The subjects announced to the receiver of a log and not taken away since. -/
def announced (log : List ServerMessage) : Finset U32 :=
  present ServerMessage.joins ServerMessage.leaves log

/-- Every message about a subject comes after its `PlayerJoined`, with no
`PlayerLeft` in between. -/
def JoinedFirst (log : List ServerMessage) : Prop :=
  JoinsFirst ServerMessage.joins ServerMessage.leaves ServerMessage.reports log

instance (log : List ServerMessage) : Decidable (JoinedFirst log) :=
  inferInstanceAs (Decidable (JoinsFirst _ _ _ log))

theorem mem_announced_append (log : List ServerMessage) (m : ServerMessage) (s : U32) :
    s ∈ announced (log ++ [m]) ↔ m.joins = some s ∨ s ∈ announced log ∧ m.leaves ≠ some s := by
  rw [announced, present_append, mem_enter]
  rfl

theorem joinedFirst_append (log : List ServerMessage) (m : ServerMessage) :
    JoinedFirst (log ++ [m]) ↔ JoinedFirst log ∧ ∀ s ∈ m.reports, s ∈ announced log :=
  joinsFirst_append _ _ _ log m

/-- A message that neither announces a subject nor takes one away. -/
def Quiet (m : ServerMessage) : Prop := m.joins = none ∧ m.leaves = none

/-- A quiet message that is about one subject only. -/
def Plain (subject : U32) (m : ServerMessage) : Prop := Quiet m ∧ ∀ x ∈ m.reports, x = subject

theorem announced_quiet {log msgs : List ServerMessage} (h : ∀ m ∈ msgs, Quiet m) :
    announced (log ++ msgs) = announced log := by
  induction msgs using List.reverseRecOn with
  | nil => rw [List.append_nil]
  | append_singleton msgs m ih =>
    have hm := h m (by simp)
    have hrest := ih fun k hk => h k (by simp [hk])
    ext s
    rw [← List.append_assoc, mem_announced_append, hm.1, hm.2, hrest]
    simp

theorem joinedFirst_quiet {log msgs : List ServerMessage} (hlog : JoinedFirst log)
    (h : ∀ m ∈ msgs, Quiet m) (hin : ∀ m ∈ msgs, ∀ x ∈ m.reports, x ∈ announced log) :
    JoinedFirst (log ++ msgs) := by
  induction msgs using List.reverseRecOn with
  | nil => rwa [List.append_nil]
  | append_singleton msgs m ih =>
    have hrest : ∀ k ∈ msgs, Quiet k := fun k hk => h k (by simp [hk])
    rw [← List.append_assoc, joinedFirst_append, announced_quiet hrest]
    exact ⟨ih hrest fun k hk => hin k (by simp [hk]), hin m (by simp)⟩

/-! ### Functions that only report on one subject -/

/-- A cached delta is about the subject of its key. -/
def CacheOk (s : Serving) : Prop :=
  ∀ (key : U32 ×ₗ U32 ×ₗ ℕ) (d : PlayerStateDeltaTier0), s.deltaCache[key]? = some d →
    d.subjectId = (ofLex key).1

/-- From `s` to `s'` the observer is told about `subject` and nothing else, and its
views stay as they are. -/
structure Tells (subject : U32) (s s' : Serving) : Prop where
  views : s'.views = s.views
  cache : CacheOk s → CacheOk s'
  sent : CacheOk s → ∃ msgs, s'.sent = s.sent ++ msgs ∧ ∀ m ∈ msgs, Plain subject m.1
  batch : CacheOk s → ∃ bs, s'.batch = s.batch ++ bs ∧ ∀ b ∈ bs, b.subjectId = subject

namespace Tells

variable {subject : U32} {a b c : Serving}

theorem refl (s : Serving) : Tells subject s s :=
  ⟨rfl, id, fun _ => ⟨[], by simp, by simp⟩, fun _ => ⟨[], by simp, by simp⟩⟩

theorem trans (h : Tells subject a b) (h' : Tells subject b c) : Tells subject a c := by
  refine ⟨h'.views.trans h.views, fun hc => h'.cache (h.cache hc), fun hc => ?_, fun hc => ?_⟩
  · obtain ⟨ms, hms, hplain⟩ := h.sent hc
    obtain ⟨ms', hms', hplain'⟩ := h'.sent (h.cache hc)
    refine ⟨ms ++ ms', by rw [hms', hms, List.append_assoc], fun m hm => ?_⟩
    rcases List.mem_append.mp hm with hm | hm
    · exact hplain m hm
    · exact hplain' m hm
  · obtain ⟨bs, hbs, hsubj⟩ := h.batch hc
    obtain ⟨bs', hbs', hsubj'⟩ := h'.batch (h.cache hc)
    refine ⟨bs ++ bs', by rw [hbs', hbs, List.append_assoc], fun b hb => ?_⟩
    rcases List.mem_append.mp hb with hb | hb
    · exact hsubj b hb
    · exact hsubj' b hb

theorem send (s : Serving) {m : ServerMessage} (mode : PacketMode) (hm : Plain subject m) :
    Tells subject s (s.send m mode) := by
  refine ⟨rfl, id, fun _ => ⟨[(m, mode)], rfl, fun k hk => ?_⟩, fun _ => ⟨[], by simp [Serving.send],
    by simp⟩⟩
  rw [List.mem_singleton.mp hk]
  exact hm

theorem dropResync (s : Serving) (x : U32) : Tells subject s (s.dropResync x) :=
  ⟨rfl, id, fun _ => ⟨[], by simp [Serving.dropResync], by simp⟩,
    fun _ => ⟨[], by simp [Serving.dropResync], by simp⟩⟩

end Tells

namespace ObserverCtx

variable (ctx : ObserverCtx) {subject : U32}

theorem cachedScan_tells (s : Serving) (subject fromSeq : U32) (latest : PeerSnapshot) :
    Tells subject s (ctx.cachedScan s subject fromSeq latest).2 := by
  unfold cachedScan
  dsimp only
  split
  · exact Tells.refl s
  · exact ⟨rfl, id, fun _ => ⟨[], by simp, by simp⟩, fun _ => ⟨[], by simp, by simp⟩⟩

/-- The delta that is sent is about the subject, cached or not. -/
theorem cachedDelta_tells (s : Serving) (subject : U32) (baseline target : PeerSnapshot)
    (tier : Tier) :
    Tells subject s (cachedDelta s subject baseline target tier).2 ∧
    (CacheOk s → (cachedDelta s subject baseline target tier).1.subjectId = subject) := by
  unfold cachedDelta
  dsimp only
  split
  · rename_i delta hd
    exact ⟨Tells.refl s, fun hc => hc _ delta hd⟩
  · refine ⟨⟨rfl, fun hc key d hd => ?_, fun _ => ⟨[], by simp, by simp⟩,
      fun _ => ⟨[], by simp, by simp⟩⟩, fun _ => rfl⟩
    rw [OrdMap.find_insert] at hd
    split at hd
    · rename_i hkey
      rw [← hkey, ← Option.some.inj hd]
      rfl
    · exact hc key d hd

theorem sendDelta_tells (s : Serving) (view : PeerToPeerView) (baseline target : PeerSnapshot)
    (tier : Tier) (mode : PacketMode) :
    Tells subject s (ctx.sendDelta s view subject baseline target tier mode).2 := by
  obtain ⟨htells, hsubj⟩ := cachedDelta_tells s subject baseline target tier
  unfold sendDelta
  split
  · exact Tells.refl s
  · dsimp only
    split
    · refine ⟨htells.views, htells.cache, htells.sent, fun hc => ?_⟩
      obtain ⟨bs, hbs, hb⟩ := htells.batch hc
      refine ⟨bs ++ [BatchSubject.fromDelta (cachedDelta s subject baseline target tier).1
        target.animationFlags], by simp only [hbs, List.append_assoc], fun b hmem => ?_⟩
      rcases List.mem_append.mp hmem with hmem | hmem
      · exact hb b hmem
      · rw [List.mem_singleton.mp hmem]
        exact hsubj hc
    · refine ⟨htells.views, htells.cache, fun hc => ?_, htells.batch⟩
      obtain ⟨ms, hms, hplain⟩ := htells.sent hc
      refine ⟨ms ++ [(.playerStateDelta (cachedDelta s subject baseline target tier).1, mode)],
        by simp only [Serving.send, hms, List.append_assoc], fun m hmem => ?_⟩
      rcases List.mem_append.mp hmem with hmem | hmem
      · exact hplain m hmem
      · rw [List.mem_singleton.mp hmem]
        refine ⟨⟨rfl, rfl⟩, fun x hx => ?_⟩
        rw [List.mem_singleton.mp hx]
        exact hsubj hc

theorem handleResyncOrDelta_tells (s : Serving) (entry : InterestEntry) (view : PeerToPeerView)
    (lastSentState latest : PeerSnapshot) :
    Tells entry.subject s (ctx.handleResyncOrDelta s entry view lastSentState latest).2 := by
  unfold handleResyncOrDelta
  split
  · exact ctx.sendDelta_tells s view lastSentState latest entry.tier _
  · dsimp only
    split
    · exact (Tells.dropResync s entry.subject).trans (ctx.sendDelta_tells _ view _ latest _ _)
    · exact (Tells.dropResync s entry.subject).trans
        (Tells.send _ _ ⟨⟨rfl, rfl⟩, fun x hx => List.mem_singleton.mp hx⟩)

theorem syncTeleport_tells (p : Progress) (subject : U32) (scan : IntermediateScan) :
    Tells subject p.serving (syncTeleport p subject scan).serving := by
  unfold syncTeleport
  split
  · exact Tells.refl _
  · split
    · refine (Tells.send p.serving .reliable ?_).trans (Tells.dropResync _ subject)
      exact ⟨⟨rfl, rfl⟩, fun x hx => List.mem_singleton.mp hx⟩
    · exact Tells.refl _

theorem syncEmoteStart_tells (p : Progress) (subject : U32) (scan : IntermediateScan) :
    Tells subject p.serving (syncEmoteStart p subject scan).serving := by
  unfold syncEmoteStart
  split
  · exact Tells.refl _
  · split
    · exact Tells.refl _
    · split
      · exact Tells.refl _
      · refine (Tells.send p.serving .reliable ?_).trans (Tells.dropResync _ subject)
        exact ⟨⟨rfl, rfl⟩, fun x hx => List.mem_singleton.mp hx⟩

theorem trySyncEmoteStop_tells (p : Progress) (subject : U32) (stop : Option PeerSnapshot) :
    Tells subject p.serving (trySyncEmoteStop p subject stop).serving := by
  unfold trySyncEmoteStop
  split
  · exact Tells.refl _
  · split
    · exact Tells.refl _
    · split
      · exact Tells.refl _
      · exact Tells.send _ _ ⟨⟨rfl, rfl⟩, fun x hx => List.mem_singleton.mp hx⟩

theorem processExistingSubject_tells (s : Serving) (entry : InterestEntry) (view : PeerToPeerView)
    (latest : PeerSnapshot) :
    Tells entry.subject s (ctx.processExistingSubject s entry view latest).2 := by
  have hscan := ctx.cachedScan_tells s entry.subject view.lastSentSnapshot.seq latest
  unfold processExistingSubject
  dsimp only
  generalize ctx.cachedScan s entry.subject view.lastSentSnapshot.seq latest = r at hscan ⊢
  -- teleport, emote start, emote stop and delta one after the other
  have h1 := hscan.trans (syncTeleport_tells ⟨view, view.lastSentSnapshot, false, r.2⟩
    entry.subject r.1)
  generalize syncTeleport ⟨view, view.lastSentSnapshot, false, r.2⟩ entry.subject r.1 = p1 at h1 ⊢
  have h2 : Tells entry.subject s (if (emoteStartIsEffective r.1 && !ctx.positionalOnly) = true then
      syncEmoteStart p1 entry.subject r.1 else p1).serving := by
    split
    · exact h1.trans (syncEmoteStart_tells p1 entry.subject r.1)
    · exact h1
  generalize (if (emoteStartIsEffective r.1 && !ctx.positionalOnly) = true then
    syncEmoteStart p1 entry.subject r.1 else p1) = p2 at h2 ⊢
  have h3 : Tells entry.subject s (if emoteStartIsEffective r.1 = true then p2 else
      trySyncEmoteStop p2 entry.subject r.1.lastEmoteStop).serving := by
    split
    · exact h2
    · exact h2.trans (trySyncEmoteStop_tells p2 entry.subject r.1.lastEmoteStop)
  generalize (if emoteStartIsEffective r.1 = true then p2 else
    trySyncEmoteStop p2 entry.subject r.1.lastEmoteStop) = p3 at h3 ⊢
  split
  · exact h3
  · exact h3.trans (ctx.handleResyncOrDelta_tells p3.serving entry p3.view p3.lastSentState latest)

theorem tryAnnounceProfile_tells (s : Serving) (subject : U32) (view : PeerToPeerView) :
    Tells subject s (ctx.tryAnnounceProfile s subject view).2 := by
  unfold tryAnnounceProfile
  dsimp only
  split
  · exact Tells.refl s
  · exact Tells.send s _ ⟨⟨rfl, rfl⟩, fun x hx => List.mem_singleton.mp hx⟩

/-! ### What a view keeps -/

/-- A view goes on: it is of the same wallet, and was last seen when it was. -/
structure Continues (view view' : PeerToPeerView) : Prop where
  wallet : view'.lastSentWalletId = view.lastSentWalletId
  seen : view'.lastSeenTick = view.lastSeenTick

theorem Continues.refl (view : PeerToPeerView) : Continues view view := ⟨rfl, rfl⟩

theorem Continues.trans {a b c : PeerToPeerView} (h : Continues a b) (h' : Continues b c) :
    Continues a c :=
  ⟨h'.wallet.trans h.wallet, h'.seen.trans h.seen⟩

theorem sendDelta_continues (s : Serving) (view : PeerToPeerView) (baseline target : PeerSnapshot)
    (tier : Tier) (mode : PacketMode) :
    Continues view (ctx.sendDelta s view subject baseline target tier mode).1 := by
  unfold sendDelta
  split
  · exact Continues.refl view
  · dsimp only
    split <;> exact ⟨rfl, rfl⟩

theorem handleResyncOrDelta_continues (s : Serving) (entry : InterestEntry) (view : PeerToPeerView)
    (lastSentState latest : PeerSnapshot) :
    Continues view (ctx.handleResyncOrDelta s entry view lastSentState latest).1 := by
  unfold handleResyncOrDelta
  split
  · exact ctx.sendDelta_continues s view _ _ _ _
  · dsimp only
    split
    · exact ctx.sendDelta_continues _ view _ _ _ _
    · exact ⟨rfl, rfl⟩

theorem syncTeleport_continues (p : Progress) (subject : U32) (scan : IntermediateScan) :
    Continues p.view (syncTeleport p subject scan).view := by
  unfold syncTeleport
  split
  · exact Continues.refl _
  · split <;> exact ⟨rfl, rfl⟩

theorem syncEmoteStart_continues (p : Progress) (subject : U32) (scan : IntermediateScan) :
    Continues p.view (syncEmoteStart p subject scan).view := by
  unfold syncEmoteStart
  split
  · exact Continues.refl _
  · split
    · exact Continues.refl _
    · split <;> exact ⟨rfl, rfl⟩

theorem trySyncEmoteStop_continues (p : Progress) (subject : U32) (stop : Option PeerSnapshot) :
    Continues p.view (trySyncEmoteStop p subject stop).view := by
  unfold trySyncEmoteStop
  split
  · exact Continues.refl _
  · split
    · exact Continues.refl _
    · split <;> exact ⟨rfl, rfl⟩

theorem processExistingSubject_continues (s : Serving) (entry : InterestEntry)
    (view : PeerToPeerView) (latest : PeerSnapshot) :
    Continues view (ctx.processExistingSubject s entry view latest).1 := by
  unfold processExistingSubject
  dsimp only
  generalize ctx.cachedScan s entry.subject view.lastSentSnapshot.seq latest = r
  have h1 := syncTeleport_continues ⟨view, view.lastSentSnapshot, false, r.2⟩ entry.subject r.1
  generalize syncTeleport ⟨view, view.lastSentSnapshot, false, r.2⟩ entry.subject r.1 = p1 at h1 ⊢
  have h2 : Continues view (if (emoteStartIsEffective r.1 && !ctx.positionalOnly) = true then
      syncEmoteStart p1 entry.subject r.1 else p1).view := by
    split
    · exact h1.trans (syncEmoteStart_continues p1 entry.subject r.1)
    · exact h1
  generalize (if (emoteStartIsEffective r.1 && !ctx.positionalOnly) = true then
    syncEmoteStart p1 entry.subject r.1 else p1) = p2 at h2 ⊢
  have h3 : Continues view (if emoteStartIsEffective r.1 = true then p2 else
      trySyncEmoteStop p2 entry.subject r.1.lastEmoteStop).view := by
    split
    · exact h2
    · exact h2.trans (trySyncEmoteStop_continues p2 entry.subject r.1.lastEmoteStop)
  generalize (if emoteStartIsEffective r.1 = true then p2 else
    trySyncEmoteStop p2 entry.subject r.1.lastEmoteStop) = p3 at h3 ⊢
  split
  · exact ⟨h3.wallet, h3.seen⟩
  · have h4 := h3.trans
      (ctx.handleResyncOrDelta_continues p3.serving entry p3.view p3.lastSentState latest)
    exact ⟨h4.wallet, h4.seen⟩

theorem tryAnnounceProfile_continues (s : Serving) (subject : U32) (view : PeerToPeerView) :
    Continues view (ctx.tryAnnounceProfile s subject view).1 := by
  unfold tryAnnounceProfile
  dsimp only
  split
  · exact Continues.refl view
  · exact ⟨rfl, rfl⟩

/-! ### The promise of a view -/

/-- A view that was not kept up to date: its subject's slot is not active, or belongs
to another wallet. -/
def Stale (subject : U32) (view : PeerToPeerView) : Prop :=
  (ctx.board.ring subject).active = false ∨
    sameWallet view.lastSentWalletId (ctx.currentWallet subject) = false

/-- Serving keeps this: the log so far is in order, every view is of an announced
subject or stale, and the deltas in the batch are about announced subjects whose
views are made for their present wallet. -/
structure Good (log : List ServerMessage) (s : Serving) : Prop where
  joinedFirst : JoinedFirst (log ++ s.sent.map Prod.fst)
  views : ∀ (x : U32) (v : PeerToPeerView), s.views[x]? = some v →
    x ∈ announced (log ++ s.sent.map Prod.fst) ∨ ctx.Stale x v
  cache : CacheOk s
  batch : ∀ b ∈ s.batch, b.subjectId ∈ announced (log ++ s.sent.map Prod.fst) ∧
    (ctx.board.ring b.subjectId).active = true ∧
    ∃ v, s.views[b.subjectId]? = some v ∧
      sameWallet v.lastSentWalletId (ctx.currentWallet b.subjectId) = true

variable {ctx} {log : List ServerMessage} {s : Serving}

theorem active_of_tryRead {board : SnapshotBoard} {id : U32} {snapshot : PeerSnapshot}
    (h : board.tryRead id = some snapshot) : (board.ring id).active = true := by
  unfold SnapshotBoard.tryRead at h
  dsimp only at h
  split at h
  · cases h
  · rename_i hactive
    simp only [Bool.or_eq_true, Bool.not_eq_true', not_or, Bool.not_eq_false] at hactive
    exact hactive.1

/-- A view replaced by one for the same wallet. -/
theorem Good.insertView (h : Good ctx log s) {x : U32} {v v' : PeerToPeerView}
    (hv : s.views[x]? = some v) (hw : v'.lastSentWalletId = v.lastSentWalletId) :
    Good ctx log { s with views := s.views.insert x v' } := by
  refine ⟨h.joinedFirst, fun y u hu => ?_, h.cache, fun b hb => ?_⟩
  · simp only [OrdMap.find_insert] at hu
    split at hu
    · rename_i hxy
      subst hxy
      rw [← Option.some.inj hu]
      simpa only [Stale, hw] using h.views x v hv
    · exact h.views y u hu
  · obtain ⟨hin, hactive, u, hu, hsame⟩ := h.batch b hb
    refine ⟨hin, hactive, ?_⟩
    by_cases hxb : x = b.subjectId
    · refine ⟨v', by simp [hxb], ?_⟩
      rw [hxb, hu] at hv
      rw [hw, ← Option.some.inj hv]
      exact hsame
    · exact ⟨u, by simpa [hxb] using hu, hsame⟩

/-- Telling the observer about an announced subject. What goes into the batch is
about a subject whose view is up to date. -/
theorem Good.tells (h : Good ctx log s) {s' : Serving} {x : U32}
    (hin : x ∈ announced (log ++ s.sent.map Prod.fst)) (ht : Tells x s s')
    (hfresh : s'.batch = s.batch ∨ (ctx.board.ring x).active = true ∧
      ∃ v, s.views[x]? = some v ∧ sameWallet v.lastSentWalletId (ctx.currentWallet x) = true) :
    Good ctx log s' ∧
      announced (log ++ s'.sent.map Prod.fst) = announced (log ++ s.sent.map Prod.fst) := by
  obtain ⟨ms, hsent, hplain⟩ := ht.sent h.cache
  have hplain' : ∀ m ∈ ms.map Prod.fst, Plain x m := by
    intro m hm
    obtain ⟨k, hk, rfl⟩ := List.mem_map.mp hm
    exact hplain k hk
  have hquiet : ∀ m ∈ ms.map Prod.fst, Quiet m := fun m hm => (hplain' m hm).1
  have hlog : log ++ s'.sent.map Prod.fst = log ++ s.sent.map Prod.fst ++ ms.map Prod.fst := by
    rw [hsent, List.map_append, List.append_assoc]
  have hann : announced (log ++ s'.sent.map Prod.fst) =
      announced (log ++ s.sent.map Prod.fst) := by
    rw [hlog, announced_quiet hquiet]
  have hjoined : JoinedFirst (log ++ s'.sent.map Prod.fst) := by
    rw [hlog]
    refine joinedFirst_quiet h.joinedFirst hquiet fun m hm y hy => ?_
    rw [(hplain' m hm).2 y hy]
    exact hin
  refine ⟨⟨hjoined, ?_, ht.cache h.cache, ?_⟩, hann⟩
  · rw [hann, ht.views]
    exact h.views
  · rw [hann, ht.views]
    rcases hfresh with hsame | ⟨hactive, hview⟩
    · rw [hsame]
      exact h.batch
    · obtain ⟨bs, hbatch, hbs⟩ := ht.batch h.cache
      rw [hbatch]
      intro b hb
      rcases List.mem_append.mp hb with hb | hb
      · exact h.batch b hb
      · rw [hbs b hb]
        exact ⟨hin, hactive, hview⟩

/-- A view that is up to date is of an announced subject. -/
theorem Good.announced_of_fresh (h : Good ctx log s) {x : U32} {v : PeerToPeerView}
    (hv : s.views[x]? = some v) (hactive : (ctx.board.ring x).active = true)
    (hsame : sameWallet v.lastSentWalletId (ctx.currentWallet x) = true) :
    x ∈ announced (log ++ s.sent.map Prod.fst) := by
  rcases h.views x v hv with hin | hstale | hstale
  · exact hin
  · rw [hactive] at hstale
    cases hstale
  · rw [hsame] at hstale
    cases hstale

theorem Good.dropResync (h : Good ctx log s) (x : U32) : Good ctx log (s.dropResync x) :=
  ⟨h.joinedFirst, h.views, h.cache, h.batch⟩

/-- A `PlayerJoined` announces its subject and takes no other away. -/
theorem Good.sendJoined (h : Good ctx log s) (joined : PlayerJoined) :
    Good ctx log (s.send (.playerJoined joined) .reliable) ∧
    joined.state.subjectId ∈
      announced (log ++ (s.send (.playerJoined joined) .reliable).sent.map Prod.fst) := by
  have hlog : log ++ (s.send (.playerJoined joined) .reliable).sent.map Prod.fst =
      log ++ s.sent.map Prod.fst ++ [.playerJoined joined] := by
    simp only [Serving.send, List.map_append, List.map_cons, List.map_nil, List.append_assoc]
  have hkeep : ∀ y, y ∈ announced (log ++ s.sent.map Prod.fst) →
      y ∈ announced (log ++ s.sent.map Prod.fst ++ [.playerJoined joined]) := by
    intro y hy
    rw [mem_announced_append]
    exact Or.inr ⟨hy, fun heq => nomatch heq⟩
  refine ⟨⟨?_, fun y u hu => ?_, h.cache, fun b hb => ?_⟩, ?_⟩
  · rw [hlog, joinedFirst_append]
    exact ⟨h.joinedFirst, fun y hy => nomatch hy⟩
  · rw [hlog]
    rcases h.views y u hu with hy | hstale
    · exact Or.inl (hkeep y hy)
    · exact Or.inr hstale
  · rw [hlog]
    obtain ⟨hy, hrest⟩ := h.batch b hb
    exact ⟨hkeep _ hy, hrest⟩
  · rw [hlog, mem_announced_append]
    exact Or.inl rfl

/-- A first view of an announced subject. -/
theorem Good.addView (h : Good ctx log s) {x : U32}
    (hin : x ∈ announced (log ++ s.sent.map Prod.fst)) (hnone : s.views[x]? = none)
    (v : PeerToPeerView) : Good ctx log { s with views := s.views.insert x v } := by
  refine ⟨h.joinedFirst, fun y u hu => ?_, h.cache, fun b hb => ?_⟩
  · simp only [OrdMap.find_insert] at hu
    split at hu
    · rename_i hxy
      exact Or.inl (hxy ▸ hin)
    · exact h.views y u hu
  · obtain ⟨hy, hactive, u, hu, hsame⟩ := h.batch b hb
    have hne : x ≠ b.subjectId := by
      intro heq
      rw [← heq, hnone] at hu
      cases hu
    exact ⟨hy, hactive, u, by simpa [hne] using hu, hsame⟩

theorem reportKnown_good (h : Good ctx log s) {entry : InterestEntry} {v : PeerToPeerView}
    (hv : s.views[entry.subject]? = some v) (hactive : (ctx.board.ring entry.subject).active = true)
    (hsame : sameWallet v.lastSentWalletId (ctx.currentWallet entry.subject) = true)
    (latest : PeerSnapshot) : Good ctx log (ctx.reportKnown s entry v latest) := by
  have hann : Tells entry.subject s (if ctx.positionalOnly = true then (v, s)
        else ctx.tryAnnounceProfile s entry.subject v).2 ∧
      Continues v (if ctx.positionalOnly = true then (v, s)
        else ctx.tryAnnounceProfile s entry.subject v).1 := by
    split
    · exact ⟨Tells.refl s, Continues.refl v⟩
    · exact ⟨ctx.tryAnnounceProfile_tells s entry.subject v,
        ctx.tryAnnounceProfile_continues s entry.subject v⟩
  unfold reportKnown
  dsimp only
  generalize (if ctx.positionalOnly = true then (v, s)
    else ctx.tryAnnounceProfile s entry.subject v) = a at hann ⊢
  have htells := hann.1.trans (ctx.processExistingSubject_tells a.2 entry a.1 latest)
  have hwallet := (hann.2.trans (ctx.processExistingSubject_continues a.2 entry a.1 latest)).wallet
  have hgood := (h.tells (h.announced_of_fresh hv hactive hsame) htells
    (Or.inr ⟨hactive, v, hv, hsame⟩)).1
  exact hgood.insertView (htells.views.symm ▸ hv) hwallet

theorem processKnown_good (h : Good ctx log s) {entry : InterestEntry} {v : PeerToPeerView}
    (hv : s.views[entry.subject]? = some v)
    (hsame : sameWallet v.lastSentWalletId (ctx.currentWallet entry.subject) = true) :
    Good ctx log (ctx.processKnown s entry v) := by
  have hstamped : Good ctx log { s with
      views := s.views.insert entry.subject { v with lastSeenTick := ctx.tickCounter } } :=
    h.insertView hv rfl
  unfold processKnown
  dsimp only
  split
  · exact hstamped
  · split
    · exact hstamped
    · rename_i latest hread
      refine reportKnown_good hstamped (OrdMap.find_insert _ _ _ _ |>.trans (if_pos rfl))
        (active_of_tryRead hread) hsame latest

/-- A `PlayerLeft` with the view of its subject dropped. -/
theorem Good.sendLeft (h : Good ctx log s) (x : U32) (hbatch : ∀ b ∈ s.batch, b.subjectId ≠ x) :
    Good ctx log { s.send (.playerLeft x) .reliable with views := s.views.erase x } := by
  have hlog : log ++ (s.send (.playerLeft x) .reliable).sent.map Prod.fst =
      log ++ s.sent.map Prod.fst ++ [.playerLeft x] := by
    simp only [Serving.send, List.map_append, List.map_cons, List.map_nil, List.append_assoc]
  have hann : ∀ y, y ≠ x → y ∈ announced (log ++ s.sent.map Prod.fst) →
      y ∈ announced (log ++ s.sent.map Prod.fst ++ [.playerLeft x]) := by
    intro y hy hin
    rw [mem_announced_append]
    exact Or.inr ⟨hin, fun heq => hy (Option.some.inj heq).symm⟩
  refine ⟨?_, fun y u hu => ?_, h.cache, fun b hb => ?_⟩
  · simp only [hlog, joinedFirst_append]
    exact ⟨h.joinedFirst, fun y hy => nomatch hy⟩
  · simp only [OrdMap.find_erase] at hu
    split at hu
    · cases hu
    · rename_i hxy
      simp only [hlog]
      rcases h.views y u hu with hin | hstale
      · exact Or.inl (hann y (Ne.symm hxy) hin)
      · exact Or.inr hstale
  · obtain ⟨hin, hactive, u, hu, hsame⟩ := h.batch b hb
    have hne := hbatch b hb
    simp only [hlog]
    exact ⟨hann _ hne hin, hactive, u, by simpa [Ne.symm hne] using hu, hsame⟩

/-- The view of a slot that belongs to another wallet is dropped, and the observer is
told that its subject left. -/
theorem aliased_good (h : Good ctx log s) {x : U32} {v : PeerToPeerView}
    (hv : s.views[x]? = some v)
    (hsame : sameWallet v.lastSentWalletId (ctx.currentWallet x) = false) :
    Good ctx log { s.send (.playerLeft x) .reliable with views := s.views.erase x } := by
  refine h.sendLeft x fun b hb heq => ?_
  -- a batched subject's view is made for its present wallet
  obtain ⟨_, _, u, hu, hsame'⟩ := h.batch b hb
  rw [heq, hv] at hu
  rw [heq, ← Option.some.inj hu, hsame] at hsame'
  cases hsame'

/-- A new subject: its `PlayerJoined`, and perhaps an `EmoteStarted`. -/
theorem handleNewSubject_tells (s : Serving) (subject : U32) (latest : PeerSnapshot) :
    Tells subject
      ((s.dropResync subject).send (.playerJoined (ctx.joinedMessage subject latest)) .reliable)
      (ctx.handleNewSubject s subject latest).2 := by
  unfold handleNewSubject
  dsimp only
  split
  · split
    · exact Tells.refl _
    · exact Tells.send _ _ ⟨⟨rfl, rfl⟩, fun x hx => List.mem_singleton.mp hx⟩
  · exact Tells.refl _

theorem handleNewSubject_batch (s : Serving) (subject : U32) (latest : PeerSnapshot) :
    (ctx.handleNewSubject s subject latest).2.batch = s.batch := by
  unfold handleNewSubject
  dsimp only
  split
  · split <;> rfl
  · rfl

/-- A subject without a view is announced before anything is said about it. -/
theorem processNew_good (h : Good ctx log s) {entry : InterestEntry}
    (hv : s.views[entry.subject]? = none) : Good ctx log (ctx.processNew s entry) := by
  unfold processNew
  split
  · exact h
  · split
    · exact h
    · rename_i latest hread
      have htells := ctx.handleNewSubject_tells s entry.subject latest
      obtain ⟨hjoined, hin⟩ := (h.dropResync entry.subject).sendJoined
        (ctx.joinedMessage entry.subject latest)
      obtain ⟨hgood, hann⟩ := hjoined.tells hin htells
        (Or.inl (handleNewSubject_batch s entry.subject latest))
      exact hgood.addView (hann ▸ hin) (htells.views.symm ▸ hv) _

theorem processVisibleSubject_good (h : Good ctx log s) (entry : InterestEntry) :
    Good ctx log (ctx.processVisibleSubject s entry) := by
  unfold processVisibleSubject
  split
  · exact h
  · split
    · rename_i hv
      exact processNew_good h hv
    · rename_i v hv
      cases hsame : sameWallet v.lastSentWalletId (ctx.currentWallet entry.subject) with
      | true =>
        simp only [detectAndHandleAliasing, hsame, if_true, Bool.false_eq_true, if_false]
        exact processKnown_good h hv hsame
      | false =>
        simp only [detectAndHandleAliasing, hsame, Bool.false_eq_true, if_false, if_true]
        exact processNew_good (aliased_good h hv hsame) (by simp)

theorem processVisibleSubjects_good (entries : List InterestEntry) (h : Good ctx log s) :
    Good ctx log (ctx.processVisibleSubjects s entries) := by
  induction entries generalizing s with
  | nil => exact h
  | cons entry entries ih => exact ih (processVisibleSubject_good h entry)

/-! ### The batch and the sweep -/

theorem onWire_subjectId (mode : SeqEncoding) (lastKnownSeq : U32 → U32) {b : BatchSubject}
    (h : b.subjectId.val < 2 ^ SUBJECT_ID_BITS) :
    (b.onWire mode lastKnownSeq).subjectId = b.subjectId := by
  unfold BatchSubject.onWire
  exact BatchSubject.wordOf_mod h

/-- The receiver of a batch reads subjects that were put into it. -/
theorem reports_batch {mode : SeqEncoding} {serverTick : U32} {group : List BatchSubject}
    {b : EncodedBatch} (h : Holds mode serverTick group b)
    (hids : ∀ g ∈ group, g.subjectId.val < 2 ^ SUBJECT_ID_BITS) {x : U32}
    (hx : x ∈ (ServerMessage.playerStateDeltaBatch
      ⟨b.serverTick, Fin.ofNat 4294967296 b.subjectCount, b.payload⟩).reports) :
    ∃ g ∈ group, g.subjectId = x := by
  have hcount : (Fin.ofNat 4294967296 b.subjectCount).val ≤ b.subjectCount :=
    Nat.mod_le b.subjectCount 4294967296
  simp only [ServerMessage.reports, h.decode (fun _ => 0) hcount, Option.getD_some, List.map_map]
    at hx
  obtain ⟨g, hg, rfl⟩ := List.mem_map.mp hx
  have hmem := List.mem_of_mem_take hg
  exact ⟨g, hmem, (onWire_subjectId mode _ (hids g hmem)).symm⟩

/-- The batches are about the subjects collected. -/
theorem flushDeltaBatch_good (h : Good ctx log s)
    (hids : ∀ x, (ctx.board.ring x).active = true → x.val < 2 ^ SUBJECT_ID_BITS)
    (serverTick : U32) (mode : SeqEncoding) :
    Good ctx log (s.flushDeltaBatch serverTick mode) ∧
      (s.flushDeltaBatch serverTick mode).batch = [] := by
  unfold Serving.flushDeltaBatch
  split
  · rename_i hempty
    exact ⟨h, hempty⟩
  · dsimp only
    have hholds : ∀ b ∈ encodeBatches serverTick s.batch MAX_BATCH_BYTES mode, ∃ group,
        Holds mode serverTick group b ∧ ∀ g ∈ group, g ∈ s.batch :=
      fun b hb => holds_of_mem_encodeBatches hb
    generalize encodeBatches serverTick s.batch MAX_BATCH_BYTES mode = batches at hholds ⊢
    have hlog : log ++ (s.sent ++ batches.map fun b => (ServerMessage.playerStateDeltaBatch
        ⟨b.serverTick, Fin.ofNat 4294967296 b.subjectCount, b.payload⟩,
          PacketMode.unreliableSequenced)).map Prod.fst =
        log ++ s.sent.map Prod.fst ++ batches.map fun b => ServerMessage.playerStateDeltaBatch
          ⟨b.serverTick, Fin.ofNat 4294967296 b.subjectCount, b.payload⟩ := by
      simp only [List.map_append, List.map_map, List.append_assoc]
      rfl
    have hquiet : ∀ m ∈ batches.map fun b => ServerMessage.playerStateDeltaBatch
        ⟨b.serverTick, Fin.ofNat 4294967296 b.subjectCount, b.payload⟩, Quiet m := by
      intro m hm
      obtain ⟨b, _, rfl⟩ := List.mem_map.mp hm
      exact ⟨rfl, rfl⟩
    refine ⟨⟨?_, ?_, h.cache, fun b hb => nomatch hb⟩, rfl⟩
    · rw [hlog]
      refine joinedFirst_quiet h.joinedFirst hquiet fun m hm x hx => ?_
      obtain ⟨b, hb, rfl⟩ := List.mem_map.mp hm
      obtain ⟨group, hheld, hmem⟩ := hholds b hb
      obtain ⟨g, hg, rfl⟩ := reports_batch hheld
        (fun g hg => hids _ (h.batch g (hmem g hg)).2.1) hx
      exact (h.batch g (hmem g hg)).1
    · rw [hlog, announced_quiet hquiet]
      exact h.views

theorem sweepStaleViews_sent (ctx : ObserverCtx) (s : Serving) : (ctx.sweepStaleViews s).sent =
    s.sent ++ (ctx.staleSubjects s).map fun x => (.playerLeft x, .reliable) := by
  unfold sweepStaleViews
  generalize ctx.staleSubjects s = stale
  induction stale generalizing s with
  | nil => simp
  | cons x stale ih =>
    rw [List.foldl_cons, ih]
    simp [Serving.send]

theorem find_sweepStaleViews (ctx : ObserverCtx) (s : Serving) (x : U32) :
    (ctx.sweepStaleViews s).views[x]? =
      if x ∈ ctx.staleSubjects s then none else s.views[x]? := by
  unfold sweepStaleViews
  generalize ctx.staleSubjects s = stale
  induction stale generalizing s with
  | nil => simp
  | cons y stale ih =>
    rw [List.foldl_cons, ih]
    by_cases hx : x ∈ stale
    · simp [hx]
    · by_cases hy : y = x
      · simp [hy]
      · simp [hx, hy, Ne.symm hy, Serving.send]

/-- A subject seen on this tick is not swept. -/
theorem notMem_staleSubjects {v : PeerToPeerView} {x : U32} (hv : s.views[x]? = some v)
    (hseen : v.lastSeenTick = ctx.tickCounter) : x ∉ ctx.staleSubjects s := by
  intro hmem
  obtain ⟨e, he, hx⟩ := List.mem_map.mp hmem
  obtain ⟨hin, hstale⟩ := List.mem_filter.mp he
  have hev := (OrdMap.mem_entries _ _ _).mp hin
  rw [hx, hv] at hev
  rw [← Option.some.inj hev, hseen] at hstale
  simp at hstale

/-- A subject that is swept is taken away together with its view. -/
theorem sweepStaleViews_good (h : Good ctx log s) (hempty : s.batch = []) :
    Good ctx log (ctx.sweepStaleViews s) := by
  unfold sweepStaleViews
  generalize ctx.staleSubjects s = stale
  induction stale generalizing s with
  | nil => exact h
  | cons x stale ih => exact ih (h.sendLeft x fun b hb => by simp [hempty] at hb) hempty

end ObserverCtx

end Catalyrst.Pulse
