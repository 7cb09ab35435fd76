import Catalyrst.Pulse.Sequences

/-!
# What an observer makes of the messages

An observer keeps a copy of a subject's state: a message with a whole state replaces it,
a delta overwrites the fields it has. The server sends deltas from the snapshot that it
takes the observer to have. Whether the copy is that snapshot depends on what the lower
tiers leave out, on the jump count, which a whole state carries as zero, on the order of
teleports and emotes, and on the sequences that resyncs are asked from.
-/

namespace Catalyrst.Pulse
open Catalyrst.Lib

structure AvatarCopy where
  parcelIndex : ℤ
  positionX : U32
  positionY : U32
  positionZ : U32
  velocityX : U32
  velocityY : U32
  velocityZ : U32
  rotationY : U32
  movementBlend : U32
  slideBlend : U32
  stateFlags : U32
  glideState : ℤ
  jumpCount : ℤ
  deriving DecidableEq

namespace AvatarCopy

def ofSnapshot (s : PeerSnapshot) : AvatarCopy :=
  ⟨s.parcel, s.positionX, s.positionY, s.positionZ, s.velocityX, s.velocityY, s.velocityZ,
    s.rotationY, s.movementBlend, s.slideBlend, s.animationFlags, s.glideState, s.jumpCount⟩

def ofState (s : PlayerState) : AvatarCopy :=
  ⟨s.parcelIndex, s.positionX, s.positionY, s.positionZ, s.velocityX, s.velocityY, s.velocityZ,
    s.rotationY, s.movementBlend, s.slideBlend, s.stateFlags, s.glideState, s.jumpCount⟩

/-- The fields present are overwritten. -/
def apply (c : AvatarCopy) (d : PlayerStateDeltaTier0) : AvatarCopy where
  parcelIndex := d.parcelIndex.getD c.parcelIndex
  positionX := d.positionX.getD c.positionX
  positionY := d.positionY.getD c.positionY
  positionZ := d.positionZ.getD c.positionZ
  velocityX := d.velocityX.getD c.velocityX
  velocityY := d.velocityY.getD c.velocityY
  velocityZ := d.velocityZ.getD c.velocityZ
  rotationY := d.rotationY.getD c.rotationY
  movementBlend := d.movementBlend.getD c.movementBlend
  slideBlend := d.slideBlend.getD c.slideBlend
  stateFlags := d.stateFlags.getD c.stateFlags
  glideState := d.glideState.getD c.glideState
  jumpCount := d.jumpCount.getD c.jumpCount

/-- What a message leaves of the copy of subject `x`. -/
def receive (x : U32) (copy : Option AvatarCopy) : ServerMessage → Option AvatarCopy
  | .playerJoined joined => if joined.state.subjectId = x then some (ofState joined.state.state) else copy
  | .playerStateFull full => if full.subjectId = x then some (ofState full.state) else copy
  | .teleported teleport => if teleport.subjectId = x then some (ofState teleport.state) else copy
  | .emoteStarted started => if started.subjectId = x then some (ofState started.playerState) else copy
  | .emoteStopped stopped => if stopped.subjectId = x then some (ofState stopped.playerState) else copy
  | .playerStateDelta delta => if delta.subjectId = x then copy.map fun c => c.apply delta else copy
  | .playerLeft y => if y = x then none else copy
  | _ => copy

theorem ofState_createPlayerState {s : PeerSnapshot} (h : s.jumpCount = 0) :
    ofState (createPlayerState s) = ofSnapshot s := by
  unfold ofState createPlayerState ofSnapshot
  rw [h]

end AvatarCopy

theorem changed_getD {α : Type} [DecidableEq α] (baseline target : α) :
    (changed baseline target).getD baseline = target := by
  unfold changed
  split
  · rfl
  · rename_i h
    exact not_not.mp h

/-- The tier leaves out no field in which the two snapshots differ. -/
def omitsNothing (tier : Tier) (baseline target : PeerSnapshot) : Bool :=
  (decide (tier = TIER_0) || decide (baseline.slideBlend = target.slideBlend)) &&
  (decide (tier = TIER_0 ∨ tier = TIER_1) ||
    decide (baseline.velocityX = target.velocityX ∧ baseline.velocityY = target.velocityY ∧
      baseline.velocityZ = target.velocityZ ∧ baseline.movementBlend = target.movementBlend))

/-- A copy of the baseline becomes a copy of the target. -/
theorem AvatarCopy.apply_createDeltaMessage {tier : Tier} {baseline target : PeerSnapshot}
    (h : omitsNothing tier baseline target = true) (x : U32) :
    (AvatarCopy.ofSnapshot baseline).apply (createDeltaMessage x baseline target tier) =
      AvatarCopy.ofSnapshot target := by
  simp only [omitsNothing, Bool.and_eq_true, Bool.or_eq_true, decide_eq_true_eq] at h
  obtain ⟨hslide, hmove⟩ := h
  have hslide' : (if tier = TIER_0 then changed baseline.slideBlend target.slideBlend else none).getD
      baseline.slideBlend = target.slideBlend := by
    split
    · exact changed_getD _ _
    · rename_i hne
      exact hslide.resolve_left hne
  have hmoves : ∀ a b : U32, (¬ (tier = TIER_0 ∨ tier = TIER_1) → a = b) →
      (if tier = TIER_0 ∨ tier = TIER_1 then changed a b else none).getD a = b := by
    intro a b hab
    split
    · exact changed_getD _ _
    · rename_i hne
      exact hab hne
  unfold AvatarCopy.apply createDeltaMessage AvatarCopy.ofSnapshot
  dsimp only
  rw [hslide', hmoves _ _ fun hne => (hmove.resolve_left hne).1,
    hmoves _ _ fun hne => (hmove.resolve_left hne).2.1,
    hmoves _ _ fun hne => (hmove.resolve_left hne).2.2.1,
    hmoves _ _ fun hne => (hmove.resolve_left hne).2.2.2]
  simp only [changed_getD]

/-- The copy after everything sent so far. -/
def Serving.copyAfter (s : Serving) (x : U32) (copy : Option AvatarCopy) : Option AvatarCopy :=
  (s.sent.map Prod.fst).foldl (AvatarCopy.receive x) copy

@[simp] theorem Serving.copyAfter_send (s : Serving) (x : U32) (copy : Option AvatarCopy)
    (m : ServerMessage) (mode : PacketMode) :
    (s.send m mode).copyAfter x copy = AvatarCopy.receive x (s.copyAfter x copy) m := by
  simp only [copyAfter, send, List.map_append, List.map_cons, List.map_nil, List.foldl_append,
    List.foldl_cons, List.foldl_nil]

/-- A delta, or a whole state that is not part of another event. -/
def ServerMessage.carriesState : ServerMessage → Bool
  | .playerStateDelta _ => true
  | .playerStateFull _ => true
  | _ => false

/-- No such message was sent. -/
def Serving.Silent (s : Serving) : Prop := ∀ m ∈ s.sent, m.1.carriesState = false

theorem Serving.Silent.send {s : Serving} (h : s.Silent) {m : ServerMessage}
    (hm : m.carriesState = false) (mode : PacketMode) : (s.send m mode).Silent := by
  intro k hk
  rcases List.mem_append.mp hk with hk | hk
  · exact h k hk
  · rw [List.mem_singleton.mp hk]
    exact hm

/-! ### One tick -/

/-- What a tick must find for the copy of an observer with a view to stay right: the tier leaves
out nothing that changed, snapshots that are sent whole have a jump count of zero, no teleport
comes after an emote event of the same tick, and a resync is asked from the sequence that was
last sent, or answered with a whole state. -/
structure Smooth (board : SnapshotBoard) (resyncWithDelta : Bool) (x : U32) (tier : Tier)
    (asked : Option U32) (baseline latest : PeerSnapshot) (scan : IntermediateScan) : Prop where
  tier : omitsNothing tier baseline latest = true ∧
    ∀ s ∈ scan.lastEmoteStop, omitsNothing tier s latest = true
  jumps : (∀ s ∈ scan.lastTeleport, s.jumpCount = 0) ∧ (∀ s ∈ scan.lastEmoteStart, s.jumpCount = 0) ∧
    ∀ s ∈ scan.lastEmoteStop, s.jumpCount = 0
  order : ∀ tp ∈ scan.lastTeleport, (∀ s ∈ scan.lastEmoteStart, tp.seq ≤ s.seq) ∧
    ∀ s ∈ scan.lastEmoteStop, tp.seq ≤ s.seq
  resync : ∀ lastKnownSeq ∈ asked,
    match (if resyncWithDelta then board.tryReadSeq x lastKnownSeq else none).filter
      fun k => decide (k.seq ≠ latest.seq) with
    | some k => k.seq = baseline.seq ∧ scan.lastEmoteStop = none
    | none => latest.jumpCount = 0

instance (board : SnapshotBoard) (resyncWithDelta : Bool) (x : U32) (tier : Tier)
    (asked : Option U32) (baseline latest : PeerSnapshot) (scan : IntermediateScan) :
    Decidable (Smooth board resyncWithDelta x tier asked baseline latest scan) :=
  have : DecidablePred fun lastKnownSeq =>
      match (if resyncWithDelta then board.tryReadSeq x lastKnownSeq else none).filter
        fun k => decide (k.seq ≠ latest.seq) with
      | some k => k.seq = baseline.seq ∧ scan.lastEmoteStop = none
      | none => latest.jumpCount = 0 := fun lastKnownSeq =>
    match h : (if resyncWithDelta then board.tryReadSeq x lastKnownSeq else none).filter
      fun k => decide (k.seq ≠ latest.seq) with
    | some k => decidable_of_iff (k.seq = baseline.seq ∧ scan.lastEmoteStop = none) (by simp only [h])
    | none => decidable_of_iff (latest.jumpCount = 0) (by simp only [h])
  -- not by going through all sequences
  have := Option.decidableForallMem asked (p := fun lastKnownSeq =>
    match (if resyncWithDelta then board.tryReadSeq x lastKnownSeq else none).filter
      fun k => decide (k.seq ≠ latest.seq) with
    | some k => k.seq = baseline.seq ∧ scan.lastEmoteStop = none
    | none => latest.jumpCount = 0)
  decidable_of_iff (_ ∧ _ ∧ _ ∧ _)
    ⟨fun h => ⟨h.1, h.2.1, h.2.2.1, h.2.2.2⟩, fun h => ⟨h.tier, h.jumps, h.order, h.resync⟩⟩

namespace ObserverCtx

variable {ctx : ObserverCtx} {known : U32 → PeerSnapshot → Prop} {x : U32} {tier : Tier}
  {asked : Option U32} {copy : Option AvatarCopy} {baseline latest : PeerSnapshot}
  {scan : IntermediateScan} {p : Progress}

/-- The copy is of the snapshot that was last sent, which is not newer than the emote events. -/
structure Progress.Follows (ctx : ObserverCtx) (known : U32 → PeerSnapshot → Prop) (x : U32)
    (copy : Option AvatarCopy) (p : Progress) : Prop where
  copy : p.serving.copyAfter x copy = some (AvatarCopy.ofSnapshot p.lastSentState)
  recorded : known x p.lastSentState
  faithful : Faithful ctx.board known p.serving.scanCache p.serving.deltaCache

theorem syncTeleport_follows (h : p.Follows ctx known x copy)
    (hknown : ∀ s ∈ scan.lastTeleport, known x s)
    (hjumps : ∀ s ∈ scan.lastTeleport, s.jumpCount = 0) :
    (syncTeleport p x scan).Follows ctx known x copy ∧
    (syncTeleport p x scan = p ∨ (syncTeleport p x scan).discreteEventSent = true ∧
      (syncTeleport p x scan).lastSentState ∈ scan.lastTeleport) := by
  unfold syncTeleport
  split
  · exact ⟨h, Or.inl rfl⟩
  · rename_i tp htp
    split
    · refine ⟨⟨?_, hknown tp htp, h.faithful⟩, Or.inr ⟨rfl, htp⟩⟩
      rw [← AvatarCopy.ofState_createPlayerState (hjumps tp htp)]
      exact (Serving.copyAfter_send p.serving x copy _ _).trans (if_pos rfl)
    · exact ⟨h, Or.inl rfl⟩

theorem syncEmoteStart_follows (hc : Chronicle ctx.board known) (h : p.Follows ctx known x copy)
    (hknown : ∀ s ∈ scan.lastEmoteStart, known x s)
    (hjumps : ∀ s ∈ scan.lastEmoteStart, s.jumpCount = 0)
    (horder : ∀ s ∈ scan.lastEmoteStart, p.lastSentState.seq ≤ s.seq) :
    (syncEmoteStart p x scan).Follows ctx known x copy ∧
    (syncEmoteStart p x scan = p ∨ (syncEmoteStart p x scan).discreteEventSent = true) := by
  unfold syncEmoteStart
  split
  · exact ⟨h, Or.inl rfl⟩
  · rename_i es hes
    split
    · exact ⟨h, Or.inl rfl⟩
    · split
      · exact ⟨h, Or.inl rfl⟩
      · -- the later of the two is the event, or they are the same
        have hlast : (if p.lastSentState.seq < es.seq then es else p.lastSentState) = es := by
          split
          · rfl
          · rename_i hle
            exact hc.unique x _ _ h.recorded (hknown es hes)
              (le_antisymm (horder es hes) (not_lt.mp hle))
        refine ⟨⟨?_, ?_, h.faithful⟩, Or.inr rfl⟩
        · dsimp only
          rw [hlast, ← AvatarCopy.ofState_createPlayerState (hjumps es hes)]
          exact (Serving.copyAfter_send p.serving x copy _ _).trans (if_pos rfl)
        · dsimp only
          rw [hlast]
          exact hknown es hes

theorem trySyncEmoteStop_follows (hc : Chronicle ctx.board known) (h : p.Follows ctx known x copy)
    {stop : Option PeerSnapshot} (hknown : ∀ s ∈ stop, known x s)
    (hjumps : ∀ s ∈ stop, s.jumpCount = 0) (horder : ∀ s ∈ stop, p.lastSentState.seq ≤ s.seq) :
    (trySyncEmoteStop p x stop).Follows ctx known x copy ∧
    (trySyncEmoteStop p x stop).discreteEventSent = p.discreteEventSent ∧
    (trySyncEmoteStop p x stop).serving.resync = p.serving.resync ∧
    ((trySyncEmoteStop p x stop).lastSentState = p.lastSentState ∨
      (trySyncEmoteStop p x stop).lastSentState ∈ stop) := by
  unfold trySyncEmoteStop
  split
  · exact ⟨h, rfl, rfl, Or.inl rfl⟩
  · split
    · exact ⟨h, rfl, rfl, Or.inl rfl⟩
    · rename_i st
      split
      · exact ⟨h, rfl, rfl, Or.inl rfl⟩
      · have hlast : (if p.lastSentState.seq < st.seq then st else p.lastSentState) = st := by
          split
          · rfl
          · rename_i hle
            exact hc.unique x _ _ h.recorded (hknown st rfl)
              (le_antisymm (horder st rfl) (not_lt.mp hle))
        refine ⟨⟨?_, ?_, h.faithful⟩, rfl, rfl, Or.inr ?_⟩
        · dsimp only
          rw [hlast, ← AvatarCopy.ofState_createPlayerState (hjumps st rfl)]
          exact (Serving.copyAfter_send p.serving x copy _ _).trans (if_pos rfl)
        · dsimp only
          rw [hlast]
          exact hknown st rfl
        · dsimp only
          rw [hlast]
          exact rfl

/-- A delta takes a copy of its baseline to the latest snapshot. -/
theorem sendDelta_copy (hc : Chronicle ctx.board known) {s : Serving} {base : PeerSnapshot}
    (hfaithful : Faithful ctx.board known s.scanCache s.deltaCache)
    (hcopy : s.copyAfter x copy = some (AvatarCopy.ofSnapshot base)) (hbase : known x base)
    (hl : ctx.board.tryRead x = some latest) (homits : omitsNothing tier base latest = true)
    (hplain : ctx.deltaBatch = false) (view : PeerToPeerView) (mode : PacketMode) :
    (ctx.sendDelta s view x base latest tier mode).2.copyAfter x copy =
      some (AvatarCopy.ofSnapshot latest) := by
  obtain ⟨hdelta, hsame, -⟩ := cachedDelta_faithful hc hfaithful hbase hl tier
  unfold sendDelta
  split
  · rename_i heq
    rw [hcopy, hc.unique x base latest hbase (hc.latest x latest hl) heq]
  · dsimp only
    rw [if_neg (by simp [hplain]), Serving.copyAfter_send, hdelta]
    have hsent : (cachedDelta s x base latest tier).2.copyAfter x copy =
        some (AvatarCopy.ofSnapshot base) := by
      have hcopies := congrArg (fun s : Serving => s.copyAfter x copy) hsame
      exact Eq.trans hcopies hcopy
    rw [hsent]
    exact (if_pos rfl).trans (congrArg some (AvatarCopy.apply_createDeltaMessage homits x))

theorem handleResyncOrDelta_copy (hc : Chronicle ctx.board known) {s : Serving}
    {base : PeerSnapshot} (hfaithful : Faithful ctx.board known s.scanCache s.deltaCache)
    (hcopy : s.copyAfter x copy = some (AvatarCopy.ofSnapshot base)) (hbase : known x base)
    (hl : ctx.board.tryRead x = some latest)
    (hsmooth : Smooth ctx.board ctx.resyncWithDelta x tier s.resync[x]? baseline latest scan)
    (hbaseline : known x baseline)
    (horigin : base = baseline ∨ base ∈ scan.lastEmoteStop) (hplain : ctx.deltaBatch = false)
    (view : PeerToPeerView) :
    (ctx.handleResyncOrDelta s ⟨x, tier⟩ view base latest).2.copyAfter x copy =
      some (AvatarCopy.ofSnapshot latest) := by
  have homits : omitsNothing tier base latest = true := by
    rcases horigin with rfl | hstop
    · exact hsmooth.tier.1
    · exact hsmooth.tier.2 base hstop
  unfold handleResyncOrDelta
  dsimp only
  cases hasked : s.resync[x]? with
  | none => exact sendDelta_copy hc hfaithful hcopy hbase hl homits hplain view _
  | some lastKnownSeq =>
    have hresync := hsmooth.resync lastKnownSeq hasked
    dsimp only
    generalize hk : (if ctx.resyncWithDelta = true then ctx.board.tryReadSeq x lastKnownSeq
      else none).filter (fun k => decide (k.seq ≠ latest.seq)) = k at hresync ⊢
    cases k with
    | none =>
      dsimp only at hresync ⊢
      rw [Serving.copyAfter_send, ← AvatarCopy.ofState_createPlayerState hresync]
      exact if_pos rfl
    | some k =>
      obtain ⟨hseq, hnone⟩ := hresync
      obtain ⟨hk, -⟩ := Option.filter_eq_some_iff.mp hk
      split at hk
      · have hkk : k = baseline := hc.unique x k baseline (hc.earlier x _ k hk) hbaseline hseq
        have hsame : base = k := by
          rcases horigin with rfl | hstop
          · exact hkk.symm
          · rw [hnone] at hstop
            cases hstop
        subst hsame
        exact sendDelta_copy (s := s.dropResync x) hc hfaithful hcopy hbase hl homits hplain view _
      · cases hk

/-- The emote start of a scan, or its stop where it starts none. -/
abbrev syncEmote (ctx : ObserverCtx) (p : Progress) (x : U32) (scan : IntermediateScan) : Progress :=
  if emoteStartIsEffective scan = true then
    (if (emoteStartIsEffective scan && !ctx.positionalOnly) = true then syncEmoteStart p x scan else p)
  else
    trySyncEmoteStop (if (emoteStartIsEffective scan && !ctx.positionalOnly) = true then
      syncEmoteStart p x scan else p) x scan.lastEmoteStop

theorem syncEmote_follows (hc : Chronicle ctx.board known) (h : p.Follows ctx known x copy)
    (hstart : ∀ s ∈ scan.lastEmoteStart, known x s) (hstop : ∀ s ∈ scan.lastEmoteStop, known x s)
    (hjumps : (∀ s ∈ scan.lastEmoteStart, s.jumpCount = 0) ∧
      ∀ s ∈ scan.lastEmoteStop, s.jumpCount = 0)
    (horder : ∀ e, e ∈ scan.lastEmoteStart ∨ e ∈ scan.lastEmoteStop →
      p.lastSentState.seq ≤ e.seq) :
    (ctx.syncEmote p x scan).Follows ctx known x copy ∧
    ((ctx.syncEmote p x scan).discreteEventSent = false → p.discreteEventSent = false ∧
      ((ctx.syncEmote p x scan).lastSentState = p.lastSentState ∨
        (ctx.syncEmote p x scan).lastSentState ∈ scan.lastEmoteStop) ∧
      (ctx.syncEmote p x scan).serving.resync = p.serving.resync) := by
  unfold syncEmote
  cases heff : emoteStartIsEffective scan with
  | true =>
    simp only [if_true]
    split
    · obtain ⟨h2, hcase⟩ := syncEmoteStart_follows hc h hstart hjumps.1
        (fun e he => horder e (Or.inl he))
      refine ⟨h2, fun hfalse => ?_⟩
      rcases hcase with heq | htrue
      · rw [heq] at hfalse ⊢
        exact ⟨hfalse, Or.inl rfl, rfl⟩
      · rw [htrue] at hfalse
        cases hfalse
    · exact ⟨h, fun hfalse => ⟨hfalse, Or.inl rfl, rfl⟩⟩
  | false =>
    simp only [Bool.false_and, Bool.false_eq_true, if_false]
    obtain ⟨h2, hflag, hres, hlast⟩ := trySyncEmoteStop_follows hc h hstop hjumps.2
      (fun e he => horder e (Or.inr he))
    exact ⟨h2, fun hfalse => ⟨hflag.symm.trans hfalse, hlast, hres⟩⟩

/-- The snapshot in the view afterwards is the one the copy is of, and the latest one if a delta or
a whole state was sent. -/
theorem processExistingSubject_copy (hc : Chronicle ctx.board known) {s : Serving}
    (hfaithful : Faithful ctx.board known s.scanCache s.deltaCache) {view : PeerToPeerView}
    (hcopy : s.copyAfter x copy = some (AvatarCopy.ofSnapshot view.lastSentSnapshot))
    (hbaseline : known x view.lastSentSnapshot) (hl : ctx.board.tryRead x = some latest)
    (hafter : ∀ e, e ∈ (scanIntermediateEvents ctx.board x view.lastSentSnapshot.seq
        latest).lastEmoteStart ∨
      e ∈ (scanIntermediateEvents ctx.board x view.lastSentSnapshot.seq latest).lastEmoteStop →
      view.lastSentSnapshot.seq ≤ e.seq)
    (hsmooth : Smooth ctx.board ctx.resyncWithDelta x tier s.resync[x]? view.lastSentSnapshot latest
      (scanIntermediateEvents ctx.board x view.lastSentSnapshot.seq latest))
    (hplain : ctx.deltaBatch = false) :
    (ctx.processExistingSubject s ⟨x, tier⟩ view latest).2.copyAfter x copy =
      some (AvatarCopy.ofSnapshot
        (ctx.processExistingSubject s ⟨x, tier⟩ view latest).1.lastSentSnapshot) ∧
    known x (ctx.processExistingSubject s ⟨x, tier⟩ view latest).1.lastSentSnapshot := by
  obtain ⟨hscan, hsame, hfaithful'⟩ := cachedScan_faithful hfaithful hl view.lastSentSnapshot.seq
  obtain ⟨hstart, hstop, hteleport⟩ := hc.scan hl view.lastSentSnapshot.seq
  unfold processExistingSubject
  dsimp only
  rw [hscan]
  have h0 : Progress.Follows ctx known x copy ⟨view, view.lastSentSnapshot, false,
      (ctx.cachedScan s x view.lastSentSnapshot.seq latest).2⟩ := by
    have hcopies := congrArg (fun s : Serving => s.copyAfter x copy) hsame
    exact ⟨Eq.trans hcopies hcopy, hbaseline, hfaithful'⟩
  have hresync : (ctx.cachedScan s x view.lastSentSnapshot.seq latest).2.resync = s.resync := by
    have hfield := congrArg Serving.resync hsame
    exact hfield
  generalize scanIntermediateEvents ctx.board x view.lastSentSnapshot.seq latest = scan
    at hstart hstop hteleport hafter hsmooth ⊢
  generalize (ctx.cachedScan s x view.lastSentSnapshot.seq latest).2 = s0 at h0 hresync ⊢
  -- teleport
  obtain ⟨h1, hcase1⟩ := syncTeleport_follows h0 hteleport hsmooth.jumps.1
  have hquiet1 : (syncTeleport ⟨view, view.lastSentSnapshot, false, s0⟩ x scan).discreteEventSent =
      false → (syncTeleport ⟨view, view.lastSentSnapshot, false, s0⟩ x scan).lastSentState =
        view.lastSentSnapshot ∧
      (syncTeleport ⟨view, view.lastSentSnapshot, false, s0⟩ x scan).serving.resync = s.resync := by
    intro hfalse
    rcases hcase1 with heq | ⟨htrue, -⟩
    · rw [heq]
      exact ⟨rfl, hresync⟩
    · rw [htrue] at hfalse
      cases hfalse
  have horder1 : ∀ e, e ∈ scan.lastEmoteStart ∨ e ∈ scan.lastEmoteStop →
      (syncTeleport ⟨view, view.lastSentSnapshot, false, s0⟩ x scan).lastSentState.seq ≤ e.seq := by
    intro e he
    rcases hcase1 with heq | ⟨-, htp⟩
    · rw [heq]
      exact hafter e he
    · rcases he with he | he
      · exact (hsmooth.order _ htp).1 e he
      · exact (hsmooth.order _ htp).2 e he
  generalize syncTeleport ⟨view, view.lastSentSnapshot, false, s0⟩ x scan = p1
    at h1 hquiet1 horder1 ⊢
  clear hcase1 h0
  obtain ⟨hfollows, hquiet⟩ := syncEmote_follows hc h1 hstart hstop hsmooth.jumps.2 horder1
  unfold syncEmote at hfollows hquiet
  generalize (if emoteStartIsEffective scan = true then _ else _ : Progress) = p3 at hfollows hquiet ⊢
  cases hsent : p3.discreteEventSent with
  | true =>
    simp only [if_true]
    exact ⟨hfollows.copy, hfollows.recorded⟩
  | false =>
    simp only [Bool.false_eq_true, if_false]
    obtain ⟨hquiet2, horigin, hres⟩ := hquiet hsent
    obtain ⟨hlast1, hres1⟩ := hquiet1 hquiet2
    rw [hlast1] at horigin
    rw [← hres1, ← hres] at hsmooth
    exact ⟨handleResyncOrDelta_copy hc hfollows.faithful hfollows.copy hfollows.recorded hl hsmooth
      hbaseline horigin hplain p3.view, hc.latest x latest hl⟩

/-! A delta or a whole state of its own is only sent together with the latest snapshot. -/

theorem syncTeleport_silent (h : p.serving.Silent) : (syncTeleport p x scan).serving.Silent := by
  unfold syncTeleport
  split
  · exact h
  · split
    · exact h.send rfl _
    · exact h

theorem syncEmoteStart_silent (h : p.serving.Silent) :
    (syncEmoteStart p x scan).serving.Silent := by
  unfold syncEmoteStart
  split
  · exact h
  · split
    · exact h
    · split
      · exact h
      · exact h.send rfl _

theorem trySyncEmoteStop_silent {stop : Option PeerSnapshot} (h : p.serving.Silent) :
    (trySyncEmoteStop p x stop).serving.Silent := by
  unfold trySyncEmoteStop
  split
  · exact h
  · split
    · exact h
    · split
      · exact h
      · exact h.send rfl _

theorem processExistingSubject_silent (ctx : ObserverCtx) {s : Serving} (h : s.Silent)
    (entry : InterestEntry) (view : PeerToPeerView) (latest : PeerSnapshot) :
    (ctx.processExistingSubject s entry view latest).1.lastSentSnapshot = latest ∨
    (ctx.processExistingSubject s entry view latest).2.Silent := by
  have hscan : (ctx.cachedScan s entry.subject view.lastSentSnapshot.seq latest).2.Silent := by
    unfold cachedScan
    dsimp only
    split <;> exact h
  unfold processExistingSubject
  dsimp only
  generalize ctx.cachedScan s entry.subject view.lastSentSnapshot.seq latest = r at hscan ⊢
  have h1 : (syncTeleport ⟨view, view.lastSentSnapshot, false, r.2⟩ entry.subject r.1).serving.Silent :=
    syncTeleport_silent hscan
  generalize syncTeleport ⟨view, view.lastSentSnapshot, false, r.2⟩ entry.subject r.1 = p1 at h1 ⊢
  have h2 : (if (emoteStartIsEffective r.1 && !ctx.positionalOnly) = true then
      syncEmoteStart p1 entry.subject r.1 else p1).serving.Silent := by
    split
    · exact syncEmoteStart_silent h1
    · exact h1
  generalize (if (emoteStartIsEffective r.1 && !ctx.positionalOnly) = true then
    syncEmoteStart p1 entry.subject r.1 else p1) = p2 at h2 ⊢
  have h3 : (if emoteStartIsEffective r.1 = true then p2 else
      trySyncEmoteStop p2 entry.subject r.1.lastEmoteStop).serving.Silent := by
    split
    · exact h2
    · exact trySyncEmoteStop_silent h2
  generalize (if emoteStartIsEffective r.1 = true then p2 else
    trySyncEmoteStop p2 entry.subject r.1.lastEmoteStop) = p3 at h3 ⊢
  split
  · exact Or.inr h3
  · exact Or.inl rfl

/-- A view is of a known snapshot, of which the observer has a copy. -/
def Lossless (known : U32 → PeerSnapshot → Prop) (x : U32) (copy : Option AvatarCopy) (s : Serving) :
    Prop :=
  ∀ v, s.views[x]? = some v → known x v.lastSentSnapshot ∧
    s.copyAfter x copy = some (AvatarCopy.ofSnapshot v.lastSentSnapshot)

/-- Nothing that carries a state was sent, or the view is of the latest snapshot. -/
def Told (ctx : ObserverCtx) (x : U32) (s : Serving) : Prop :=
  s.Silent ∨ ∃ v, s.views[x]? = some v ∧ ctx.board.tryRead x = some v.lastSentSnapshot ∧
    v.lastSeenTick = ctx.tickCounter

theorem processNew_lossless (hc : Chronicle ctx.board known) {s : Serving} (hsilent : s.Silent)
    (hnone : s.views[x]? = none)
    (hjumps : ctx.skipsTick tier = false → ∀ latest ∈ ctx.board.tryRead x, latest.jumpCount = 0) :
    Lossless known x copy (ctx.processNew s ⟨x, tier⟩) ∧ Told ctx x (ctx.processNew s ⟨x, tier⟩) := by
  have hstays : Lossless known x copy s ∧ Told ctx x s := by
    refine ⟨fun v hv => ?_, Or.inl hsilent⟩
    rw [hnone] at hv
    cases hv
  unfold processNew
  split
  · exact hstays
  · rename_i hskip
    dsimp only
    split
    · exact hstays
    · rename_i latest hl
      have hwhole := AvatarCopy.ofState_createPlayerState
        (hjumps (Bool.eq_false_iff.mpr hskip) latest hl)
      have hcopy : (ctx.handleNewSubject s x latest).2.copyAfter x copy =
          some (AvatarCopy.ofSnapshot latest) := by
        unfold handleNewSubject
        dsimp only
        rw [← hwhole]
        split
        · split
          · rw [Serving.copyAfter_send]
            exact if_pos rfl
          · exact (Serving.copyAfter_send _ x copy _ _).trans (if_pos rfl)
        · rw [Serving.copyAfter_send]
          exact if_pos rfl
      have hview : (ctx.handleNewSubject s x latest).1.lastSentSnapshot = latest ∧
          (ctx.handleNewSubject s x latest).1.lastSeenTick = ctx.tickCounter := by
        unfold handleNewSubject
        dsimp only
        split
        · split <;> exact ⟨rfl, rfl⟩
        · exact ⟨rfl, rfl⟩
      refine ⟨fun v hv => ?_, Or.inr ⟨(ctx.handleNewSubject s x latest).1, by simp, ?_, hview.2⟩⟩
      · simp only [OrdMap.find_insert, if_true, Option.some.injEq] at hv
        rw [← hv, hview.1]
        exact ⟨hc.latest x latest hl, hcopy⟩
      · rw [hview.1]
        exact hl

theorem reportKnown_lossless (hc : Chronicle ctx.board known) {s : Serving} (hsilent : s.Silent)
    (hfaithful : Faithful ctx.board known s.scanCache s.deltaCache) {view : PeerToPeerView}
    (hcopy : s.copyAfter x copy = some (AvatarCopy.ofSnapshot view.lastSentSnapshot))
    (hbaseline : known x view.lastSentSnapshot) (hseen : view.lastSeenTick = ctx.tickCounter)
    (hl : ctx.board.tryRead x = some latest)
    (hafter : ∀ e, e ∈ (scanIntermediateEvents ctx.board x view.lastSentSnapshot.seq
        latest).lastEmoteStart ∨
      e ∈ (scanIntermediateEvents ctx.board x view.lastSentSnapshot.seq latest).lastEmoteStop →
      view.lastSentSnapshot.seq ≤ e.seq)
    (hsmooth : Smooth ctx.board ctx.resyncWithDelta x tier s.resync[x]? view.lastSentSnapshot latest
      (scanIntermediateEvents ctx.board x view.lastSentSnapshot.seq latest))
    (hplain : ctx.deltaBatch = false) :
    Lossless known x copy (ctx.reportKnown s ⟨x, tier⟩ view latest) ∧
      Told ctx x (ctx.reportKnown s ⟨x, tier⟩ view latest) := by
  have hann : ∃ a, a = (if ctx.positionalOnly = true then (view, s)
      else ctx.tryAnnounceProfile s x view) ∧ a.1.lastSentSnapshot = view.lastSentSnapshot ∧
      a.1.lastSeenTick = view.lastSeenTick ∧ a.2.copyAfter x copy = s.copyAfter x copy ∧
      a.2.Silent ∧ a.2.resync = s.resync ∧
      Faithful ctx.board known a.2.scanCache a.2.deltaCache := by
    refine ⟨_, rfl, ?_⟩
    split
    · exact ⟨rfl, rfl, rfl, hsilent, rfl, hfaithful⟩
    · unfold tryAnnounceProfile
      dsimp only
      split
      · exact ⟨rfl, rfl, rfl, hsilent, rfl, hfaithful⟩
      · exact ⟨rfl, rfl, Serving.copyAfter_send s x copy _ _, hsilent.send rfl _, rfl, hfaithful⟩
  obtain ⟨a, ha, hlast, hseen', hcopies, hsilent', hresync, hfaithful'⟩ := hann
  unfold reportKnown
  dsimp only
  rw [← ha]
  rw [← hlast] at hcopy hbaseline hafter hsmooth
  rw [← hresync] at hsmooth
  obtain ⟨hfollows, hrecorded⟩ := processExistingSubject_copy hc hfaithful' (hcopies.trans hcopy)
    hbaseline hl hafter hsmooth hplain
  have hcontinues := ctx.processExistingSubject_continues a.2 ⟨x, tier⟩ a.1 latest
  refine ⟨fun v hv => ?_, ?_⟩
  · simp only [OrdMap.find_insert, if_true, Option.some.injEq] at hv
    rw [← hv]
    exact ⟨hrecorded, hfollows⟩
  · rcases ctx.processExistingSubject_silent hsilent' ⟨x, tier⟩ a.1 latest with hlatest | hquiet
    · refine Or.inr ⟨(ctx.processExistingSubject a.2 ⟨x, tier⟩ a.1 latest).1, by simp, ?_, ?_⟩
      · rw [hlatest]
        exact hl
      · rw [hcontinues.seen, hseen', hseen]
    · exact Or.inl hquiet

theorem processKnown_lossless (hc : Chronicle ctx.board known) {s : Serving} (hsilent : s.Silent)
    (hfaithful : Faithful ctx.board known s.scanCache s.deltaCache)
    (h : Lossless known x copy s) {view : PeerToPeerView} (hview : s.views[x]? = some view)
    (hafter : ∀ latest ∈ ctx.board.tryRead x, ∀ e,
      e ∈ (scanIntermediateEvents ctx.board x view.lastSentSnapshot.seq latest).lastEmoteStart ∨
      e ∈ (scanIntermediateEvents ctx.board x view.lastSentSnapshot.seq latest).lastEmoteStop →
      view.lastSentSnapshot.seq ≤ e.seq)
    (hsmooth : (ctx.skipsTick tier && s.resync[x]?.isNone) = false → ∀ latest ∈ ctx.board.tryRead x,
      Smooth ctx.board ctx.resyncWithDelta x tier s.resync[x]? view.lastSentSnapshot latest
        (scanIntermediateEvents ctx.board x view.lastSentSnapshot.seq latest))
    (hplain : ctx.deltaBatch = false) :
    Lossless known x copy (ctx.processKnown s ⟨x, tier⟩ view) ∧
      Told ctx x (ctx.processKnown s ⟨x, tier⟩ view) := by
  obtain ⟨hknown, hcopy⟩ := h view hview
  have hstays : Lossless known x copy { s with
      views := s.views.insert x { view with lastSeenTick := ctx.tickCounter } } ∧
      Told ctx x { s with
        views := s.views.insert x { view with lastSeenTick := ctx.tickCounter } } := by
    refine ⟨fun v hv => ?_, Or.inl hsilent⟩
    simp only [OrdMap.find_insert, if_true, Option.some.injEq] at hv
    rw [← hv]
    exact ⟨hknown, hcopy⟩
  unfold processKnown
  dsimp only
  split
  · exact hstays
  · rename_i hskip
    split
    · exact hstays
    · rename_i latest hl
      have hasked : (ctx.skipsTick tier && s.resync[x]?.isNone) = false := by
        cases hr : s.resync[x]? with
        | none => simpa [hr] using hskip
        | some k => simp
      have hsmooth' := hsmooth hasked latest hl
      exact reportKnown_lossless (s := { s with
        views := s.views.insert x { view with lastSeenTick := ctx.tickCounter } }) hc hsilent hfaithful
        hcopy hknown rfl hl (hafter latest hl) hsmooth' hplain

theorem processVisibleSubject_lossless (hc : Chronicle ctx.board known) {s : Serving}
    (hsilent : s.Silent) (hfaithful : Faithful ctx.board known s.scanCache s.deltaCache)
    (h : Lossless known x copy s)
    (hafter : ∀ view, s.views[x]? = some view → ∀ latest ∈ ctx.board.tryRead x, ∀ e,
      e ∈ (scanIntermediateEvents ctx.board x view.lastSentSnapshot.seq latest).lastEmoteStart ∨
      e ∈ (scanIntermediateEvents ctx.board x view.lastSentSnapshot.seq latest).lastEmoteStop →
      view.lastSentSnapshot.seq ≤ e.seq)
    (hsmooth : ∀ latest ∈ ctx.board.tryRead x, (ctx.skipsTick tier && s.resync[x]?.isNone) = false →
      match s.views[x]?.filter fun v => sameWallet v.lastSentWalletId (ctx.currentWallet x) with
      | none => latest.jumpCount = 0
      | some view => Smooth ctx.board ctx.resyncWithDelta x tier s.resync[x]? view.lastSentSnapshot
          latest (scanIntermediateEvents ctx.board x view.lastSentSnapshot.seq latest))
    (hplain : ctx.deltaBatch = false) :
    Lossless known x copy (ctx.processVisibleSubject s ⟨x, tier⟩) ∧
      Told ctx x (ctx.processVisibleSubject s ⟨x, tier⟩) := by
  have hjumps : (s.views[x]?.filter fun v =>
      sameWallet v.lastSentWalletId (ctx.currentWallet x)) = none →
      ctx.skipsTick tier = false → ∀ latest ∈ ctx.board.tryRead x, latest.jumpCount = 0 := by
    intro hnone hskip latest hl
    have hfound := hsmooth latest hl (by rw [hskip]; rfl)
    rw [hnone] at hfound
    exact hfound
  unfold processVisibleSubject
  split
  · exact ⟨h, Or.inl hsilent⟩
  · cases hv : s.views[x]? with
    | none =>
      dsimp only
      rw [hv] at hjumps
      exact processNew_lossless hc hsilent hv (hjumps rfl)
    | some view =>
      dsimp only
      cases hsame : sameWallet view.lastSentWalletId (ctx.currentWallet x) with
      | true =>
        simp only [detectAndHandleAliasing, hsame, if_true, Bool.false_eq_true, if_false]
        refine processKnown_lossless hc hsilent hfaithful h hv (hafter view hv)
          (fun hskip latest hl => ?_) hplain
        have hfound := hsmooth latest hl hskip
        rw [hv, Option.filter_some, if_pos hsame] at hfound
        exact hfound
      | false =>
        simp only [detectAndHandleAliasing, hsame, Bool.false_eq_true, if_false, if_true]
        refine processNew_lossless hc (hsilent.send rfl _) (by simp) (hjumps ?_)
        rw [hv, Option.filter_some, if_neg (by simp [hsame])]

/-- Whatever is swept, a subject served just now is not. -/
theorem sweepStaleViews_lossless {s : Serving} (h : Lossless known x copy s) (htold : Told ctx x s) :
    Lossless known x copy (ctx.sweepStaleViews s) ∧
      ((ctx.sweepStaleViews s).Silent ∨ ∃ v, (ctx.sweepStaleViews s).views[x]? = some v ∧
        ctx.board.tryRead x = some v.lastSentSnapshot) := by
  have hleft : ∀ m ∈ (ctx.staleSubjects s).map fun y =>
      ((.playerLeft y, .reliable) : ServerMessage × PacketMode), m.1.carriesState = false := by
    intro m hm
    obtain ⟨y, -, rfl⟩ := List.mem_map.mp hm
    rfl
  have hcopies : x ∉ ctx.staleSubjects s →
      (ctx.sweepStaleViews s).copyAfter x copy = s.copyAfter x copy := by
    intro hx
    rw [Serving.copyAfter, ctx.sweepStaleViews_sent, Serving.copyAfter, List.map_append,
      List.foldl_append]
    generalize (s.sent.map Prod.fst).foldl (AvatarCopy.receive x) copy = c
    generalize ctx.staleSubjects s = stale at hx
    induction stale with
    | nil => rfl
    | cons y stale ih =>
      rw [List.mem_cons, not_or] at hx
      have hsame : AvatarCopy.receive x c (.playerLeft y) = c := if_neg (Ne.symm hx.1)
      rw [List.map_cons, List.map_cons, List.foldl_cons, hsame, ih hx.2]
  refine ⟨fun v hv => ?_, ?_⟩
  · rw [ctx.find_sweepStaleViews] at hv
    split at hv
    · cases hv
    · rename_i hx
      rw [hcopies hx]
      exact h v hv
  · rcases htold with hquiet | ⟨v, hv, hlatest, hseen⟩
    · refine Or.inl fun m hm => ?_
      rw [ctx.sweepStaleViews_sent] at hm
      rcases List.mem_append.mp hm with hm | hm
      · exact hquiet m hm
      · exact hleft m hm
    · refine Or.inr ⟨v, ?_, hlatest⟩
      rw [ctx.find_sweepStaleViews, if_neg (notMem_staleSubjects hv hseen)]
      exact hv

end ObserverCtx

/-! ### One observer of one subject -/

structure WatchTick where
  now : U32
  tickCounter : U32
  profiles : ProfileBoard
  /-- The tier of the subject, if it is visible. -/
  tier : Option Tier
  /-- The sequence that a resync of the subject was asked from since the last tick. -/
  asked : Option U32

inductive WatchEvent where
  | input (now : U32) (state : PlayerState) (emote : Option EmoteInput)
  | teleport (now : U32) (request : TeleportRequest)
  | emoteStop (now : U32)
  | tick (tick : WatchTick)

/-- The board that a subject publishes on, and the views of an observer of it. -/
structure Observed where
  board : SnapshotBoard
  views : OrdMap U32 PeerToPeerView

namespace Observed

variable (base : ObserverCtx) (x : U32)

/-- The subject's session starts. -/
def new (ringCapacity : ℕ) (x : U32) : Observed := ⟨(SnapshotBoard.new ringCapacity).setActive x, ∅⟩

def ctx (o : Observed) (t : WatchTick) : ObserverCtx :=
  { base with board := o.board, profiles := t.profiles, tickCounter := t.tickCounter }

def start (o : Observed) (t : WatchTick) : Serving where
  views := o.views
  sent := []
  resync := t.asked.elim ∅ fun lastKnownSeq => (∅ : OrdMap U32 U32).insert x lastKnownSeq
  batch := []
  scanCache := ∅
  deltaCache := ∅

/-- The observer is served the subject, if it sees it. -/
def processed (o : Observed) (t : WatchTick) : Serving :=
  (o.ctx base t).processVisibleSubjects (o.start x t) (t.tier.toList.map fun tier => ⟨x, tier⟩)

def sweep (o : Observed) (t : WatchTick) (s : Serving) : Serving :=
  if t.tickCounter.val % SWEEP_INTERVAL = 0 then (o.ctx base t).sweepStaleViews s else s

/-- The board after an event. -/
def published (o : Observed) : WatchEvent → SnapshotBoard
  | .input now state emote => publishFromPlayerState o.board x now state emote
  | .teleport now request => publishTeleport o.board x now request
  | .emoteStop now => publishEmoteStop o.board x now
  | .tick _ => o.board

/-- There is a sequence left for what is published. -/
def room (o : Observed) : WatchEvent → Prop
  | .tick _ => True
  | _ => o.board.lastSeq x ≠ NO_SEQ - 1

instance (x : U32) (o : Observed) (e : WatchEvent) : Decidable (o.room x e) :=
  match e with
  | .tick _ => .isTrue trivial
  | .input _ _ _ => inferInstanceAs (Decidable (o.board.lastSeq x ≠ NO_SEQ - 1))
  | .teleport _ _ => inferInstanceAs (Decidable (o.board.lastSeq x ≠ NO_SEQ - 1))
  | .emoteStop _ => inferInstanceAs (Decidable (o.board.lastSeq x ≠ NO_SEQ - 1))

theorem room_of_published {o : Observed} {x : U32} {e : WatchEvent} (he : ∀ t, e ≠ .tick t)
    (h : o.room x e) : o.board.lastSeq x ≠ NO_SEQ - 1 := by
  cases e with
  | input now state emote => exact h
  | teleport now request => exact h
  | emoteStop now => exact h
  | tick t => exact absurd rfl (he t)

theorem published_published (o : Observed) (x : U32) (e : WatchEvent) :
    Published o.board (o.published x e) x := by
  cases e with
  | input now state emote => exact Or.inr ⟨_, rfl, rfl⟩
  | teleport now request => exact Or.inr ⟨_, rfl, rfl⟩
  | emoteStop now => exact publishEmoteStop_published o.board x now
  | tick t => exact Or.inl rfl

theorem resync_start (o : Observed) (x : U32) (t : WatchTick) :
    (o.start x t).resync[x]? = t.asked := by
  unfold start
  cases t.asked with
  | none => simp
  | some k => simp

end Observed

/-- An observer of one subject with its copy of it. -/
structure Watch extends Observed where
  copy : Option AvatarCopy

namespace Watch

variable (base : ObserverCtx) (x : U32)

def new (ringCapacity : ℕ) (x : U32) : Watch := ⟨Observed.new ringCapacity x, none⟩

/-- The observer takes no batches. -/
def ctx (w : Watch) (t : WatchTick) : ObserverCtx := w.toObserved.ctx { base with deltaBatch := false } t

/-- The tick of the observer, as `serve` has it. -/
def serve (w : Watch) (t : WatchTick) : Serving :=
  w.sweep { base with deltaBatch := false } t (w.processed { base with deltaBatch := false } x t)

def next (w : Watch) : WatchEvent → Watch
  | .tick t =>
    let s := w.serve base x t
    { w with views := s.views, copy := s.copyAfter x w.copy }
  | e => { w with board := w.published x e }

def step (w : Watch) (e : WatchEvent) : Option Watch := some (w.next base x e)

/-- The view that the tick goes by: one made for another wallet is dropped. -/
def view (w : Watch) : Option PeerToPeerView :=
  w.views[x]?.filter fun v => ObserverCtx.sameWallet v.lastSentWalletId (base.currentWallet x)

/-- What an event must find. A tick that skips the subject's tier may find anything. -/
def smooth (w : Watch) : WatchEvent → Prop
  | .tick t => ∀ tier ∈ t.tier, ∀ latest ∈ w.board.tryRead x,
      ((w.ctx base t).skipsTick tier && t.asked.isNone) = false →
      match w.view base x with
      | none => latest.jumpCount = 0
      | some view => Smooth w.board base.resyncWithDelta x tier t.asked view.lastSentSnapshot latest
          (scanIntermediateEvents w.board x view.lastSentSnapshot.seq latest)
  | e => w.room x e

instance (base : ObserverCtx) (x : U32) (w : Watch) (e : WatchEvent) :
    Decidable (w.smooth base x e) :=
  match e with
  | .tick t =>
    have : ∀ tier : Tier, DecidablePred fun latest : PeerSnapshot =>
        ((w.ctx base t).skipsTick tier && t.asked.isNone) = false →
        match w.view base x with
        | none => latest.jumpCount = 0
        | some view => Smooth w.board base.resyncWithDelta x tier t.asked view.lastSentSnapshot latest
            (scanIntermediateEvents w.board x view.lastSentSnapshot.seq latest) := fun tier latest =>
      match w.view base x with
      | none => decidable_of_iff (((w.ctx base t).skipsTick tier && t.asked.isNone) = false →
          latest.jumpCount = 0) Iff.rfl
      | some view => decidable_of_iff (((w.ctx base t).skipsTick tier && t.asked.isNone) = false →
          Smooth w.board base.resyncWithDelta x tier t.asked view.lastSentSnapshot latest
            (scanIntermediateEvents w.board x view.lastSentSnapshot.seq latest)) Iff.rfl
    inferInstanceAs (Decidable (∀ tier ∈ t.tier, ∀ latest ∈ w.board.tryRead x, _))
  | .input now state emote => inferInstanceAs (Decidable (w.room x (.input now state emote)))
  | .teleport now request => inferInstanceAs (Decidable (w.room x (.teleport now request)))
  | .emoteStop now => inferInstanceAs (Decidable (w.room x (.emoteStop now)))

variable {base : ObserverCtx} {x : U32} {w : Watch} {t : WatchTick}

/-- The ring holds the history of the subject, and the view is of the snapshot that the copy is
of. -/
structure Inv (x : U32) (w : Watch) (history : U32 → ℕ → PeerSnapshot) : Prop where
  capacity : 0 < w.board.ringCapacity
  recorded : w.board.Recorded history
  views : ∀ v, w.views[x]? = some v → w.board.Known history x v.lastSentSnapshot ∧
    w.copy = some (AvatarCopy.ofSnapshot v.lastSentSnapshot)

/-- No event after a known snapshot is older than it. -/
theorem Inv.after {history : U32 → ℕ → PeerSnapshot} (h : w.Inv x history)
    {baseline latest : PeerSnapshot} (hb : w.board.Known history x baseline)
    (hl : w.board.tryRead x = some latest) {e : PeerSnapshot}
    (he : e ∈ (scanIntermediateEvents w.board x baseline.seq latest).lastEmoteStart ∨
      e ∈ (scanIntermediateEvents w.board x baseline.seq latest).lastEmoteStop) :
    baseline.seq ≤ e.seq := by
  obtain ⟨hlast, hle, -⟩ := hb
  have hlt : (w.board.lastSeq x).val < 4294967295 := by
    have := (w.board.lastSeq x).isLt
    have hne : (w.board.lastSeq x).val ≠ 4294967295 := fun heq => hlast (Fin.ext heq)
    omega
  have hfrom : baseline.seq ≠ NO_SEQ := by
    intro heq
    rw [heq] at hle
    exact absurd hle (by simp only [NO_SEQ, u32Max]; omega)
  have hread : ∀ seq ∈ seqsBetween baseline.seq latest.seq, ∀ s,
      w.board.tryReadSeq x seq = some s → baseline.seq ≤ s.seq := by
    intro seq hseq s hs
    rw [SnapshotBoard.seq_of_tryReadSeq hs]
    exact Fin.le_def.mpr ((SnapshotBoard.mem_seqsBetween hfrom).mp hseq).1.le
  have hlatest : baseline.seq ≤ latest.seq := by
    rw [Fin.le_def, h.recorded.seq_of_tryRead h.capacity hl]
    exact hle
  rcases he with he | he
  · exact (scan_all hread hlatest).1 e he
  · exact scan_lastEmoteStop hread e he

/-- A tick keeps view and copy together, and sends deltas and whole states of the latest
snapshot. -/
theorem serve_lossless {history : U32 → ℕ → PeerSnapshot} (h : w.Inv x history)
    (hsmooth : w.smooth base x (.tick t)) :
    ObserverCtx.Lossless (w.board.Known history) x w.copy (w.serve base x t) ∧
      ((w.serve base x t).Silent ∨ ∃ v, (w.serve base x t).views[x]? = some v ∧
        w.board.tryRead x = some v.lastSentSnapshot) := by
  have hc : Chronicle (w.ctx base t).board (w.board.Known history) := h.recorded.chronicle
  have hprocessed : ObserverCtx.Lossless (w.board.Known history) x w.copy
        (w.processed { base with deltaBatch := false } x t) ∧
      ObserverCtx.Told (w.ctx base t) x (w.processed { base with deltaBatch := false } x t) := by
    have hstart : ObserverCtx.Lossless (w.board.Known history) x w.copy (w.start x t) := h.views
    have hsilent : (w.start x t).Silent := fun m hm => nomatch hm
    unfold Observed.processed
    cases htier : t.tier with
    | none => exact ⟨hstart, Or.inl hsilent⟩
    | some tier =>
      refine ObserverCtx.processVisibleSubject_lossless hc hsilent (faithful_empty _ _) hstart
        (fun view hv latest hl e he => h.after (h.views view hv).1 hl he) (fun latest hl hskip => ?_) rfl
      rw [Observed.resync_start] at hskip ⊢
      exact hsmooth tier htier latest hl hskip
  unfold serve Observed.sweep
  split
  · exact ObserverCtx.sweepStaleViews_lossless hprocessed.1 hprocessed.2
  · refine ⟨hprocessed.1, ?_⟩
    rcases hprocessed.2 with hquiet | ⟨v, hv, hlatest, -⟩
    · exact Or.inl hquiet
    · exact Or.inr ⟨v, hv, hlatest⟩

theorem ringCapacity_published {board board' : SnapshotBoard} (h : Published board board' x) :
    board'.ringCapacity = board.ringCapacity := by
  rcases h with rfl | ⟨snapshot, -, rfl⟩
  · rfl
  · exact SnapshotBoard.ringCapacity_publish board x snapshot

/-- One more snapshot. -/
theorem Inv.published {history : U32 → ℕ → PeerSnapshot} (h : w.Inv x history)
    {board' : SnapshotBoard} (hpub : Published w.board board' x)
    (hroom : w.board.lastSeq x ≠ NO_SEQ - 1) :
    ∃ history', Watch.Inv x { w with board := board' } history' := by
  obtain ⟨history', hrec, hknown⟩ := hpub.grows hroom history h.recorded
  refine ⟨history', ?_, hrec, fun v hv => ?_⟩
  · rw [ringCapacity_published hpub]
    exact h.capacity
  · obtain ⟨hv', hcopy⟩ := h.views v hv
    exact ⟨hknown x _ hv', hcopy⟩

theorem next_inv {e : WatchEvent} (h : ∃ history, w.Inv x history) (hsmooth : w.smooth base x e) :
    ∃ history, (w.next base x e).Inv x history := by
  obtain ⟨history, h⟩ := h
  cases e with
  | input now state emote => exact h.published (w.published_published x _) hsmooth
  | teleport now request => exact h.published (w.published_published x _) hsmooth
  | emoteStop now => exact h.published (w.published_published x _) hsmooth
  | tick t => exact ⟨history, h.capacity, h.recorded, (serve_lossless h hsmooth).1⟩

theorem inv_new {ringCapacity : ℕ} (hpos : 0 < ringCapacity) (x : U32) :
    ∃ history, (Watch.new ringCapacity x).Inv x history := by
  obtain ⟨history, hrec, -⟩ := SnapshotBoard.grows_setActive (SnapshotBoard.new ringCapacity) x
    (fun _ _ => PeerSnapshot.default) (SnapshotBoard.recorded_new _ _)
  refine ⟨history, hpos, hrec, fun v hv => ?_⟩
  simp [Watch.new, Observed.new] at hv

end Watch

/-- In every run whose events all find what they must find, after any tick that sends a
delta or a whole state of the subject, the observer's copy is the latest snapshot's. -/
theorem copy_is_latest (base : ObserverCtx) (x : U32) (ringCapacity : ℕ) (hpos : 0 < ringCapacity)
    (events : List WatchEvent) (t : WatchTick) (w : Watch)
    (hmeets : Machine.Meets (Watch.step base x) (Watch.smooth base x) (Watch.new ringCapacity x)
      (events ++ [.tick t]))
    (hrun : Machine.run (Watch.step base x) (Watch.new ringCapacity x) events = some w)
    (hsent : ∃ m ∈ (w.serve base x t).sent, m.1.carriesState = true) :
    ∃ latest, w.board.tryRead x = some latest ∧
      (w.next base x (.tick t)).copy = some (AvatarCopy.ofSnapshot latest) := by
  have hinv : ∃ history, w.Inv x history :=
    Machine.run_invariant_of_meets (Watch.step base x) (P := fun w => ∃ history, w.Inv x history)
      (fun _ _ _ hs hok hstep => Option.some.inj hstep ▸ Watch.next_inv hs hok) events _ w
      (Machine.meets_append_left (Watch.step base x) hmeets) hrun (Watch.inv_new hpos x)
  obtain ⟨history, hinv⟩ := hinv
  have hsmooth := Machine.meets_last (Watch.step base x) hmeets hrun
  obtain ⟨hlossless, htold⟩ := Watch.serve_lossless hinv hsmooth
  rcases htold with hsilent | ⟨v, hv, hlatest⟩
  · obtain ⟨m, hm, hcarries⟩ := hsent
    rw [hsilent m hm] at hcarries
    cases hcarries
  · exact ⟨v.lastSentSnapshot, hlatest, (hlossless v hv).2⟩

/-! A subject speeds up and then moves on. In between it is served once, at some tier. -/

def plainCtx : ObserverCtx :=
  { observer := 0
    board := SnapshotBoard.new 10
    identity := IdentityBoard.new.set id 1 ['a']
    profiles := ProfileBoard.new
    tickCounter := 0
    positionalOnly := false
    deltaBatch := false
    tierDivisors := PulseConfig.default.tierDivisors
    selfMirrorEnabled := false
    resyncWithDelta := false }

def watchTick (tickCounter : U32) (tier : Tier) : WatchTick :=
  ⟨0, tickCounter, ProfileBoard.new, some tier, none⟩

def speedsUp (tier : Tier) : List WatchEvent :=
  [.input 1 stillState none, .tick (watchTick 4 TIER_0),
    .input 2 { stillState with velocityX := 7 } none, .tick (watchTick 8 tier),
    .input 3 { stillState with velocityX := 7, positionX := 5 } none]

theorem copy_is_latest_speedsUp :
    Machine.Meets (Watch.step plainCtx 1) (Watch.smooth plainCtx 1) (Watch.new 10 1)
      (speedsUp TIER_1 ++ [.tick (watchTick 12 TIER_0)]) ∧
    ∃ w, Machine.run (Watch.step plainCtx 1) (Watch.new 10 1) (speedsUp TIER_1) = some w ∧
      ∃ latest, w.board.tryRead 1 = some latest ∧
        (w.next plainCtx 1 (.tick (watchTick 12 TIER_0))).copy =
          some (AvatarCopy.ofSnapshot latest) := by
  have hmeets : Machine.Meets (Watch.step plainCtx 1) (Watch.smooth plainCtx 1) (Watch.new 10 1)
      (speedsUp TIER_1 ++ [.tick (watchTick 12 TIER_0)]) := by decide
  have hrun : ((Machine.run (Watch.step plainCtx 1) (Watch.new 10 1) (speedsUp TIER_1)).map fun w =>
      decide (∃ m ∈ (w.serve plainCtx 1 (watchTick 12 TIER_0)).sent, m.1.carriesState = true)) =
      some true := by decide
  obtain ⟨w, hw, hsent⟩ := Option.map_eq_some_iff.mp hrun
  exact ⟨hmeets, w, hw, copy_is_latest plainCtx 1 10 (by decide) (speedsUp TIER_1) (watchTick 12 TIER_0)
    w hmeets hw (of_decide_eq_true hsent)⟩

/-- At `TIER_2` the velocity is left out, and the next delta is made from a snapshot that has it. -/
theorem velocity_lost :
    ¬ ∀ (base : ObserverCtx) (x : U32) (ringCapacity : ℕ) (events : List WatchEvent) (t : WatchTick)
      (w : Watch), 0 < ringCapacity →
      Machine.run (Watch.step base x) (Watch.new ringCapacity x) events = some w →
      t.tier = some TIER_0 → (∃ m ∈ (w.serve base x t).sent, m.1.carriesState = true) →
      ∃ latest, w.board.tryRead x = some latest ∧
        (w.next base x (.tick t)).copy = some (AvatarCopy.ofSnapshot latest) := by
  have hrun : ((Machine.run (Watch.step plainCtx 1) (Watch.new 10 1) (speedsUp TIER_2)).map fun w =>
      (decide (∃ m ∈ (w.serve plainCtx 1 (watchTick 12 TIER_0)).sent, m.1.carriesState = true),
        (w.board.tryRead 1).map PeerSnapshot.velocityX,
        (w.next plainCtx 1 (.tick (watchTick 12 TIER_0))).copy.map AvatarCopy.velocityX)) =
      some (true, some 7, some 0) := by decide
  obtain ⟨w, hw, heq⟩ := Option.map_eq_some_iff.mp hrun
  simp only [Prod.mk.injEq, decide_eq_true_eq] at heq
  obtain ⟨hsent, hlatest, hcopy⟩ := heq
  intro h
  obtain ⟨latest, hl, hc⟩ := h plainCtx 1 10 (speedsUp TIER_2) (watchTick 12 TIER_0) w (by decide) hw
    rfl hsent
  rw [hl] at hlatest
  rw [hc] at hcopy
  have hseven : latest.velocityX = 7 := Option.some.inj hlatest
  have hzero : latest.velocityX = 0 := Option.some.inj hcopy
  rw [hzero] at hseven
  exact absurd hseven (by decide)

end Catalyrst.Pulse
