import Catalyrst.Pulse.Story

/-!
# Teleports and emotes that an observer is told of

When an observer processes a subject that it has a view of, it is told of the last
teleport since the snapshot it was last sent, and of an emote that started or stopped.
What it was told is kept in the view: the sequence of the last teleport, and the emote
until its stop is sent. The rest of the processing touches neither.
-/

namespace Catalyrst.Pulse
open Catalyrst.Lib

namespace ServerMessage

def asTeleported : ServerMessage → Option TeleportPerformed
  | .teleported teleport => some teleport
  | _ => none

def asEmoteStopped : ServerMessage → Option EmoteStopped
  | .emoteStopped stopped => some stopped
  | _ => none

end ServerMessage

namespace Serving

def teleportsSent (s : Serving) : List TeleportPerformed :=
  s.sent.filterMap fun m => m.1.asTeleported

def stopsSent (s : Serving) : List EmoteStopped := s.sent.filterMap fun m => m.1.asEmoteStopped

theorem teleportsSent_send (s : Serving) (m : ServerMessage) (mode : PacketMode) :
    (s.send m mode).teleportsSent = s.teleportsSent ++ m.asTeleported.toList := by
  simp only [teleportsSent, send, List.filterMap_append]
  cases hm : m.asTeleported <;> simp [hm]

theorem stopsSent_send (s : Serving) (m : ServerMessage) (mode : PacketMode) :
    (s.send m mode).stopsSent = s.stopsSent ++ m.asEmoteStopped.toList := by
  simp only [stopsSent, send, List.filterMap_append]
  cases hm : m.asEmoteStopped <;> simp [hm]

end Serving

/-- Nothing was told of teleports and emotes, and the view remembers what it did. -/
structure Untouched (v v' : PeerToPeerView) (s s' : Serving) : Prop where
  teleportSeq : v'.lastSentTeleportSeq = v.lastSentTeleportSeq
  emote : v'.lastSentEmote = v.lastSentEmote
  teleports : s'.teleportsSent = s.teleportsSent
  stops : s'.stopsSent = s.stopsSent

theorem Untouched.refl (v : PeerToPeerView) (s : Serving) : Untouched v v s s :=
  ⟨rfl, rfl, rfl, rfl⟩

theorem Untouched.send {v v' : PeerToPeerView} {s s' : Serving} (h : Untouched v v' s s')
    {m : ServerMessage} (hteleport : m.asTeleported = none) (hstop : m.asEmoteStopped = none)
    (mode : PacketMode) : Untouched v v' s (s'.send m mode) := by
  refine ⟨h.teleportSeq, h.emote, ?_, ?_⟩
  · rw [Serving.teleportsSent_send, hteleport, Option.toList_none, List.append_nil, h.teleports]
  · rw [Serving.stopsSent_send, hstop, Option.toList_none, List.append_nil, h.stops]

namespace ObserverCtx

variable (ctx : ObserverCtx) {x : U32} {scan : IntermediateScan} {p : Progress}

/-! ### What is neither a teleport nor an emote -/

theorem sendDelta_untouched (s : Serving) (view : PeerToPeerView) (subject : U32)
    (baseline target : PeerSnapshot) (tier : Tier) (mode : PacketMode) :
    Untouched view (ctx.sendDelta s view subject baseline target tier mode).1 s
      (ctx.sendDelta s view subject baseline target tier mode).2 := by
  have hcache : (cachedDelta s subject baseline target tier).2.sent = s.sent := by
    unfold cachedDelta
    dsimp only
    split <;> rfl
  have hsame : Untouched view { view with lastSentSeq := target.seq } s
      (cachedDelta s subject baseline target tier).2 := by
    refine ⟨rfl, rfl, ?_, ?_⟩
    · rw [Serving.teleportsSent, hcache, Serving.teleportsSent]
    · rw [Serving.stopsSent, hcache, Serving.stopsSent]
  unfold sendDelta
  split
  · exact Untouched.refl view s
  · dsimp only
    split
    · exact ⟨rfl, rfl, hsame.teleports, hsame.stops⟩
    · exact hsame.send rfl rfl mode

theorem handleResyncOrDelta_untouched (s : Serving) (entry : InterestEntry)
    (view : PeerToPeerView) (lastSentState latest : PeerSnapshot) :
    Untouched view (ctx.handleResyncOrDelta s entry view lastSentState latest).1 s
      (ctx.handleResyncOrDelta s entry view lastSentState latest).2 := by
  have hdrop : ∀ {v' : PeerToPeerView} {s' : Serving},
      Untouched view v' (s.dropResync entry.subject) s' → Untouched view v' s s' :=
    fun h => ⟨h.teleportSeq, h.emote, h.teleports, h.stops⟩
  unfold handleResyncOrDelta
  split
  · exact ctx.sendDelta_untouched s view entry.subject _ latest entry.tier _
  · dsimp only
    split
    · exact hdrop (ctx.sendDelta_untouched _ view entry.subject _ latest entry.tier _)
    · have hseen : Untouched view { view with lastSentSeq := latest.seq }
          (s.dropResync entry.subject) (s.dropResync entry.subject) := ⟨rfl, rfl, rfl, rfl⟩
      exact hdrop (hseen.send rfl rfl _)

theorem tryAnnounceProfile_untouched (s : Serving) (subject : U32) (view : PeerToPeerView) :
    Untouched view (ctx.tryAnnounceProfile s subject view).1 s
      (ctx.tryAnnounceProfile s subject view).2 ∧
    (ctx.tryAnnounceProfile s subject view).1.lastSentSnapshot = view.lastSentSnapshot ∧
    (ctx.tryAnnounceProfile s subject view).2.scanCache = s.scanCache := by
  unfold tryAnnounceProfile
  dsimp only
  split
  · exact ⟨Untouched.refl view s, rfl, rfl⟩
  · have hseen : Untouched view { view with lastSentProfileVersion := ctx.profiles.get subject } s s :=
      ⟨rfl, rfl, rfl, rfl⟩
    exact ⟨hseen.send rfl rfl _, rfl, rfl⟩

/-! ### One event at a time -/

def teleportMessage (subject : U32) (snapshot : PeerSnapshot) : TeleportPerformed :=
  ⟨subject, snapshot.seq, snapshot.serverTick, createPlayerState snapshot,
    snapshot.realm.getD []⟩

/-- A teleport is sent if it is later than the last one, and then the view remembers it. -/
inductive TeleportSynced (x : U32) (scan : IntermediateScan) (p p' : Progress) : Prop
  | none (old : ∀ tp ∈ scan.lastTeleport,
      tp.lastTeleportSeq ≤ p.view.lastSentTeleportSeq.getD 0) (same : p' = p)
  | sent (tp : PeerSnapshot) (found : scan.lastTeleport = some tp)
      (later : p.view.lastSentTeleportSeq.getD 0 < tp.lastTeleportSeq)
      (teleports : p'.serving.teleportsSent = p.serving.teleportsSent ++ [teleportMessage x tp])
      (stops : p'.serving.stopsSent = p.serving.stopsSent)
      (teleportSeq : p'.view.lastSentTeleportSeq = some tp.lastTeleportSeq)
      (emote : p'.view.lastSentEmote = p.view.lastSentEmote) (state : p'.lastSentState = tp)

theorem syncTeleport_synced (p : Progress) (x : U32) (scan : IntermediateScan) :
    TeleportSynced x scan p (syncTeleport p x scan) := by
  unfold syncTeleport
  split
  · rename_i hnone
    refine .none (fun tp htp => ?_) rfl
    rw [hnone] at htp
    cases htp
  · rename_i tp hfound
    split
    · rename_i hlater
      refine .sent tp hfound hlater ?_ ?_ rfl rfl rfl
      · exact Serving.teleportsSent_send p.serving _ _
      · exact (Serving.stopsSent_send p.serving _ _).trans (List.append_nil _)
    · rename_i hold
      refine .none (fun tp' htp' => ?_) rfl
      obtain rfl := Option.some.inj (hfound.symm.trans htp')
      exact not_lt.mp hold

/-- What may follow the snapshot that was last sent. -/
def MovesOn (o : Option PeerSnapshot) (s s' : PeerSnapshot) : Prop :=
  s' = s ∨ s' ∈ o ∧ s.seq < s'.seq

theorem moves_on (o : Option PeerSnapshot) {e : PeerSnapshot} (he : e ∈ o) (s : PeerSnapshot) :
    MovesOn o s (if s.seq < e.seq then e else s) := by
  split
  · rename_i hlt
    exact Or.inr ⟨he, hlt⟩
  · exact Or.inl rfl

theorem syncEmoteStart_spec (p : Progress) (x : U32) (scan : IntermediateScan) :
    (syncEmoteStart p x scan).serving.teleportsSent = p.serving.teleportsSent ∧
    (syncEmoteStart p x scan).view.lastSentTeleportSeq = p.view.lastSentTeleportSeq ∧
    MovesOn scan.lastEmoteStart p.lastSentState (syncEmoteStart p x scan).lastSentState ∧
    ((∀ e ∈ p.view.lastSentEmote, e.emoteId.isSome = true) →
      ∀ e ∈ (syncEmoteStart p x scan).view.lastSentEmote, e.emoteId.isSome = true) := by
  unfold syncEmoteStart
  split
  · exact ⟨rfl, rfl, Or.inl rfl, id⟩
  · rename_i es hes
    split
    · exact ⟨rfl, rfl, Or.inl rfl, id⟩
    · rename_i emote hrun
      split
      · exact ⟨rfl, rfl, Or.inl rfl, id⟩
      · refine ⟨?_, rfl, moves_on _ hes p.lastSentState, fun _ e he => ?_⟩
        · exact (Serving.teleportsSent_send p.serving _ _).trans (List.append_nil _)
        · obtain rfl := Option.some.inj he
          exact (Option.filter_eq_some_iff.mp hrun).2

def stopMessage (subject : U32) (snapshot : PeerSnapshot) (reason : EmoteStopReason) :
    EmoteStopped :=
  ⟨subject, snapshot.serverTick, reason, snapshot.seq, createPlayerState snapshot⟩

theorem trySyncEmoteStop_spec (p : Progress) (x : U32) (stop : Option PeerSnapshot) :
    (trySyncEmoteStop p x stop).serving.teleportsSent = p.serving.teleportsSent ∧
    (trySyncEmoteStop p x stop).view.lastSentTeleportSeq = p.view.lastSentTeleportSeq ∧
    MovesOn stop p.lastSentState (trySyncEmoteStop p x stop).lastSentState ∧
    ((∀ e ∈ p.view.lastSentEmote, e.emoteId.isSome = true) →
      ∀ e ∈ (trySyncEmoteStop p x stop).view.lastSentEmote, e.emoteId.isSome = true) := by
  unfold trySyncEmoteStop
  split
  · exact ⟨rfl, rfl, Or.inl rfl, id⟩
  · split
    · exact ⟨rfl, rfl, Or.inl rfl, id⟩
    · rename_i st
      split
      · exact ⟨rfl, rfl, Or.inl rfl, id⟩
      · refine ⟨?_, rfl, moves_on _ rfl p.lastSentState, fun _ e he => nomatch he⟩
        exact (Serving.teleportsSent_send p.serving _ _).trans (List.append_nil _)

/-- A told emote is forgotten, and its stop sent, exactly when a stop is found. -/
theorem trySyncEmoteStop_emote {p : Progress} {x : U32} {stop : Option PeerSnapshot}
    (htidy : ∀ e ∈ p.view.lastSentEmote, e.emoteId.isSome = true)
    (hstop : ∀ s ∈ stop, s.isStop = true) :
    (p.view.lastSentEmote = none ∧ trySyncEmoteStop p x stop = p) ∨
    (p.view.lastSentEmote ≠ none ∧ stop = none ∧ trySyncEmoteStop p x stop = p) ∨
    ∃ s reason, p.view.lastSentEmote ≠ none ∧ stop = some s ∧
      (trySyncEmoteStop p x stop).view.lastSentEmote = none ∧
      (trySyncEmoteStop p x stop).serving.stopsSent =
        p.serving.stopsSent ++ [stopMessage x s reason] := by
  unfold trySyncEmoteStop
  cases htold : p.view.lastSentEmote with
  | none => exact Or.inl ⟨rfl, by simp⟩
  | some e =>
    have hid : e.emoteId.isNone = false := by
      rw [← Option.not_isSome, htidy e htold]
      rfl
    simp only [Option.all_some, hid, Bool.false_eq_true, if_false]
    cases stop with
    | none => exact Or.inr (Or.inl ⟨by simp, rfl, rfl⟩)
    | some s =>
      obtain ⟨reason, hreason⟩ : ∃ reason, s.emote.bind EmoteState.stopReason = some reason := by
        have hs := hstop s rfl
        unfold PeerSnapshot.isStop at hs
        cases he : s.emote with
        | none => simp [he] at hs
        | some e' =>
          rw [he, Option.any_some] at hs
          exact Option.isSome_iff_exists.mp hs
      refine Or.inr (Or.inr ⟨s, reason, by simp, rfl, ?_⟩)
      simp only [hreason]
      exact ⟨trivial, Serving.stopsSent_send p.serving _ _⟩

/-! ### All of them -/

/-- What was found of teleports, told and remembered. -/
inductive TeleportTold (x : U32) (scan : IntermediateScan) (view : PeerToPeerView) (s : Serving)
    (view' : PeerToPeerView) (s' : Serving) : Prop
  | none (old : ∀ tp ∈ scan.lastTeleport,
      tp.lastTeleportSeq ≤ view.lastSentTeleportSeq.getD 0)
      (teleports : s'.teleportsSent = s.teleportsSent)
      (teleportSeq : view'.lastSentTeleportSeq = view.lastSentTeleportSeq)
  | sent (tp : PeerSnapshot) (found : scan.lastTeleport = some tp)
      (later : view.lastSentTeleportSeq.getD 0 < tp.lastTeleportSeq)
      (teleports : s'.teleportsSent = s.teleportsSent ++ [teleportMessage x tp])
      (teleportSeq : view'.lastSentTeleportSeq = some tp.lastTeleportSeq)
      (behind : tp.seq ≤ view'.lastSentSnapshot.seq)

/-- The report about a subject whose latest snapshot is `latest`. -/
structure Reported (x : U32) (scan : IntermediateScan) (latest : PeerSnapshot)
    (view : PeerToPeerView) (s : Serving) (view' : PeerToPeerView) (s' : Serving) : Prop where
  teleport : TeleportTold x scan view s view' s'
  since : view.lastSentSnapshot.seq ≤ view'.lastSentSnapshot.seq
  upTo : view'.lastSentSnapshot.seq ≤ latest.seq
  tidy : ∀ e ∈ view'.lastSentEmote, e.emoteId.isSome = true
  idle : emoteStartIsEffective scan = false → (∀ e ∈ scan.lastEmoteStop, e.isStop = true) →
    (view'.lastSentEmote = none ∧
      (view.lastSentEmote ≠ none → ∃ m ∈ s'.stopsSent, m.subjectId = x) ↔
    (view.lastSentEmote ≠ none → scan.lastEmoteStop.isSome = true))

/-- The scan's snapshots lie between the one last sent and the latest. -/
structure Within (scan : IntermediateScan) (fromSeq toSeq : U32) : Prop where
  teleport : ∀ s ∈ scan.lastTeleport, fromSeq ≤ s.seq ∧ s.seq ≤ toSeq
  start : ∀ s ∈ scan.lastEmoteStart, s.seq ≤ toSeq
  stop : ∀ s ∈ scan.lastEmoteStop, s.seq ≤ toSeq

theorem MovesOn.le {o : Option PeerSnapshot} {s s' : PeerSnapshot} (h : MovesOn o s s') :
    s.seq ≤ s'.seq := by
  rcases h with rfl | ⟨-, hlt⟩
  · exact le_rfl
  · exact hlt.le

theorem MovesOn.upTo {o : Option PeerSnapshot} {s s' : PeerSnapshot} {toSeq : U32}
    (h : MovesOn o s s') (ho : ∀ e ∈ o, e.seq ≤ toSeq) (hs : s.seq ≤ toSeq) : s'.seq ≤ toSeq := by
  rcases h with rfl | ⟨hin, -⟩
  · exact hs
  · exact ho s' hin

/-- The three kinds of events, one after the other. -/
def syncEvents (s : Serving) (x : U32) (view : PeerToPeerView) (scan : IntermediateScan) : Progress :=
  let p := syncTeleport ⟨view, view.lastSentSnapshot, false, s⟩ x scan
  let p := if emoteStartIsEffective scan && !ctx.positionalOnly then syncEmoteStart p x scan else p
  if emoteStartIsEffective scan then p else trySyncEmoteStop p x scan.lastEmoteStop

theorem syncEvents_start {scan : IntermediateScan} (s : Serving) (x : U32) (view : PeerToPeerView)
    (heff : emoteStartIsEffective scan = true) : ctx.syncEvents s x view scan =
      if ctx.positionalOnly then syncTeleport ⟨view, view.lastSentSnapshot, false, s⟩ x scan
      else syncEmoteStart (syncTeleport ⟨view, view.lastSentSnapshot, false, s⟩ x scan) x scan := by
  simp only [syncEvents, heff, Bool.true_and, if_true]
  cases ctx.positionalOnly <;> rfl

theorem syncEvents_stop {scan : IntermediateScan} (s : Serving) (x : U32) (view : PeerToPeerView)
    (heff : emoteStartIsEffective scan = false) : ctx.syncEvents s x view scan = trySyncEmoteStop
      (syncTeleport ⟨view, view.lastSentSnapshot, false, s⟩ x scan) x scan.lastEmoteStop := by
  simp only [syncEvents, heff, Bool.false_and, Bool.false_eq_true, if_false]

/-- The emote events leave the teleports alone. -/
theorem syncEvents_emotes (s : Serving) (x : U32) (view : PeerToPeerView)
    (scan : IntermediateScan) {p1 p : Progress}
    (hp1 : p1 = syncTeleport ⟨view, view.lastSentSnapshot, false, s⟩ x scan)
    (hp : p = ctx.syncEvents s x view scan) :
    p.serving.teleportsSent = p1.serving.teleportsSent ∧
    p.view.lastSentTeleportSeq = p1.view.lastSentTeleportSeq ∧
    (MovesOn scan.lastEmoteStart p1.lastSentState p.lastSentState ∨
      MovesOn scan.lastEmoteStop p1.lastSentState p.lastSentState) ∧
    ((∀ e ∈ p1.view.lastSentEmote, e.emoteId.isSome = true) →
      ∀ e ∈ p.view.lastSentEmote, e.emoteId.isSome = true) := by
  cases heff : emoteStartIsEffective scan with
  | true =>
    rw [ctx.syncEvents_start s x view heff, ← hp1] at hp
    split at hp
    · rw [hp]
      exact ⟨rfl, rfl, Or.inl (Or.inl rfl), id⟩
    · obtain ⟨hsent, hseq, hmoves, htidy⟩ := syncEmoteStart_spec p1 x scan
      rw [hp]
      exact ⟨hsent, hseq, Or.inl hmoves, htidy⟩
  | false =>
    rw [ctx.syncEvents_stop s x view heff, ← hp1] at hp
    obtain ⟨hsent, hseq, hmoves, htidy⟩ := trySyncEmoteStop_spec p1 x scan.lastEmoteStop
    rw [hp]
    exact ⟨hsent, hseq, Or.inr hmoves, htidy⟩

theorem syncTeleport_emote (p : Progress) (x : U32) (scan : IntermediateScan) :
    (syncTeleport p x scan).view.lastSentEmote = p.view.lastSentEmote ∧
    (syncTeleport p x scan).serving.stopsSent = p.serving.stopsSent := by
  rcases syncTeleport_synced p x scan with ⟨-, hsame⟩ | ⟨-, -, -, -, hstops, -, hemote, -⟩
  · rw [hsame]
    exact ⟨rfl, rfl⟩
  · exact ⟨hemote, hstops⟩

/-- A told emote is forgotten, with its stop sent, exactly when a stop was found. -/
theorem syncEvents_idle {scan : IntermediateScan} {view : PeerToPeerView} (s : Serving) (x : U32)
    (heff : emoteStartIsEffective scan = false)
    (hstop : ∀ e ∈ scan.lastEmoteStop, e.isStop = true)
    (htidy : ∀ e ∈ view.lastSentEmote, e.emoteId.isSome = true) {p : Progress}
    (hp : p = ctx.syncEvents s x view scan) :
    (p.view.lastSentEmote = none ∧
      (view.lastSentEmote ≠ none → ∃ m ∈ p.serving.stopsSent, m.subjectId = x) ↔
    (view.lastSentEmote ≠ none → scan.lastEmoteStop.isSome = true)) := by
  rw [ctx.syncEvents_stop s x view heff] at hp
  obtain ⟨hemote, -⟩ := syncTeleport_emote ⟨view, view.lastSentSnapshot, false, s⟩ x scan
  have hemote' : (syncTeleport ⟨view, view.lastSentSnapshot, false, s⟩ x scan).view.lastSentEmote =
      view.lastSentEmote := hemote
  rw [← hemote'] at htidy ⊢
  rcases trySyncEmoteStop_emote (x := x) htidy hstop with ⟨hnone, hsame⟩ | ⟨htold, hnone, hsame⟩ |
    ⟨e, reason, -, hfound, hforgot, hsent⟩
  · rw [hp, hsame]
    exact ⟨fun _ h => absurd hnone h, fun _ => ⟨hnone, fun h => absurd hnone h⟩⟩
  · rw [hp, hsame]
    refine ⟨fun h => absurd h.1 htold, fun h => ?_⟩
    have hsome := h htold
    rw [hnone] at hsome
    cases hsome
  · rw [hp, hforgot, hsent, hfound]
    exact ⟨fun _ _ => rfl, fun _ => ⟨rfl, fun _ => ⟨stopMessage x e reason,
      List.mem_append_right _ (List.mem_singleton_self _), rfl⟩⟩⟩

theorem syncEvents_reported {scan : IntermediateScan} {latest : PeerSnapshot}
    {view view' : PeerToPeerView} {s s' : Serving} {x : U32} {p : Progress}
    (hp : p = ctx.syncEvents s x view scan) (hle : view.lastSentSnapshot.seq ≤ latest.seq)
    (hwithin : Within scan view.lastSentSnapshot.seq latest.seq)
    (htidy : ∀ e ∈ view.lastSentEmote, e.emoteId.isSome = true)
    (hrest : Untouched p.view view' p.serving s')
    (hlast : view'.lastSentSnapshot = p.lastSentState ∨ view'.lastSentSnapshot = latest) :
    Reported x scan latest view s view' s' := by
  obtain ⟨hsent, hseq, hmoves, htidies⟩ := ctx.syncEvents_emotes s x view scan rfl hp
  have hteleport := syncTeleport_synced ⟨view, view.lastSentSnapshot, false, s⟩ x scan
  obtain ⟨hemote, -⟩ := syncTeleport_emote ⟨view, view.lastSentSnapshot, false, s⟩ x scan
  generalize syncTeleport ⟨view, view.lastSentSnapshot, false, s⟩ x scan = p1
    at hsent hseq hmoves htidies hteleport hemote
  have hstate : view.lastSentSnapshot.seq ≤ p1.lastSentState.seq ∧
      p1.lastSentState.seq ≤ latest.seq := by
    rcases hteleport with ⟨-, rfl⟩ | ⟨tp, hfound, -, -, -, -, -, hstate⟩
    · exact ⟨le_rfl, hle⟩
    · rw [hstate]
      exact hwithin.teleport tp hfound
  have hafter : p1.lastSentState.seq ≤ p.lastSentState.seq ∧ p.lastSentState.seq ≤ latest.seq := by
    rcases hmoves with hmoves | hmoves
    · exact ⟨hmoves.le, hmoves.upTo hwithin.start hstate.2⟩
    · exact ⟨hmoves.le, hmoves.upTo hwithin.stop hstate.2⟩
  have hbehind : p1.lastSentState.seq ≤ view'.lastSentSnapshot.seq ∧
      view'.lastSentSnapshot.seq ≤ latest.seq := by
    rcases hlast with heq | heq
    · rw [heq]
      exact hafter
    · rw [heq]
      exact ⟨hstate.2, le_rfl⟩
  refine ⟨?_, hstate.1.trans hbehind.1, hbehind.2, ?_, fun heff hstop => ?_⟩
  · rcases hteleport with ⟨hold, rfl⟩ | ⟨tp, hfound, hlater, hteleports, -, hteleportSeq, -, hstate'⟩
    · exact .none hold (hrest.teleports.trans hsent) (hrest.teleportSeq.trans hseq)
    · refine .sent tp hfound hlater ?_ ?_ (hstate' ▸ hbehind.1)
      · rw [hrest.teleports, hsent, hteleports]
      · rw [hrest.teleportSeq, hseq, hteleportSeq]
  · rw [hrest.emote]
    refine htidies ?_
    rw [hemote]
    exact htidy
  · rw [hrest.emote, hrest.stops]
    exact ctx.syncEvents_idle s x heff hstop htidy hp

theorem processExistingSubject_reported (view : PeerToPeerView) (s : Serving) {x : U32}
    (latest : PeerSnapshot) (hcache : s.scanCache[toLex (x, view.lastSentSnapshot.seq)]? = none)
    (hle : view.lastSentSnapshot.seq ≤ latest.seq) (hwithin : Within
      (scanIntermediateEvents ctx.board x view.lastSentSnapshot.seq latest)
      view.lastSentSnapshot.seq latest.seq)
    (htidy : ∀ e ∈ view.lastSentEmote, e.emoteId.isSome = true) (tier : Tier) :
    Reported x (scanIntermediateEvents ctx.board x view.lastSentSnapshot.seq latest) latest view s
      (ctx.processExistingSubject s ⟨x, tier⟩ view latest).1
      (ctx.processExistingSubject s ⟨x, tier⟩ view latest).2 := by
  have hscan : ∃ s1 : Serving, ctx.cachedScan s x view.lastSentSnapshot.seq latest =
      (scanIntermediateEvents ctx.board x view.lastSentSnapshot.seq latest, s1) ∧
      s1.sent = s.sent := by
    unfold cachedScan
    simp only [hcache]
    exact ⟨_, rfl, rfl⟩
  obtain ⟨s1, hscan, hs1⟩ := hscan
  have hreported : ∀ p, p = ctx.syncEvents s1 x view
        (scanIntermediateEvents ctx.board x view.lastSentSnapshot.seq latest) →
      ∀ view' s', Untouched p.view view' p.serving s' →
      (view'.lastSentSnapshot = p.lastSentState ∨ view'.lastSentSnapshot = latest) →
      Reported x (scanIntermediateEvents ctx.board x view.lastSentSnapshot.seq latest) latest view
        s1 view' s' := by
    intro p hp view' s' hrest hlast
    exact ctx.syncEvents_reported hp hle hwithin htidy hrest hlast
  have hmoved : ∀ view' s', Reported x
      (scanIntermediateEvents ctx.board x view.lastSentSnapshot.seq latest) latest view s1 view' s' →
      Reported x (scanIntermediateEvents ctx.board x view.lastSentSnapshot.seq latest) latest view s
        view' s' := by
    intro view' s' h
    have hteleports : s1.teleportsSent = s.teleportsSent := by
      rw [Serving.teleportsSent, hs1, Serving.teleportsSent]
    refine ⟨?_, h.since, h.upTo, h.tidy, h.idle⟩
    rcases h.teleport with ⟨hold, hsent, hseq⟩ | ⟨tp, hfound, hlater, hsent, hseq, hbehind⟩
    · exact .none hold (hsent.trans hteleports) hseq
    · exact .sent tp hfound hlater (hteleports ▸ hsent) hseq hbehind
  refine hmoved _ _ ?_
  generalize hscanned : scanIntermediateEvents ctx.board x view.lastSentSnapshot.seq latest = scan
    at hscan hreported
  have hbody : ctx.processExistingSubject s ⟨x, tier⟩ view latest =
      if (ctx.syncEvents s1 x view scan).discreteEventSent then
        ({ (ctx.syncEvents s1 x view scan).view with
            lastSentSnapshot := (ctx.syncEvents s1 x view scan).lastSentState },
          (ctx.syncEvents s1 x view scan).serving)
      else
        let q := ctx.handleResyncOrDelta (ctx.syncEvents s1 x view scan).serving ⟨x, tier⟩
          (ctx.syncEvents s1 x view scan).view (ctx.syncEvents s1 x view scan).lastSentState latest
        ({ q.1 with lastSentSnapshot := latest }, q.2) := by
    unfold processExistingSubject
    simp only [hscan]
    rfl
  rw [hbody]
  replace hreported := hreported _ rfl
  generalize ctx.syncEvents s1 x view scan = p at hreported ⊢
  split
  · exact hreported _ _ ⟨rfl, rfl, rfl, rfl⟩ (Or.inl rfl)
  · have h := ctx.handleResyncOrDelta_untouched p.serving ⟨x, tier⟩ p.view p.lastSentState latest
    exact hreported _ _ ⟨h.teleportSeq, h.emote, h.teleports, h.stops⟩ (Or.inr rfl)

/-! ### One entry -/

theorem Reported.of_untouched {scan : IntermediateScan} {latest : PeerSnapshot}
    {view v view' : PeerToPeerView} {s s1 s' : Serving} (h : Reported x scan latest v s1 view' s')
    (hsame : Untouched view v s s1) (hlast : v.lastSentSnapshot = view.lastSentSnapshot) :
    Reported x scan latest view s view' s' := by
  obtain ⟨hteleport, hsince, hupTo, htidy, hidle⟩ := h
  rw [hlast] at hsince
  rw [hsame.emote] at hidle
  refine ⟨?_, hsince, hupTo, htidy, hidle⟩
  rcases hteleport with ⟨hold, hsent, hseq⟩ | ⟨tp, hfound, hlater, hsent, hseq, hbehind⟩
  · rw [hsame.teleportSeq] at hold hseq
    exact .none hold (hsent.trans hsame.teleports) hseq
  · rw [hsame.teleportSeq] at hlater
    rw [hsame.teleports] at hsent
    exact .sent tp hfound hlater hsent hseq hbehind

theorem Reported.of_sent {scan : IntermediateScan} {latest : PeerSnapshot}
    {view view' : PeerToPeerView} {s s' s2 : Serving} (h : Reported x scan latest view s view' s')
    (hteleports : s2.teleportsSent = s'.teleportsSent) (hstops : s2.stopsSent = s'.stopsSent) :
    Reported x scan latest view s view' s2 := by
  obtain ⟨hteleport, hsince, hupTo, htidy, hidle⟩ := h
  rw [← hstops] at hidle
  refine ⟨?_, hsince, hupTo, htidy, hidle⟩
  rcases hteleport with ⟨hold, hsent, hseq⟩ | ⟨tp, hfound, hlater, hsent, hseq, hbehind⟩
  · exact .none hold (hteleports.trans hsent) hseq
  · exact .sent tp hfound hlater (hteleports.trans hsent) hseq hbehind

theorem reportKnown_reported (view : PeerToPeerView) (s : Serving) (latest : PeerSnapshot)
    (hcache : s.scanCache[toLex (x, view.lastSentSnapshot.seq)]? = none)
    (hle : view.lastSentSnapshot.seq ≤ latest.seq) (hwithin : Within
      (scanIntermediateEvents ctx.board x view.lastSentSnapshot.seq latest)
      view.lastSentSnapshot.seq latest.seq)
    (htidy : ∀ e ∈ view.lastSentEmote, e.emoteId.isSome = true) (tier : Tier) :
    ∃ view', (ctx.reportKnown s ⟨x, tier⟩ view latest).views[x]? = some view' ∧
      view'.lastSeenTick = view.lastSeenTick ∧
      Reported x (scanIntermediateEvents ctx.board x view.lastSentSnapshot.seq latest) latest view s
        view' (ctx.reportKnown s ⟨x, tier⟩ view latest) := by
  have hann : ∃ a, a = (if ctx.positionalOnly = true then (view, s)
      else ctx.tryAnnounceProfile s x view) ∧ Untouched view a.1 s a.2 ∧ Continues view a.1 ∧
      a.1.lastSentSnapshot = view.lastSentSnapshot ∧ a.2.scanCache = s.scanCache := by
    refine ⟨_, rfl, ?_⟩
    split
    · exact ⟨Untouched.refl view s, Continues.refl view, rfl, rfl⟩
    · obtain ⟨huntouched, hlast, hcached⟩ := ctx.tryAnnounceProfile_untouched s x view
      exact ⟨huntouched, ctx.tryAnnounceProfile_continues s x view, hlast, hcached⟩
  obtain ⟨a, ha, huntouched, hcontinues, hlast, hcached⟩ := hann
  have hreported := ctx.processExistingSubject_reported a.1 a.2 (x := x) latest
    (by rw [hcached, hlast]; exact hcache) (by rw [hlast]; exact hle)
    (by rw [hlast]; exact hwithin) (by rw [huntouched.emote]; exact htidy) tier
  rw [hlast] at hreported
  have hseen := ctx.processExistingSubject_continues a.2 ⟨x, tier⟩ a.1 latest
  refine ⟨(ctx.processExistingSubject a.2 ⟨x, tier⟩ a.1 latest).1, ?_, ?_, ?_⟩
  · simp only [reportKnown, ← ha]
    simp
  · rw [hseen.seen, hcontinues.seen]
  · simp only [reportKnown, ← ha]
    exact (hreported.of_untouched huntouched hlast).of_sent rfl rfl

/-- The subject has a view of its present wallet, is due, and has a snapshot. -/
structure Processes (s : Serving) (x : U32) (tier : Tier) (view : PeerToPeerView)
    (latest : PeerSnapshot) : Prop where
  shown : (ctx.isSelfMirror x && !ctx.selfMirrorEnabled) = false
  known : s.views[x]? = some view
  wallet : sameWallet view.lastSentWalletId (ctx.currentWallet x) = true
  due : (!s.resync[x]?.isSome && ctx.skipsTick tier) = false
  latest : ctx.board.tryRead x = some latest

/-- A view that is kept says the same about teleports and emotes. -/
structure Kept (x : U32) (s s' : Serving) : Prop where
  teleports : s'.teleportsSent = s.teleportsSent
  views : ∀ v', s'.views[x]? = some v' → ∃ v, s.views[x]? = some v ∧
    v'.lastSentSnapshot = v.lastSentSnapshot ∧ v'.lastSentTeleportSeq = v.lastSentTeleportSeq ∧
    v'.lastSentEmote = v.lastSentEmote

structure Joined (x : U32) (latest : PeerSnapshot) (s s' : Serving) : Prop where
  teleports : s'.teleportsSent = s.teleportsSent
  views : ∀ v', s'.views[x]? = some v' → v'.lastSentSnapshot = latest ∧
    v'.lastSentTeleportSeq = some latest.seq ∧ ∀ e ∈ v'.lastSentEmote, e.emoteId.isSome = true

theorem Kept.of_views {s s' : Serving} (hteleports : s'.teleportsSent = s.teleportsSent)
    (hviews : ∀ v', s'.views[x]? = some v' → s.views[x]? = some v') : Kept x s s' :=
  ⟨hteleports, fun v' hv' => ⟨v', hviews v' hv', rfl, rfl, rfl⟩⟩

theorem processNew_cases (s : Serving) (x : U32) (tier : Tier) :
    Kept x s (ctx.processNew s ⟨x, tier⟩) ∨
    ∃ latest, ctx.board.tryRead x = some latest ∧ Joined x latest s (ctx.processNew s ⟨x, tier⟩) := by
  unfold processNew
  split
  · exact Or.inl (Kept.of_views rfl fun _ h => h)
  · split
    · exact Or.inl (Kept.of_views rfl fun _ h => h)
    · rename_i latest hread
      refine Or.inr ⟨latest, hread, ?_⟩
      unfold handleNewSubject
      have hjoined : ((s.dropResync x).send (.playerJoined (ctx.joinedMessage x latest))
          .reliable).teleportsSent = s.teleportsSent :=
        (Serving.teleportsSent_send _ _ _).trans (List.append_nil _)
      cases hrun : latest.runningEmote with
      | none =>
        refine ⟨hjoined, fun v' hv' => ?_⟩
        simp only [OrdMap.find_insert, if_true, Option.some.injEq] at hv'
        rw [← hv']
        exact ⟨rfl, rfl, fun e he => nomatch he⟩
      | some active =>
        dsimp only
        split
        · refine ⟨hjoined, fun v' hv' => ?_⟩
          simp only [OrdMap.find_insert, if_true, Option.some.injEq] at hv'
          rw [← hv']
          exact ⟨rfl, rfl, fun e he => nomatch he⟩
        · refine ⟨?_, fun v' hv' => ?_⟩
          · exact ((Serving.teleportsSent_send _ _ _).trans (List.append_nil _)).trans hjoined
          · simp only [OrdMap.find_insert, if_true, Option.some.injEq] at hv'
            rw [← hv']
            refine ⟨rfl, rfl, fun e he => ?_⟩
            obtain rfl := Option.some.inj he
            exact (Option.filter_eq_some_iff.mp hrun).2

theorem Processes.eq {s : Serving} {tier : Tier} {view : PeerToPeerView} {latest : PeerSnapshot}
    (h : ctx.Processes s x tier view latest) : ctx.processVisibleSubject s ⟨x, tier⟩ =
      ctx.reportKnown { s with
        views := s.views.insert x { view with lastSeenTick := ctx.tickCounter } } ⟨x, tier⟩
        { view with lastSeenTick := ctx.tickCounter } latest := by
  unfold processVisibleSubject
  rw [if_neg (by simp [h.shown])]
  simp only [h.known, detectAndHandleAliasing, h.wallet, if_true, Bool.false_eq_true, if_false,
    processKnown, h.due, h.latest]

theorem processVisibleSubject_cases (s : Serving) (x : U32) (tier : Tier) :
    Kept x s (ctx.processVisibleSubject s ⟨x, tier⟩) ∨
    (∃ latest, ctx.board.tryRead x = some latest ∧
      Joined x latest s (ctx.processVisibleSubject s ⟨x, tier⟩)) ∨
    ∃ view latest, ctx.Processes s x tier view latest := by
  by_cases hshown : (ctx.isSelfMirror x && !ctx.selfMirrorEnabled) = true
  · left
    rw [processVisibleSubject, if_pos hshown]
    exact Kept.of_views rfl fun _ h => h
  · cases hv : s.views[x]? with
    | none =>
      simp only [processVisibleSubject, if_neg hshown, hv]
      rcases ctx.processNew_cases s x tier with hkept | hjoined
      · exact Or.inl hkept
      · exact Or.inr (Or.inl hjoined)
    | some view =>
      cases hsame : sameWallet view.lastSentWalletId (ctx.currentWallet x) with
      | false =>
        -- dropped, and joined again when due
        simp only [processVisibleSubject, if_neg hshown, hv, detectAndHandleAliasing, hsame,
          Bool.false_eq_true, if_false, if_true]
        have hleft : (s.send (.playerLeft x) .reliable).teleportsSent = s.teleportsSent :=
          (Serving.teleportsSent_send _ _ _).trans (List.append_nil _)
        rcases ctx.processNew_cases { s.send (.playerLeft x) .reliable with
            views := s.views.erase x } x tier with hkept | ⟨latest, hread, hjoined⟩
        · refine Or.inl ⟨hkept.teleports.trans hleft, fun v' hv' => ?_⟩
          obtain ⟨v, hv, -⟩ := hkept.views v' hv'
          simp at hv
        · exact Or.inr (Or.inl ⟨latest, hread, hjoined.teleports.trans hleft, hjoined.views⟩)
      | true =>
        have hseen : Kept x s { s with
            views := s.views.insert x { view with lastSeenTick := ctx.tickCounter } } := by
          refine ⟨rfl, fun v' hv' => ⟨view, hv, ?_⟩⟩
          simp only [OrdMap.find_insert, if_true, Option.some.injEq] at hv'
          rw [← hv']
          exact ⟨rfl, rfl, rfl⟩
        by_cases hdue : (!s.resync[x]?.isSome && ctx.skipsTick tier) = true
        · left
          simp only [processVisibleSubject, if_neg hshown, hv, detectAndHandleAliasing, hsame,
            Bool.false_eq_true, if_false, if_true, processKnown, hdue]
          exact hseen
        · cases hread : ctx.board.tryRead x with
          | none =>
            left
            simp only [processVisibleSubject, if_neg hshown, hv, detectAndHandleAliasing, hsame,
              Bool.false_eq_true, if_false, if_true, processKnown, if_neg hdue, hread]
            exact hseen
          | some latest =>
            exact Or.inr (Or.inr ⟨view, latest, Bool.eq_false_of_not_eq_true hshown, hv, hsame,
              Bool.eq_false_of_not_eq_true hdue, hread⟩)

end ObserverCtx

/-! ### The rest of the tick -/

theorem Serving.flushDeltaBatch_discrete (s : Serving) (serverTick : U32) (mode : SeqEncoding) :
    (s.flushDeltaBatch serverTick mode).teleportsSent = s.teleportsSent ∧
    (s.flushDeltaBatch serverTick mode).stopsSent = s.stopsSent := by
  unfold flushDeltaBatch
  split
  · exact ⟨rfl, rfl⟩
  · generalize encodeBatches serverTick s.batch MAX_BATCH_BYTES mode = batches
    constructor
    · simp [teleportsSent, List.filterMap_append, List.filterMap_map,
        ServerMessage.asTeleported]
    · simp [stopsSent, List.filterMap_append, List.filterMap_map,
        ServerMessage.asEmoteStopped]

theorem ObserverCtx.sweepStaleViews_discrete (ctx : ObserverCtx) (s : Serving) :
    (ctx.sweepStaleViews s).teleportsSent = s.teleportsSent ∧
    (ctx.sweepStaleViews s).stopsSent = s.stopsSent := by
  constructor
  · simp [Serving.teleportsSent, ctx.sweepStaleViews_sent, List.filterMap_append,
      List.filterMap_map, ServerMessage.asTeleported]
  · simp [Serving.stopsSent, ctx.sweepStaleViews_sent, List.filterMap_append,
      List.filterMap_map, ServerMessage.asEmoteStopped]

end Catalyrst.Pulse
