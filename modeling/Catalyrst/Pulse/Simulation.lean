import Catalyrst.Lib.Texts
import Catalyrst.Pulse.Batch
import Catalyrst.Pulse.Board

/-!
# The simulation tick (`simulation/mod.rs`)

On every tick each authenticated observer gets, for every subject it can see,
either a `PlayerJoined` or what changed since the snapshot it was last sent. What
an observer was told about a subject is kept in a view. The subjects a player
sees come from the area of interest, whose geometry is not modelled: they are an
input of the tick. The subjects of a scene listener are read off the board.
-/

namespace Catalyrst.Pulse
open Catalyrst.Lib Catalyrst.Lib.Texts

inductive PacketMode where
  | reliable
  | unreliableSequenced
  | unreliableUnsequenced
  deriving DecidableEq

structure OutgoingMessage where
  target : U32
  message : ServerMessage
  mode : PacketMode

/-- A tier and its divisor index. -/
abbrev Tier := ℕ

def TIER_0 : Tier := 0
def TIER_1 : Tier := 1
def TIER_2 : Tier := 2

structure InterestEntry where
  subject : U32
  tier : Tier

structure SceneListenerState where
  realm : Text
  /-- Without repetition, in any order. -/
  parcels : List ℤ

structure PeerToPeerView where
  lastSentSnapshot : PeerSnapshot
  lastSeenTick : U32
  lastSentProfileVersion : ℤ
  lastSentEmote : Option EmoteState
  lastSentTeleportSeq : Option U32
  lastSentSeq : U32
  lastSentWalletId : Option Text

/-! ### Messages about a subject -/

/-- The new value, when it differs. -/
def changed {α : Type} [DecidableEq α] (baseline target : α) : Option α :=
  if baseline ≠ target then some target else none

/-- The new value, when there is one and it differs. -/
def changedTo {α : Type} [DecidableEq α] (baseline target : Option α) : Option α :=
  if baseline ≠ target then target else none

def createDeltaMessage (subjectId : U32) (baseline target : PeerSnapshot) (tier : Tier) :
    PlayerStateDeltaTier0 where
  subjectId := subjectId
  baselineSeq := baseline.seq
  newSeq := target.seq
  serverTick := target.serverTick
  slideBlend := if tier = TIER_0 then changed baseline.slideBlend target.slideBlend else none
  headYaw := if tier = TIER_0 then changedTo baseline.headYaw target.headYaw else none
  headPitch := if tier = TIER_0 then changedTo baseline.headPitch target.headPitch else none
  stateFlags := changed baseline.animationFlags target.animationFlags
  glideState := changed baseline.glideState target.glideState
  parcelIndex := changed baseline.parcel target.parcel
  positionX := changed baseline.positionX target.positionX
  positionY := changed baseline.positionY target.positionY
  positionZ := changed baseline.positionZ target.positionZ
  rotationY := changed baseline.rotationY target.rotationY
  jumpCount := changed baseline.jumpCount target.jumpCount
  pointAtX := changedTo baseline.pointAtX target.pointAtX
  pointAtY := changedTo baseline.pointAtY target.pointAtY
  pointAtZ := changedTo baseline.pointAtZ target.pointAtZ
  velocityX :=
    if tier = TIER_0 ∨ tier = TIER_1 then changed baseline.velocityX target.velocityX else none
  velocityY :=
    if tier = TIER_0 ∨ tier = TIER_1 then changed baseline.velocityY target.velocityY else none
  velocityZ :=
    if tier = TIER_0 ∨ tier = TIER_1 then changed baseline.velocityZ target.velocityZ else none
  movementBlend :=
    if tier = TIER_0 ∨ tier = TIER_1 then changed baseline.movementBlend target.movementBlend else none

/-- The jump count is sent as zero. -/
def createPlayerState (s : PeerSnapshot) : PlayerState where
  parcelIndex := s.parcel
  positionX := s.positionX
  positionY := s.positionY
  positionZ := s.positionZ
  velocityX := s.velocityX
  velocityY := s.velocityY
  velocityZ := s.velocityZ
  rotationY := s.rotationY
  movementBlend := s.movementBlend
  slideBlend := s.slideBlend
  stateFlags := s.animationFlags
  glideState := s.glideState
  jumpCount := 0
  headYaw := s.headYaw
  headPitch := s.headPitch
  pointAtX := s.pointAtX
  pointAtY := s.pointAtY
  pointAtZ := s.pointAtZ

def createFullState (subjectId : U32) (s : PeerSnapshot) : PlayerStateFull :=
  ⟨subjectId, s.seq, s.serverTick, createPlayerState s⟩

/-! ### Events between two sequences -/

structure IntermediateScan where
  lastEmoteStart : Option PeerSnapshot
  lastEmoteStop : Option PeerSnapshot
  lastTeleport : Option PeerSnapshot
  targetSeq : U32

/-- The variables of the scan's loop. -/
structure ScanState where
  lastEmoteStart : Option PeerSnapshot
  lastEmoteStop : Option PeerSnapshot
  lastTeleport : Option PeerSnapshot
  earliestCarry : Option PeerSnapshot

def ScanState.step (st : ScanState) (snapshot : PeerSnapshot) : ScanState :=
  let st := match snapshot.runningEmote with
    | none => st
    | some e =>
      if snapshot.seq = e.startSeq then
        { st with lastEmoteStart := some snapshot, earliestCarry := none }
      else { st with earliestCarry := st.earliestCarry.or (some snapshot) }
  let st := if snapshot.emote.any fun e => e.stopReason.isSome then
    { st with lastEmoteStop := some snapshot } else st
  if snapshot.isTeleport then { st with lastTeleport := some snapshot } else st

/-- The sequences from `fromSeq + 1`, wrapping, up to `toSeq`. -/
def seqsBetween (fromSeq toSeq : U32) : List U32 :=
  let start := (fromSeq + 1).val
  (List.range' start (toSeq.val + 1 - start)).map fun n => Fin.ofNat 4294967296 n

def scanIntermediateEvents (board : SnapshotBoard) (subjectId fromSeq : U32)
    (latest : PeerSnapshot) : IntermediateScan :=
  let st := (seqsBetween fromSeq latest.seq).foldl
    (fun (st : ScanState) seq => (board.tryReadSeq subjectId seq).elim st st.step)
    ⟨none, none, none, none⟩
  let lastEmoteStart := st.lastEmoteStart.or (st.earliestCarry.or
    (if latest.emote.any fun e => e.emoteId.isSome && e.stopReason.isNone then some latest
      else none))
  let lastTeleport := st.lastTeleport.or
    (if fromSeq < latest.lastTeleportSeq then some latest else none)
  ⟨lastEmoteStart, st.lastEmoteStop, lastTeleport, latest.seq⟩

/-! ### One observer -/

/-- What stays fixed while one observer is served. -/
structure ObserverCtx where
  observer : U32
  board : SnapshotBoard
  identity : IdentityBoard
  profiles : ProfileBoard
  tickCounter : U32
  positionalOnly : Bool
  /-- `observer_features & FEATURE_DELTA_BATCH != 0`. -/
  deltaBatch : Bool
  tierDivisors : List ℕ
  selfMirrorEnabled : Bool
  resyncWithDelta : Bool

instance : Std.TransCmp (@compare (U32 ×ₗ U32 ×ₗ ℕ) LinearOrder.toOrd) := inferInstance

/-- What changes while one observer is served. The two caches live for the whole
tick. -/
structure Serving where
  views : OrdMap U32 PeerToPeerView
  /-- Messages to the observer, in the order they were sent. -/
  sent : List (ServerMessage × PacketMode)
  resync : OrdMap U32 U32
  batch : List BatchSubject
  scanCache : OrdMap (U32 ×ₗ U32) IntermediateScan
  deltaCache : OrdMap (U32 ×ₗ U32 ×ₗ ℕ) PlayerStateDeltaTier0

namespace Serving

def send (s : Serving) (message : ServerMessage) (mode : PacketMode) : Serving :=
  { s with sent := s.sent ++ [(message, mode)] }

def dropResync (s : Serving) (subject : U32) : Serving := { s with resync := s.resync.erase subject }

def flushDeltaBatch (s : Serving) (serverTick : U32) (mode : SeqEncoding) : Serving :=
  if s.batch = [] then s
  else
    let batches := encodeBatches serverTick s.batch MAX_BATCH_BYTES mode
    { s with
      sent := s.sent ++ batches.map fun b =>
        (.playerStateDeltaBatch ⟨b.serverTick, Fin.ofNat 4294967296 b.subjectCount, b.payload⟩,
          .unreliableSequenced)
      batch := [] }

end Serving

def SELF_MIRROR_WALLET_ID : Text := ['s', 'e', 'l', 'f', '_', 'm', 'i', 'r', 'r', 'o', 'r']
def SWEEP_INTERVAL : ℕ := 100

namespace ObserverCtx

variable (ctx : ObserverCtx)

def isSelfMirror (subject : U32) : Bool := decide (subject = ctx.observer)

def currentWallet (subject : U32) : Option Text :=
  if ctx.isSelfMirror subject then some SELF_MIRROR_WALLET_ID
  else ctx.identity.walletByPeer subject

/-- Whether the wallet a view was made for is the subject's wallet now. -/
def sameWallet (lastSent current : Option Text) : Bool :=
  match lastSent, current with
  | some a, some b => eqIgnoreAsciiCase a b
  | none, none => true
  | _, _ => false

/-- The slot was taken over by another wallet: the view is dropped. -/
def detectAndHandleAliasing (s : Serving) (subject : U32) (view : PeerToPeerView) :
    Bool × Serving :=
  if sameWallet view.lastSentWalletId (ctx.currentWallet subject) then (false, s)
  else
    let s := s.send (.playerLeft subject) .reliable
    (true, { s with views := s.views.erase subject })

def sendEmoteStarted (s : Serving) (view : PeerToPeerView) (subject : U32) (snapshot : PeerSnapshot)
    (emote : EmoteState) : PeerToPeerView × Serving :=
  ({ view with lastSentSeq := snapshot.seq },
    s.send (.emoteStarted ⟨subject, snapshot.seq, emote.startTick, emote.emoteId.getD [],
      createPlayerState snapshot, none⟩) .reliable)

/-- The name under which a subject is announced. -/
def userId (subject : U32) : Text :=
  if ctx.isSelfMirror subject then SELF_MIRROR_WALLET_ID
  else (ctx.identity.walletByPeer subject).getD []

def joinedMessage (subject : U32) (latest : PeerSnapshot) : PlayerJoined :=
  ⟨ctx.userId subject, ctx.profiles.get subject, createFullState subject latest,
    latest.realm.getD []⟩

def newView (subject : U32) (latest : PeerSnapshot) : PeerToPeerView where
  lastSentSnapshot := latest
  lastSeenTick := ctx.tickCounter
  lastSentProfileVersion := ctx.profiles.get subject
  lastSentEmote := none
  lastSentTeleportSeq := some latest.seq
  lastSentSeq := latest.seq
  lastSentWalletId := some (ctx.userId subject)

def handleNewSubject (s : Serving) (subject : U32) (latest : PeerSnapshot) :
    PeerToPeerView × Serving :=
  let s := (s.dropResync subject).send (.playerJoined (ctx.joinedMessage subject latest)) .reliable
  let view := ctx.newView subject latest
  match latest.runningEmote with
  | some active =>
    if ctx.positionalOnly then (view, s)
    else
      let r := sendEmoteStarted s view subject latest active
      ({ r.1 with lastSentEmote := some active }, r.2)
  | none => (view, s)

def sendTeleport (s : Serving) (view : PeerToPeerView) (subject : U32) (snapshot : PeerSnapshot) :
    PeerToPeerView × Serving :=
  ({ view with lastSentSeq := snapshot.seq },
    s.send (.teleported ⟨subject, snapshot.seq, snapshot.serverTick, createPlayerState snapshot,
      snapshot.realm.getD []⟩) .reliable)

def sendEmoteStopped (s : Serving) (view : PeerToPeerView) (subject : U32) (snapshot : PeerSnapshot)
    (reason : EmoteStopReason) : PeerToPeerView × Serving :=
  ({ view with lastSentSeq := snapshot.seq },
    s.send (.emoteStopped ⟨subject, snapshot.serverTick, reason, snapshot.seq,
      createPlayerState snapshot⟩) .reliable)

/-- The delta comes out of the tick's cache when a subject, baseline sequence and
tier were met before. -/
def cachedDelta (s : Serving) (subject : U32) (baseline target : PeerSnapshot) (tier : Tier) :
    PlayerStateDeltaTier0 × Serving :=
  let key := toLex (subject, toLex (baseline.seq, tier))
  match s.deltaCache[key]? with
  | some delta => (delta, s)
  | none =>
    let delta := createDeltaMessage subject baseline target tier
    (delta, { s with deltaCache := s.deltaCache.insert key delta })

def sendDelta (s : Serving) (view : PeerToPeerView) (subject : U32) (baseline target : PeerSnapshot)
    (tier : Tier) (mode : PacketMode) : PeerToPeerView × Serving :=
  if baseline.seq = target.seq then (view, s)
  else
    let r := cachedDelta s subject baseline target tier
    let view := { view with lastSentSeq := target.seq }
    if mode = .unreliableSequenced ∧ ctx.deltaBatch = true then
      (view, { r.2 with
        batch := r.2.batch ++ [BatchSubject.fromDelta r.1 target.animationFlags] })
    else (view, r.2.send (.playerStateDelta r.1) mode)

/-- A resync request is answered with a delta from the sequence the client knows, if
it is still in the ring, and with the full state otherwise. -/
def handleResyncOrDelta (s : Serving) (entry : InterestEntry) (view : PeerToPeerView)
    (lastSentState latest : PeerSnapshot) : PeerToPeerView × Serving :=
  match s.resync[entry.subject]? with
  | none =>
    ctx.sendDelta s view entry.subject lastSentState latest entry.tier .unreliableSequenced
  | some lastKnownSeq =>
    let s := s.dropResync entry.subject
    let known := if ctx.resyncWithDelta then ctx.board.tryReadSeq entry.subject lastKnownSeq
      else none
    match known.filter fun k => decide (k.seq ≠ latest.seq) with
    | some knownSnapshot =>
      ctx.sendDelta s view entry.subject knownSnapshot latest entry.tier .reliable
    | none =>
      ({ view with lastSentSeq := latest.seq },
        s.send (.playerStateFull (createFullState entry.subject latest)) .reliable)

/-- The scan comes out of the tick's cache when a subject and sequence were met
before. -/
def cachedScan (s : Serving) (subject fromSeq : U32) (latest : PeerSnapshot) :
    IntermediateScan × Serving :=
  let key := toLex (subject, fromSeq)
  match s.scanCache[key]? with
  | some scan => (scan, s)
  | none =>
    let scan := scanIntermediateEvents ctx.board subject fromSeq latest
    (scan, { s with scanCache := s.scanCache.insert key scan })

/-- The view, the snapshot last sent and the rest, as `process_existing_subject`
threads them. -/
structure Progress where
  view : PeerToPeerView
  lastSentState : PeerSnapshot
  discreteEventSent : Bool
  serving : Serving

def syncTeleport (p : Progress) (subject : U32) (scan : IntermediateScan) : Progress :=
  match scan.lastTeleport with
  | none => p
  | some tp =>
    if p.view.lastSentTeleportSeq.getD 0 < tp.lastTeleportSeq then
      let r := sendTeleport p.serving p.view subject tp
      { view := { r.1 with lastSentTeleportSeq := some tp.lastTeleportSeq }
        lastSentState := tp
        discreteEventSent := true
        serving := r.2.dropResync subject }
    else p

def emoteStartIsEffective (scan : IntermediateScan) : Bool :=
  match scan.lastEmoteStart with
  | none => false
  | some start => decide (scan.lastEmoteStop.elim 0 PeerSnapshot.seq < start.seq)

def syncEmoteStart (p : Progress) (subject : U32) (scan : IntermediateScan) : Progress :=
  match scan.lastEmoteStart with
  | none => p
  | some es =>
    match es.runningEmote with
    | none => p
    | some emote =>
      if p.view.lastSentEmote.any fun l =>
          decide (l.emoteId = emote.emoteId ∧ l.startSeq = emote.startSeq) then p
      else
        let r := sendEmoteStarted p.serving p.view subject es emote
        { view := { r.1 with lastSentEmote := some emote }
          lastSentState := if p.lastSentState.seq < es.seq then es else p.lastSentState
          discreteEventSent := true
          serving := r.2.dropResync subject }

def trySyncEmoteStop (p : Progress) (subject : U32) (stop : Option PeerSnapshot) : Progress :=
  if p.view.lastSentEmote.all fun e => e.emoteId.isNone then p
  else
    match stop with
    | none => p
    | some stop =>
      match stop.emote.bind EmoteState.stopReason with
      | none => p
      | some reason =>
        let r := sendEmoteStopped p.serving p.view subject stop reason
        { p with
          view := { r.1 with lastSentEmote := none }
          lastSentState := if p.lastSentState.seq < stop.seq then stop else p.lastSentState
          serving := r.2 }

def processExistingSubject (s : Serving) (entry : InterestEntry) (view : PeerToPeerView)
    (latest : PeerSnapshot) : PeerToPeerView × Serving :=
  let r := ctx.cachedScan s entry.subject view.lastSentSnapshot.seq latest
  let scan := r.1
  let p := syncTeleport ⟨view, view.lastSentSnapshot, false, r.2⟩ entry.subject scan
  let p := if emoteStartIsEffective scan && !ctx.positionalOnly then
    syncEmoteStart p entry.subject scan else p
  let p := if emoteStartIsEffective scan then p
    else trySyncEmoteStop p entry.subject scan.lastEmoteStop
  if p.discreteEventSent then ({ p.view with lastSentSnapshot := p.lastSentState }, p.serving)
  else
    let q := ctx.handleResyncOrDelta p.serving entry p.view p.lastSentState latest
    ({ q.1 with lastSentSnapshot := latest }, q.2)

def tryAnnounceProfile (s : Serving) (subject : U32) (view : PeerToPeerView) :
    PeerToPeerView × Serving :=
  let current := ctx.profiles.get subject
  if view.lastSentProfileVersion = current then (view, s)
  else ({ view with lastSentProfileVersion := current },
    s.send (.playerProfileVersionAnnounced ⟨subject, current⟩) .reliable)

/-- `tick_counter.is_multiple_of(divisor)` fails for the entry's tier. -/
def skipsTick (tier : Tier) : Bool :=
  match ctx.tierDivisors[tier]? with
  | none => false
  | some divisor => if divisor = 0 then decide (ctx.tickCounter.val ≠ 0)
      else decide (ctx.tickCounter.val % divisor ≠ 0)

/-- A subject the observer has no view of. -/
def processNew (s : Serving) (entry : InterestEntry) : Serving :=
  if ctx.skipsTick entry.tier then s
  else
    match ctx.board.tryRead entry.subject with
    | none => s
    | some latest =>
      let r := ctx.handleNewSubject s entry.subject latest
      { r.2 with views := r.2.views.insert entry.subject r.1 }

/-- The profile version, then what happened since the snapshot last sent. -/
def reportKnown (s : Serving) (entry : InterestEntry) (view : PeerToPeerView)
    (latest : PeerSnapshot) : Serving :=
  let a := if ctx.positionalOnly then (view, s) else ctx.tryAnnounceProfile s entry.subject view
  let r := ctx.processExistingSubject a.2 entry a.1 latest
  { r.2 with views := r.2.views.insert entry.subject r.1 }

/-- A subject the observer has a view of, made for its present wallet. -/
def processKnown (s : Serving) (entry : InterestEntry) (view : PeerToPeerView) : Serving :=
  let view := { view with lastSeenTick := ctx.tickCounter }
  let s := { s with views := s.views.insert entry.subject view }
  let hasResync := s.resync[entry.subject]?.isSome
  if !hasResync && ctx.skipsTick entry.tier then s
  else
    match ctx.board.tryRead entry.subject with
    | none => s
    | some latest => ctx.reportKnown s entry view latest

/-- One entry of `process_visible_subjects`. -/
def processVisibleSubject (s : Serving) (entry : InterestEntry) : Serving :=
  if ctx.isSelfMirror entry.subject && !ctx.selfMirrorEnabled then s
  else
    match s.views[entry.subject]? with
    | none => ctx.processNew s entry
    | some view =>
      let r := ctx.detectAndHandleAliasing s entry.subject view
      if r.1 then ctx.processNew r.2 entry else ctx.processKnown r.2 entry view

def processVisibleSubjects (s : Serving) (entries : List InterestEntry) : Serving :=
  entries.foldl ctx.processVisibleSubject s

/-- The subjects not seen for more than `SWEEP_INTERVAL` ticks. -/
def staleSubjects (s : Serving) : List U32 :=
  (s.views.toList.filter fun e =>
    decide (SWEEP_INTERVAL < (ctx.tickCounter - e.2.lastSeenTick).val)).map Prod.fst

def sweepStaleViews (s : Serving) : Serving :=
  (ctx.staleSubjects s).foldl (fun s id =>
    let s := s.send (.playerLeft id) .reliable
    { s with views := s.views.erase id }) s

end ObserverCtx

/-- The subjects of a scene listener: those on its parcels and in its realm. -/
def collectSceneListenerSubjects (board : SnapshotBoard) (realm : Text) (parcels : List ℤ)
    (observer : U32) : List InterestEntry :=
  parcels.flatMap fun parcel => (board.peersInParcel parcel).filterMap fun subject =>
    if subject = observer then none
    else (board.tryRead subject).bind fun s =>
      if s.realm = some realm then some ⟨subject, TIER_0⟩ else none

end Catalyrst.Pulse
