import Catalyrst.Pulse.Join

/-!
# A tick without its caches

A tick keeps the scans and the deltas it has made, the deltas under the subject, the
sequence of the baseline and the tier. It is compared here with the tick that empties
both caches before every subject, where no look-up finds anything. The two agree as
long as a sequence names one snapshot of its subject, whoever has been sent it.
-/

namespace Catalyrst.Pulse
open Catalyrst.Lib

def Serving.uncached (s : Serving) : Serving := { s with scanCache := ∅, deltaCache := ∅ }

def ObserverCtx.processVisibleSubjectsUncached (ctx : ObserverCtx) (s : Serving)
    (entries : List InterestEntry) : Serving :=
  entries.foldl (fun s entry => ctx.processVisibleSubject s.uncached entry) s

namespace PulseServer

def simulateTickUncached (server : PulseServer) (now : U32) (input : TickInput) : TickState :=
  input.order.foldl
    (tickObserverWith ObserverCtx.processVisibleSubjectsUncached server now input)
    ⟨server.peers, server.observerViews, [], [], ∅, ∅⟩

end PulseServer

/-! ### One snapshot for a sequence -/

/-- What is known of the subjects holds every snapshot that can be read off the board, and no two
of a subject with the same sequence. -/
structure Chronicle (board : SnapshotBoard) (known : U32 → PeerSnapshot → Prop) : Prop where
  latest : ∀ x s, board.tryRead x = some s → known x s
  earlier : ∀ x seq s, board.tryReadSeq x seq = some s → known x s
  unique : ∀ x s s', known x s → known x s' → s.seq = s'.seq → s = s'

/-- The snapshots found by a scan. -/
structure ScanState.All (P : PeerSnapshot → Prop) (st : ScanState) : Prop where
  lastEmoteStart : ∀ s ∈ st.lastEmoteStart, P s
  lastEmoteStop : ∀ s ∈ st.lastEmoteStop, P s
  lastTeleport : ∀ s ∈ st.lastTeleport, P s
  earliestCarry : ∀ s ∈ st.earliestCarry, P s

theorem ScanState.All.step {P : PeerSnapshot → Prop} {st : ScanState} (h : st.All P)
    {snapshot : PeerSnapshot} (hs : P snapshot) : (st.step snapshot).All P := by
  have hone : ∀ s ∈ some snapshot, P s := fun s he => Option.some.inj he ▸ hs
  have hcarry : ∀ s ∈ st.earliestCarry.or (some snapshot), P s := by
    intro s he
    rcases Option.or_eq_some_iff.mp he with he | ⟨-, he⟩
    · exact h.earliestCarry s he
    · exact hone s he
  unfold ScanState.step
  cases snapshot.runningEmote with
  | none =>
    dsimp only
    split_ifs
    · exact ⟨h.lastEmoteStart, hone, hone, h.earliestCarry⟩
    · exact ⟨h.lastEmoteStart, h.lastEmoteStop, hone, h.earliestCarry⟩
    · exact ⟨h.lastEmoteStart, hone, h.lastTeleport, h.earliestCarry⟩
    · exact h
  | some e =>
    dsimp only
    by_cases hstart : snapshot.seq = e.startSeq
    · simp only [if_pos hstart]
      split_ifs
      · exact ⟨hone, hone, hone, fun s he => nomatch he⟩
      · exact ⟨hone, h.lastEmoteStop, hone, fun s he => nomatch he⟩
      · exact ⟨hone, hone, h.lastTeleport, fun s he => nomatch he⟩
      · exact ⟨hone, h.lastEmoteStop, h.lastTeleport, fun s he => nomatch he⟩
    · simp only [if_neg hstart]
      split_ifs
      · exact ⟨h.lastEmoteStart, hone, hone, hcarry⟩
      · exact ⟨h.lastEmoteStart, h.lastEmoteStop, hone, hcarry⟩
      · exact ⟨h.lastEmoteStart, hone, h.lastTeleport, hcarry⟩
      · exact ⟨h.lastEmoteStart, h.lastEmoteStop, h.lastTeleport, hcarry⟩

theorem scanFold_all {board : SnapshotBoard} {x : U32} {seqs : List U32} {P : PeerSnapshot → Prop}
    (hread : ∀ seq ∈ seqs, ∀ s, board.tryReadSeq x seq = some s → P s) :
    (seqs.foldl (fun (st : ScanState) seq => (board.tryReadSeq x seq).elim st st.step)
      ⟨none, none, none, none⟩).All P := by
  have hfold : ∀ (seqs : List U32) (st : ScanState),
      (∀ seq ∈ seqs, ∀ s, board.tryReadSeq x seq = some s → P s) → st.All P → (seqs.foldl
      (fun (st : ScanState) seq => (board.tryReadSeq x seq).elim st st.step) st).All P := by
    intro seqs
    induction seqs with
    | nil => exact fun st _ hst => hst
    | cons seq seqs ih =>
      intro st hread hst
      rw [List.foldl_cons]
      refine ih _ (fun n hn => hread n (List.mem_cons_of_mem seq hn)) ?_
      cases hr : board.tryReadSeq x seq with
      | none => exact hst
      | some s => exact hst.step (hread seq List.mem_cons_self s hr)
  exact hfold seqs _ hread
    ⟨fun s hs => (nomatch hs), fun s hs => (nomatch hs), fun s hs => (nomatch hs),
      fun s hs => (nomatch hs)⟩

/-- A scan finds the last snapshot or snapshots of the range. -/
theorem scan_all {board : SnapshotBoard} {x fromSeq : U32} {latest : PeerSnapshot}
    {P : PeerSnapshot → Prop}
    (hread : ∀ seq ∈ seqsBetween fromSeq latest.seq, ∀ s, board.tryReadSeq x seq = some s → P s)
    (hlatest : P latest) :
    (∀ s ∈ (scanIntermediateEvents board x fromSeq latest).lastEmoteStart, P s) ∧
    (∀ s ∈ (scanIntermediateEvents board x fromSeq latest).lastTeleport, P s) := by
  have hone : ∀ (b : Bool), ∀ s ∈ (if b then some latest else none), P s := by
    intro b s hs
    cases b with
    | false => cases hs
    | true => exact Option.some.inj hs ▸ hlatest
  have hall := scanFold_all hread
  unfold scanIntermediateEvents
  dsimp only
  generalize (seqsBetween fromSeq latest.seq).foldl
    (fun (st : ScanState) seq => (board.tryReadSeq x seq).elim st st.step)
    ⟨none, none, none, none⟩ = st at hall ⊢
  refine ⟨fun s hs => ?_, fun s hs => ?_⟩
  · rcases Option.or_eq_some_iff.mp hs with hs | ⟨-, hs⟩
    · exact hall.lastEmoteStart s hs
    · rcases Option.or_eq_some_iff.mp hs with hs | ⟨-, hs⟩
      · exact hall.earliestCarry s hs
      · exact hone _ s hs
  · rcases Option.or_eq_some_iff.mp hs with hs | ⟨-, hs⟩
    · exact hall.lastTeleport s hs
    · split at hs
      · exact Option.some.inj hs ▸ hlatest
      · cases hs

/-- An emote stop is only ever found in the range. -/
theorem scan_lastEmoteStop {board : SnapshotBoard} {x fromSeq : U32} {latest : PeerSnapshot}
    {P : PeerSnapshot → Prop}
    (hread : ∀ seq ∈ seqsBetween fromSeq latest.seq, ∀ s, board.tryReadSeq x seq = some s → P s) :
    ∀ s ∈ (scanIntermediateEvents board x fromSeq latest).lastEmoteStop, P s :=
  (scanFold_all hread).lastEmoteStop

namespace Chronicle

variable {board : SnapshotBoard} {known : U32 → PeerSnapshot → Prop}

/-- A scan finds snapshots of its subject. -/
theorem scan (h : Chronicle board known) {x : U32} {latest : PeerSnapshot}
    (hl : board.tryRead x = some latest) (fromSeq : U32) :
    (∀ s ∈ (scanIntermediateEvents board x fromSeq latest).lastEmoteStart, known x s) ∧
    (∀ s ∈ (scanIntermediateEvents board x fromSeq latest).lastEmoteStop, known x s) ∧
    (∀ s ∈ (scanIntermediateEvents board x fromSeq latest).lastTeleport, known x s) := by
  have hread : ∀ seq ∈ seqsBetween fromSeq latest.seq, ∀ s, board.tryReadSeq x seq = some s →
      known x s := fun seq _ s => h.earlier x seq s
  obtain ⟨hstart, hteleport⟩ := scan_all hread (h.latest x latest hl)
  exact ⟨hstart, scan_lastEmoteStop hread, hteleport⟩

end Chronicle

/-! ### Two servings that differ in their caches -/

section Agreement

variable {ctx : ObserverCtx} {known : U32 → PeerSnapshot → Prop}

/-- What is in the caches is what would be computed from the board. The baseline of a cached delta
is known, but the key only has its sequence. -/
structure Faithful (board : SnapshotBoard) (known : U32 → PeerSnapshot → Prop)
    (scanCache : OrdMap (U32 ×ₗ U32) IntermediateScan)
    (deltaCache : OrdMap (U32 ×ₗ U32 ×ₗ ℕ) PlayerStateDeltaTier0) : Prop where
  scans : ∀ (x fromSeq : U32) (scan : IntermediateScan),
    scanCache[toLex (x, fromSeq)]? = some scan → ∃ latest, board.tryRead x = some latest ∧
      scan = scanIntermediateEvents board x fromSeq latest
  deltas : ∀ (x seq : U32) (tier : Tier) (d : PlayerStateDeltaTier0),
    deltaCache[toLex (x, toLex (seq, tier))]? = some d → ∃ baseline latest, known x baseline ∧
      baseline.seq = seq ∧ board.tryRead x = some latest ∧
      d = createDeltaMessage x baseline latest tier

theorem faithful_empty (board : SnapshotBoard) (known : U32 → PeerSnapshot → Prop) :
    Faithful board known ∅ ∅ := by
  refine ⟨fun x fromSeq scan hscan => ?_, fun x seq tier d hd => ?_⟩
  · simp at hscan
  · simp at hd

structure Agree (ctx : ObserverCtx) (known : U32 → PeerSnapshot → Prop) (s s' : Serving) : Prop where
  same : s.uncached = s'.uncached
  left : Faithful ctx.board known s.scanCache s.deltaCache
  right : Faithful ctx.board known s'.scanCache s'.deltaCache

namespace Agree

variable {s s' : Serving}

theorem views (h : Agree ctx known s s') : s.views = s'.views := by
  have hsame := congrArg Serving.views h.same
  exact hsame

theorem sent (h : Agree ctx known s s') : s.sent = s'.sent := by
  have hsame := congrArg Serving.sent h.same
  exact hsame

theorem resync (h : Agree ctx known s s') : s.resync = s'.resync := by
  have hsame := congrArg Serving.resync h.same
  exact hsame

theorem batch (h : Agree ctx known s s') : s.batch = s'.batch := by
  have hsame := congrArg Serving.batch h.same
  exact hsame

/-- What leaves the caches alone and does not look at them. -/
theorem frame (h : Agree ctx known s s') (f : Serving → Serving)
    (hf : ∀ s, (f s).uncached = f s.uncached) (hscans : ∀ s, (f s).scanCache = s.scanCache)
    (hdeltas : ∀ s, (f s).deltaCache = s.deltaCache) : Agree ctx known (f s) (f s') := by
  refine ⟨?_, ?_, ?_⟩
  · rw [hf, hf, h.same]
  · rw [hscans, hdeltas]
    exact h.left
  · rw [hscans, hdeltas]
    exact h.right

theorem send (h : Agree ctx known s s') (message : ServerMessage) (mode : PacketMode) :
    Agree ctx known (s.send message mode) (s'.send message mode) :=
  h.frame (fun s => s.send message mode) (fun _ => rfl) (fun _ => rfl) (fun _ => rfl)

theorem dropResync (h : Agree ctx known s s') (x : U32) :
    Agree ctx known (s.dropResync x) (s'.dropResync x) :=
  h.frame (fun s => s.dropResync x) (fun _ => rfl) (fun _ => rfl) (fun _ => rfl)

theorem insertView (h : Agree ctx known s s') (x : U32) (v : PeerToPeerView) :
    Agree ctx known { s with views := s.views.insert x v } { s' with views := s'.views.insert x v } :=
  h.frame (fun s => { s with views := s.views.insert x v }) (fun _ => rfl) (fun _ => rfl)
    (fun _ => rfl)

theorem eraseView (h : Agree ctx known s s') (x : U32) :
    Agree ctx known { s with views := s.views.erase x } { s' with views := s'.views.erase x } :=
  h.frame (fun s => { s with views := s.views.erase x }) (fun _ => rfl) (fun _ => rfl) (fun _ => rfl)

theorem addBatch (h : Agree ctx known s s') (b : BatchSubject) :
    Agree ctx known { s with batch := s.batch ++ [b] } { s' with batch := s'.batch ++ [b] } :=
  h.frame (fun s => { s with batch := s.batch ++ [b] }) (fun _ => rfl) (fun _ => rfl) (fun _ => rfl)

/-- Without its caches a serving agrees with itself. -/
theorem uncached (h : Agree ctx known s s') : Agree ctx known s s'.uncached :=
  ⟨h.same, h.left, faithful_empty ctx.board known⟩

end Agree

namespace ObserverCtx

variable {s s' : Serving}

/-- A scan is the one the board gives, found or not. -/
theorem cachedScan_faithful (h : Faithful ctx.board known s.scanCache s.deltaCache) {x : U32}
    {latest : PeerSnapshot}
    (hl : ctx.board.tryRead x = some latest) (fromSeq : U32) :
    (ctx.cachedScan s x fromSeq latest).1 = scanIntermediateEvents ctx.board x fromSeq latest ∧
    (ctx.cachedScan s x fromSeq latest).2.uncached = s.uncached ∧
    Faithful ctx.board known (ctx.cachedScan s x fromSeq latest).2.scanCache
      (ctx.cachedScan s x fromSeq latest).2.deltaCache := by
  unfold cachedScan
  dsimp only
  split
  · rename_i scan hscan
    obtain ⟨latest', hl', rfl⟩ := h.scans x fromSeq scan hscan
    rw [hl] at hl'
    exact ⟨by rw [Option.some.inj hl'], rfl, h⟩
  · refine ⟨rfl, rfl, fun y seq scan hscan => ?_, h.deltas⟩
    rw [OrdMap.find_insert] at hscan
    split at hscan
    · rename_i hkey
      obtain ⟨rfl, rfl⟩ := Prod.mk.inj (toLex.injective hkey)
      exact ⟨latest, hl, (Option.some.inj hscan).symm⟩
    · exact h.scans y seq scan hscan

/-- A delta is the one from the baseline at hand, found or not. -/
theorem cachedDelta_faithful (hc : Chronicle ctx.board known)
    (h : Faithful ctx.board known s.scanCache s.deltaCache) {x : U32}
    {baseline latest : PeerSnapshot} (hb : known x baseline)
    (hl : ctx.board.tryRead x = some latest) (tier : Tier) :
    (cachedDelta s x baseline latest tier).1 = createDeltaMessage x baseline latest tier ∧
    (cachedDelta s x baseline latest tier).2.uncached = s.uncached ∧
    Faithful ctx.board known (cachedDelta s x baseline latest tier).2.scanCache
      (cachedDelta s x baseline latest tier).2.deltaCache := by
  unfold cachedDelta
  dsimp only
  split
  · rename_i d hd
    obtain ⟨baseline', latest', hb', hseq, hl', rfl⟩ := h.deltas x baseline.seq tier d hd
    rw [hl] at hl'
    exact ⟨by rw [hc.unique x baseline' baseline hb' hb hseq, Option.some.inj hl'], rfl, h⟩
  · refine ⟨rfl, rfl, h.scans, fun y seq tier' d hd => ?_⟩
    rw [OrdMap.find_insert] at hd
    split at hd
    · rename_i hkey
      obtain ⟨rfl, hrest⟩ := Prod.mk.inj (toLex.injective hkey)
      obtain ⟨rfl, rfl⟩ := Prod.mk.inj (toLex.injective hrest)
      exact ⟨baseline, latest, hb, rfl, hl, (Option.some.inj hd).symm⟩
    · exact h.deltas y seq tier' d hd

theorem sendDelta_agree (hc : Chronicle ctx.board known) (h : Agree ctx known s s') {x : U32}
    {baseline latest : PeerSnapshot} (hb : known x baseline)
    (hl : ctx.board.tryRead x = some latest) (view : PeerToPeerView) (tier : Tier)
    (mode : PacketMode) :
    (ctx.sendDelta s view x baseline latest tier mode).1 =
      (ctx.sendDelta s' view x baseline latest tier mode).1 ∧
    Agree ctx known (ctx.sendDelta s view x baseline latest tier mode).2
      (ctx.sendDelta s' view x baseline latest tier mode).2 := by
  obtain ⟨hdelta, hsame, hfaithful⟩ := cachedDelta_faithful hc h.left hb hl tier
  obtain ⟨hdelta', hsame', hfaithful'⟩ := cachedDelta_faithful hc h.right hb hl tier
  have hagree : Agree ctx known (cachedDelta s x baseline latest tier).2
      (cachedDelta s' x baseline latest tier).2 :=
    ⟨hsame.trans (h.same.trans hsame'.symm), hfaithful, hfaithful'⟩
  unfold sendDelta
  split
  · exact ⟨rfl, h⟩
  · dsimp only
    rw [hdelta, hdelta']
    split
    · exact ⟨rfl, hagree.addBatch _⟩
    · exact ⟨rfl, hagree.send _ mode⟩

theorem handleResyncOrDelta_agree (hc : Chronicle ctx.board known) (h : Agree ctx known s s')
    {entry : InterestEntry} {baseline latest : PeerSnapshot} (hb : known entry.subject baseline)
    (hl : ctx.board.tryRead entry.subject = some latest) (view : PeerToPeerView) :
    (ctx.handleResyncOrDelta s entry view baseline latest).1 =
      (ctx.handleResyncOrDelta s' entry view baseline latest).1 ∧
    Agree ctx known (ctx.handleResyncOrDelta s entry view baseline latest).2
      (ctx.handleResyncOrDelta s' entry view baseline latest).2 := by
  unfold handleResyncOrDelta
  rw [h.resync]
  split
  · exact sendDelta_agree hc h hb hl view _ _
  · rename_i lastKnownSeq _
    dsimp only
    split
    · rename_i k hk
      obtain ⟨hk, -⟩ := Option.filter_eq_some_iff.mp hk
      split at hk
      · exact sendDelta_agree hc (h.dropResync _) (hc.earlier _ _ k hk) hl view _ _
      · cases hk
    · exact ⟨rfl, (h.dropResync _).send _ _⟩

/-- Two ways through `process_existing_subject` side by side. -/
structure Progress.Agree (ctx : ObserverCtx) (known : U32 → PeerSnapshot → Prop) (x : U32)
    (p p' : Progress) : Prop where
  view : p.view = p'.view
  lastSentState : p.lastSentState = p'.lastSentState
  discreteEventSent : p.discreteEventSent = p'.discreteEventSent
  serving : Pulse.Agree ctx known p.serving p'.serving
  known : known x p.lastSentState

variable {p p' : Progress} {x : U32}

theorem syncTeleport_agree (h : p.Agree ctx known x p') {scan : IntermediateScan}
    (hscan : ∀ s ∈ scan.lastTeleport, known x s) :
    (syncTeleport p x scan).Agree ctx known x (syncTeleport p' x scan) := by
  unfold syncTeleport
  split
  · exact h
  · rename_i tp htp
    rw [h.view]
    split
    · exact ⟨rfl, rfl, rfl, (h.serving.send _ _).dropResync x, hscan tp htp⟩
    · exact h

theorem syncEmoteStart_agree (h : p.Agree ctx known x p') {scan : IntermediateScan}
    (hscan : ∀ s ∈ scan.lastEmoteStart, known x s) :
    (syncEmoteStart p x scan).Agree ctx known x (syncEmoteStart p' x scan) := by
  unfold syncEmoteStart
  split
  · exact h
  · rename_i es hes
    split
    · exact h
    · rw [h.view, h.lastSentState]
      split
      · exact h
      · refine ⟨rfl, rfl, rfl, (h.serving.send _ _).dropResync x, ?_⟩
        dsimp only
        split
        · exact hscan es hes
        · exact h.lastSentState ▸ h.known

theorem trySyncEmoteStop_agree (h : p.Agree ctx known x p') {stop : Option PeerSnapshot}
    (hstop : ∀ s ∈ stop, known x s) :
    (trySyncEmoteStop p x stop).Agree ctx known x (trySyncEmoteStop p' x stop) := by
  unfold trySyncEmoteStop
  rw [h.view]
  split
  · exact h
  · split
    · exact h
    · rename_i es
      split
      · exact h
      · rw [h.lastSentState]
        refine ⟨rfl, rfl, h.discreteEventSent, h.serving.send _ _, ?_⟩
        dsimp only
        split
        · exact hstop es rfl
        · exact h.lastSentState ▸ h.known

/-- With an up-to-date view, and the snapshot it is left with is known again. -/
theorem processExistingSubject_agree (hc : Chronicle ctx.board known) (h : Pulse.Agree ctx known s s')
    {entry : InterestEntry} {view : PeerToPeerView} {latest : PeerSnapshot}
    (hl : ctx.board.tryRead entry.subject = some latest)
    (hview : known entry.subject view.lastSentSnapshot) :
    (ctx.processExistingSubject s entry view latest).1 =
      (ctx.processExistingSubject s' entry view latest).1 ∧
    Pulse.Agree ctx known (ctx.processExistingSubject s entry view latest).2
      (ctx.processExistingSubject s' entry view latest).2 ∧
    known entry.subject (ctx.processExistingSubject s entry view latest).1.lastSentSnapshot := by
  obtain ⟨hscan, hsame, hfaithful⟩ :=
    cachedScan_faithful h.left hl view.lastSentSnapshot.seq
  obtain ⟨hscan', hsame', hfaithful'⟩ :=
    cachedScan_faithful h.right hl view.lastSentSnapshot.seq
  obtain ⟨hstart, hstop, hteleport⟩ := hc.scan hl view.lastSentSnapshot.seq
  unfold processExistingSubject
  dsimp only
  rw [hscan, hscan']
  have h0 : Progress.Agree ctx known entry.subject
      ⟨view, view.lastSentSnapshot, false,
        (ctx.cachedScan s entry.subject view.lastSentSnapshot.seq latest).2⟩
      ⟨view, view.lastSentSnapshot, false,
        (ctx.cachedScan s' entry.subject view.lastSentSnapshot.seq latest).2⟩ :=
    ⟨rfl, rfl, rfl, ⟨hsame.trans (h.same.trans hsame'.symm), hfaithful, hfaithful'⟩, hview⟩
  generalize scanIntermediateEvents ctx.board entry.subject view.lastSentSnapshot.seq latest = scan
    at hstart hstop hteleport ⊢
  have h1 := syncTeleport_agree h0 hteleport
  generalize syncTeleport ⟨view, view.lastSentSnapshot, false,
    (ctx.cachedScan s entry.subject view.lastSentSnapshot.seq latest).2⟩ entry.subject scan = p1 at h1 ⊢
  generalize syncTeleport ⟨view, view.lastSentSnapshot, false,
    (ctx.cachedScan s' entry.subject view.lastSentSnapshot.seq latest).2⟩ entry.subject scan = p1'
    at h1 ⊢
  have h2 : (if (emoteStartIsEffective scan && !ctx.positionalOnly) = true then
      syncEmoteStart p1 entry.subject scan else p1).Agree ctx known entry.subject
      (if (emoteStartIsEffective scan && !ctx.positionalOnly) = true then
      syncEmoteStart p1' entry.subject scan else p1') := by
    split
    · exact syncEmoteStart_agree h1 hstart
    · exact h1
  generalize (if (emoteStartIsEffective scan && !ctx.positionalOnly) = true then
    syncEmoteStart p1 entry.subject scan else p1) = p2 at h2 ⊢
  generalize (if (emoteStartIsEffective scan && !ctx.positionalOnly) = true then
    syncEmoteStart p1' entry.subject scan else p1') = p2' at h2 ⊢
  have h3 : (if emoteStartIsEffective scan = true then p2 else
      trySyncEmoteStop p2 entry.subject scan.lastEmoteStop).Agree ctx known entry.subject
      (if emoteStartIsEffective scan = true then p2' else
      trySyncEmoteStop p2' entry.subject scan.lastEmoteStop) := by
    split
    · exact h2
    · exact trySyncEmoteStop_agree h2 hstop
  generalize (if emoteStartIsEffective scan = true then p2 else
    trySyncEmoteStop p2 entry.subject scan.lastEmoteStop) = p3 at h3 ⊢
  generalize (if emoteStartIsEffective scan = true then p2' else
    trySyncEmoteStop p2' entry.subject scan.lastEmoteStop) = p3' at h3 ⊢
  rw [← h3.discreteEventSent, ← h3.lastSentState, ← h3.view]
  split
  · exact ⟨rfl, h3.serving, h3.known⟩
  · obtain ⟨hsent, hagree⟩ := handleResyncOrDelta_agree hc h3.serving h3.known hl p3.view
    exact ⟨by rw [hsent], hagree, hc.latest _ _ hl⟩

/-- Every view is stale or of a known snapshot. -/
def Abreast (ctx : ObserverCtx) (known : U32 → PeerSnapshot → Prop)
    (views : OrdMap U32 PeerToPeerView) : Prop :=
  ∀ (x : U32) (v : PeerToPeerView), views[x]? = some v → ctx.Stale x v ∨ known x v.lastSentSnapshot

theorem Abreast.insert {views : OrdMap U32 PeerToPeerView} (h : ctx.Abreast known views) {x : U32}
    {v : PeerToPeerView} (hv : ctx.Stale x v ∨ known x v.lastSentSnapshot) :
    ctx.Abreast known (views.insert x v) := by
  intro y u hu
  rw [OrdMap.find_insert] at hu
  split at hu
  · rename_i hxy
    rwa [← hxy, ← Option.some.inj hu]
  · exact h y u hu

theorem Abreast.erase {views : OrdMap U32 PeerToPeerView} (h : ctx.Abreast known views) (x : U32) :
    ctx.Abreast known (views.erase x) := by
  intro y u hu
  rw [OrdMap.find_erase] at hu
  split at hu
  · cases hu
  · exact h y u hu

theorem tryAnnounceProfile_agree (h : Pulse.Agree ctx known s s') (x : U32) (view : PeerToPeerView) :
    (ctx.tryAnnounceProfile s x view).1 = (ctx.tryAnnounceProfile s' x view).1 ∧
    Pulse.Agree ctx known (ctx.tryAnnounceProfile s x view).2 (ctx.tryAnnounceProfile s' x view).2 ∧
    (ctx.tryAnnounceProfile s x view).1.lastSentSnapshot = view.lastSentSnapshot := by
  unfold tryAnnounceProfile
  dsimp only
  split
  · exact ⟨rfl, h, rfl⟩
  · exact ⟨rfl, h.send _ _, rfl⟩

theorem reportKnown_agree (hc : Chronicle ctx.board known) (h : Pulse.Agree ctx known s s')
    (hviews : ctx.Abreast known s.views) {entry : InterestEntry} {view : PeerToPeerView}
    {latest : PeerSnapshot} (hl : ctx.board.tryRead entry.subject = some latest)
    (hview : known entry.subject view.lastSentSnapshot) :
    Pulse.Agree ctx known (ctx.reportKnown s entry view latest) (ctx.reportKnown s' entry view latest) ∧
    ctx.Abreast known (ctx.reportKnown s entry view latest).views := by
  unfold reportKnown
  dsimp only
  have hann : (if ctx.positionalOnly = true then (view, s)
        else ctx.tryAnnounceProfile s entry.subject view).1 =
        (if ctx.positionalOnly = true then (view, s')
        else ctx.tryAnnounceProfile s' entry.subject view).1 ∧
      Pulse.Agree ctx known (if ctx.positionalOnly = true then (view, s)
        else ctx.tryAnnounceProfile s entry.subject view).2
        (if ctx.positionalOnly = true then (view, s')
        else ctx.tryAnnounceProfile s' entry.subject view).2 ∧
      known entry.subject (if ctx.positionalOnly = true then (view, s)
        else ctx.tryAnnounceProfile s entry.subject view).1.lastSentSnapshot ∧
      (if ctx.positionalOnly = true then (view, s)
        else ctx.tryAnnounceProfile s entry.subject view).2.views = s.views := by
    split
    · exact ⟨rfl, h, hview, rfl⟩
    · obtain ⟨heq, hagree, hlast⟩ := tryAnnounceProfile_agree h entry.subject view
      exact ⟨heq, hagree, hlast.symm ▸ hview,
        (ctx.tryAnnounceProfile_tells s entry.subject view).views⟩
  generalize (if ctx.positionalOnly = true then (view, s)
    else ctx.tryAnnounceProfile s entry.subject view) = a at hann ⊢
  generalize (if ctx.positionalOnly = true then (view, s')
    else ctx.tryAnnounceProfile s' entry.subject view) = a' at hann ⊢
  obtain ⟨heq, hagree, hknown, hsame⟩ := hann
  obtain ⟨hr, hagree', hknown'⟩ := processExistingSubject_agree hc hagree hl hknown
  rw [← heq, ← hr]
  refine ⟨hagree'.insertView entry.subject _, ?_⟩
  rw [(ctx.processExistingSubject_tells a.2 entry a.1 latest).views, hsame]
  exact hviews.insert (Or.inr hknown')

theorem processKnown_agree (hc : Chronicle ctx.board known) (h : Pulse.Agree ctx known s s')
    (hviews : ctx.Abreast known s.views) {entry : InterestEntry} {view : PeerToPeerView}
    (hv : s.views[entry.subject]? = some view)
    (hsame : sameWallet view.lastSentWalletId (ctx.currentWallet entry.subject) = true) :
    Pulse.Agree ctx known (ctx.processKnown s entry view) (ctx.processKnown s' entry view) ∧
    ctx.Abreast known (ctx.processKnown s entry view).views := by
  have hstamped := h.insertView entry.subject { view with lastSeenTick := ctx.tickCounter }
  have hviews' : ctx.Abreast known
      (s.views.insert entry.subject { view with lastSeenTick := ctx.tickCounter }) :=
    hviews.insert (hviews entry.subject view hv)
  have hasked : s.resync[entry.subject]?.isSome = s'.resync[entry.subject]?.isSome := by
    rw [h.resync]
  unfold processKnown
  dsimp only
  rw [hasked]
  split
  · exact ⟨hstamped, hviews'⟩
  · split
    · exact ⟨hstamped, hviews'⟩
    · rename_i latest hl
      have hview : known entry.subject view.lastSentSnapshot := by
        rcases hviews entry.subject view hv with (hinactive | haliased) | hknown
        · exact absurd (active_of_tryRead hl) (by simp [hinactive])
        · exact absurd hsame (by simp [haliased])
        · exact hknown
      exact reportKnown_agree hc hstamped hviews' hl hview

theorem processNew_agree (hc : Chronicle ctx.board known) (h : Pulse.Agree ctx known s s')
    (hviews : ctx.Abreast known s.views) (entry : InterestEntry) :
    Pulse.Agree ctx known (ctx.processNew s entry) (ctx.processNew s' entry) ∧
    ctx.Abreast known (ctx.processNew s entry).views := by
  unfold processNew
  split
  · exact ⟨h, hviews⟩
  · split
    · exact ⟨h, hviews⟩
    · rename_i latest hl
      have hjoined := (h.dropResync entry.subject).send
        (.playerJoined (ctx.joinedMessage entry.subject latest)) .reliable
      have hknown := hc.latest entry.subject latest hl
      unfold handleNewSubject
      dsimp only
      split
      · split
        · exact ⟨hjoined.insertView _ _, hviews.insert (Or.inr hknown)⟩
        · exact ⟨(hjoined.send _ _).insertView _ _, hviews.insert (Or.inr hknown)⟩
      · exact ⟨hjoined.insertView _ _, hviews.insert (Or.inr hknown)⟩

theorem processVisibleSubject_agree (hc : Chronicle ctx.board known) (h : Pulse.Agree ctx known s s')
    (hviews : ctx.Abreast known s.views) (entry : InterestEntry) :
    Pulse.Agree ctx known (ctx.processVisibleSubject s entry) (ctx.processVisibleSubject s' entry) ∧
    ctx.Abreast known (ctx.processVisibleSubject s entry).views := by
  unfold processVisibleSubject
  rw [← h.views]
  split
  · exact ⟨h, hviews⟩
  · split
    · exact processNew_agree hc h hviews entry
    · rename_i v hv
      cases hsame : sameWallet v.lastSentWalletId (ctx.currentWallet entry.subject) with
      | true =>
        simp only [detectAndHandleAliasing, hsame, if_true, Bool.false_eq_true, if_false]
        exact processKnown_agree hc h hviews hv hsame
      | false =>
        simp only [detectAndHandleAliasing, hsame, Bool.false_eq_true, if_false, if_true]
        exact processNew_agree hc ((h.send _ _).eraseView entry.subject)
          (hviews.erase entry.subject) entry

/-- The caches may be emptied before every entry. -/
theorem processVisibleSubjects_agree (hc : Chronicle ctx.board known) (entries : List InterestEntry)
    (h : Pulse.Agree ctx known s s') (hviews : ctx.Abreast known s.views) :
    Pulse.Agree ctx known (ctx.processVisibleSubjects s entries)
      (ctx.processVisibleSubjectsUncached s' entries) ∧
    ctx.Abreast known (ctx.processVisibleSubjects s entries).views := by
  induction entries generalizing s s' with
  | nil => exact ⟨h, hviews⟩
  | cons entry entries ih =>
    obtain ⟨hagree, hviews'⟩ := processVisibleSubject_agree hc h.uncached hviews entry
    exact ih hagree hviews'

theorem sweepStaleViews_agree (h : Pulse.Agree ctx known s s') (hviews : ctx.Abreast known s.views) :
    Pulse.Agree ctx known (ctx.sweepStaleViews s) (ctx.sweepStaleViews s') ∧
    ctx.Abreast known (ctx.sweepStaleViews s).views := by
  unfold sweepStaleViews
  have hstale : ctx.staleSubjects s' = ctx.staleSubjects s := by
    simp only [staleSubjects, h.views]
  rw [hstale]
  clear hstale
  generalize ctx.staleSubjects s = stale
  induction stale generalizing s s' with
  | nil => exact ⟨h, hviews⟩
  | cons x stale ih => exact ih ((h.send _ _).eraseView x) (hviews.erase x)

end ObserverCtx

theorem Agree.flushDeltaBatch {s s' : Serving} (h : Agree ctx known s s') (serverTick : U32)
    (mode : SeqEncoding) :
    Agree ctx known (s.flushDeltaBatch serverTick mode) (s'.flushDeltaBatch serverTick mode) := by
  unfold Serving.flushDeltaBatch
  rw [← h.batch]
  split
  · exact h
  · exact h.frame (fun r => { r with
      sent := r.sent ++ (encodeBatches serverTick s.batch MAX_BATCH_BYTES mode).map fun b =>
        (.playerStateDeltaBatch ⟨b.serverTick, Fin.ofNat 4294967296 b.subjectCount, b.payload⟩,
          .unreliableSequenced)
      batch := [] }) (fun _ => rfl) (fun _ => rfl) (fun _ => rfl)

theorem Serving.flushDeltaBatch_views (s : Serving) (serverTick : U32) (mode : SeqEncoding) :
    (s.flushDeltaBatch serverTick mode).views = s.views := by
  unfold flushDeltaBatch
  split <;> rfl

end Agreement

/-! ### The tick -/

section Tick

variable {server : PulseServer} {known : U32 → PeerSnapshot → Prop}

/-- Every view is outdated or of a known snapshot. -/
def Current (server : PulseServer) (known : U32 → PeerSnapshot → Prop)
    (observerViews : OrdMap U32 (OrdMap U32 PeerToPeerView)) : Prop :=
  ∀ (o : U32) (views : OrdMap U32 PeerToPeerView) (x : U32) (v : PeerToPeerView),
    observerViews[o]? = some views → views[x]? = some v →
    Outdated server o x v ∨ known x v.lastSentSnapshot

namespace PulseServer

/-- Two ticks side by side. -/
structure TickState.Agree (board : SnapshotBoard) (known : U32 → PeerSnapshot → Prop)
    (t t' : TickState) : Prop where
  peers : t.peers = t'.peers
  observerViews : t.observerViews = t'.observerViews
  outbox : t.outbox = t'.outbox
  expired : t.expired = t'.expired
  left : Faithful board known t.scanCache t.deltaCache
  right : Faithful board known t'.scanCache t'.deltaCache

variable {t t' : TickState}

theorem serveWith_agree (hc : Chronicle server.board known) (h : t.Agree server.board known t')
    (hviews : Current server known t.observerViews) (now o : U32) (state : PeerState)
    (entries : List InterestEntry) :
    Pulse.Agree (server.observerCtx o state) known (server.serve now o state entries t)
      (serveWith ObserverCtx.processVisibleSubjectsUncached server now o state entries t') ∧
    (server.observerCtx o state).Abreast known (server.serve now o state entries t).views := by
  unfold serve serveWith
  dsimp only
  have hstart : Pulse.Agree (server.observerCtx o state) known
      ⟨t.observerViews[o]?.getD ∅, [], state.resyncRequests, [], t.scanCache, t.deltaCache⟩
      ⟨t'.observerViews[o]?.getD ∅, [], state.resyncRequests, [], t'.scanCache, t'.deltaCache⟩ :=
    ⟨by rw [h.observerViews]; rfl, h.left, h.right⟩
  have habreast : (server.observerCtx o state).Abreast known (t.observerViews[o]?.getD ∅) := by
    intro x v hx
    cases ho : t.observerViews[o]? with
    | none => simp [ho] at hx
    | some views =>
      rw [ho] at hx
      rw [Orderly.stale_iff]
      exact hviews o views x v ho hx
  have hc' : Chronicle (server.observerCtx o state).board known := hc
  obtain ⟨hagree, hviews'⟩ := ObserverCtx.processVisibleSubjects_agree hc' entries hstart habreast
  have hflush := hagree.flushDeltaBatch now server.config.seqEncoding
  rw [← Serving.flushDeltaBatch_views _ now server.config.seqEncoding] at hviews'
  split
  · exact ObserverCtx.sweepStaleViews_agree hflush hviews'
  · exact ⟨hflush, hviews'⟩

theorem tickObserver_agree (hc : Chronicle server.board known) (h : t.Agree server.board known t')
    (hviews : Current server known t.observerViews) (now : U32) (input : TickInput) (o : U32) :
    (server.tickObserver now input t o).Agree server.board known
      (tickObserverWith ObserverCtx.processVisibleSubjectsUncached server now input t' o) ∧
    Current server known (server.tickObserver now input t o).observerViews := by
  have hpeer : t'.peers[o]? = t.peers[o]? := by rw [h.peers]
  unfold tickObserver tickObserverWith
  rw [hpeer]
  cases t.peers[o]? with
  | none => exact ⟨h, hviews⟩
  | some state =>
    dsimp only
    have hexpires : ∀ reason, TickState.Agree server.board known
        { t with expired := t.expired ++ [(o, reason)] }
        { t' with expired := t'.expired ++ [(o, reason)] } := fun reason =>
      ⟨h.peers, h.observerViews, h.outbox, by rw [h.expired], h.left, h.right⟩
    cases state.connectionState with
    | none => exact ⟨h, hviews⟩
    | pendingDisconnect => exact ⟨h, hviews⟩
    | pendingAuth =>
      dsimp only
      split
      · exact ⟨hexpires _, hviews⟩
      · exact ⟨h, hviews⟩
    | disconnecting =>
      dsimp only
      split
      · exact ⟨hexpires _, hviews⟩
      · exact ⟨h, hviews⟩
    | authenticated =>
      dsimp only
      cases server.collect input o state with
      | none => exact ⟨h, hviews⟩
      | some entries =>
        obtain ⟨hagree, hviews'⟩ := serveWith_agree hc h hviews now o state entries
        dsimp only
        refine ⟨⟨by rw [h.peers], by rw [h.observerViews, hagree.views], by rw [h.outbox, hagree.sent],
          h.expired, hagree.left, hagree.right⟩, fun q views x v hq hx => ?_⟩
        rw [OrdMap.find_insert] at hq
        split at hq
        · rename_i hoq
          subst hoq
          rw [← Orderly.stale_iff server o x state]
          exact hviews' x v (Option.some.inj hq ▸ hx)
        · exact hviews q views x v hq hx

theorem foldl_tickObserver_agree (hc : Chronicle server.board known) (now : U32) (input : TickInput)
    (order : List U32) (h : t.Agree server.board known t')
    (hviews : Current server known t.observerViews) :
    (order.foldl (server.tickObserver now input) t).Agree server.board known
      (order.foldl (tickObserverWith ObserverCtx.processVisibleSubjectsUncached server now input) t') ∧
    Current server known (order.foldl (server.tickObserver now input) t).observerViews := by
  induction order generalizing t t' with
  | nil => exact ⟨h, hviews⟩
  | cons o order ih =>
    obtain ⟨hagree, hviews'⟩ := tickObserver_agree hc h hviews now input o
    exact ih hagree hviews'

/-- The caches of a tick do not show, and afterwards the views are current again. -/
theorem simulateTick_agree (hc : Chronicle server.board known)
    (hviews : Current server known server.observerViews) (now : U32) (input : TickInput) :
    (server.simulateTick now input).outbox = (server.simulateTickUncached now input).outbox ∧
    Current server known (server.simulateTick now input).observerViews := by
  have hstart : TickState.Agree server.board known ⟨server.peers, server.observerViews, [], [], ∅, ∅⟩
      ⟨server.peers, server.observerViews, [], [], ∅, ∅⟩ :=
    ⟨rfl, rfl, rfl, rfl, faithful_empty server.board known, faithful_empty server.board known⟩
  obtain ⟨hagree, hviews'⟩ := foldl_tickObserver_agree hc now input input.order hstart hviews
  exact ⟨hagree.outbox, hviews'⟩

end PulseServer

end Tick

end Catalyrst.Pulse
