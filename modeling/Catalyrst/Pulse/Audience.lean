import Catalyrst.Lib.Machine
import Catalyrst.Pulse.Discrete
import Catalyrst.Pulse.Lossless

/-!
# The audience of a subject

One observer of one subject, from the start of the subject's session on. The subject
moves, teleports, starts and stops emotes; the observer is served on some of the ticks.
-/

namespace Catalyrst.Pulse
open Catalyrst.Lib

structure Audience extends Observed where
  /-- The teleports that the observer was told of. -/
  heard : List TeleportPerformed
  /-- The subject's teleports, with sequence and realm. -/
  teleports : List (U32 × Text)

namespace Audience

variable (base : ObserverCtx) (mode : SeqEncoding) (x : U32)

def new (ringCapacity : ℕ) (x : U32) : Audience := ⟨Observed.new ringCapacity x, [], []⟩

/-- The tick of the observer, as `serve` has it. -/
def serve (a : Audience) (t : WatchTick) : Serving :=
  a.sweep base t ((a.processed base x t).flushDeltaBatch t.now mode)

def next (a : Audience) : WatchEvent → Audience
  | .tick t =>
    let s := a.serve base mode x t
    { a with views := s.views, heard := a.heard ++ s.teleportsSent }
  | .teleport now request =>
    { a with
      board := a.published x (.teleport now request)
      teleports := a.teleports ++ [(a.board.lastSeq x + 1, request.realm)] }
  | e => { a with board := a.published x e }

def step (a : Audience) (e : WatchEvent) : Option Audience := some (a.next base mode x e)

/-- On this tick the observer, which has the view, processes the subject. -/
def Processes (a : Audience) (t : WatchTick) (view : PeerToPeerView) (latest : PeerSnapshot) :
    Prop :=
  ∃ tier ∈ t.tier, (a.ctx base t).Processes (a.start x t) x tier view latest

variable {base : ObserverCtx} {mode : SeqEncoding} {x : U32} {a : Audience} {t : WatchTick}

/-- The subject's session with its teleports, and the view of it. -/
structure Inv (x : U32) (a : Audience) (story : Story) : Prop where
  session : Session a.board x story
  teleports : ∀ seq realm, (seq, realm) ∈ a.teleports ↔ a.board.lastSeq x ≠ NO_SEQ ∧
    seq ≤ a.board.lastSeq x ∧ (story seq.val).2 = some realm
  views : ∀ v, a.views[x]? = some v → a.board.lastSeq x ≠ NO_SEQ ∧
    v.lastSentSnapshot.seq ≤ a.board.lastSeq x ∧
    v.lastSentTeleportSeq.getD 0 ≤ v.lastSentSnapshot.seq ∧
    ∀ e ∈ v.lastSentEmote, e.emoteId.isSome = true

theorem inv_new {ringCapacity : ℕ} (hpos : 0 < ringCapacity) (x : U32) (story : Story) :
    (Audience.new ringCapacity x).Inv x story := by
  have hsession := Session.start hpos x story
  have hlast : ((SnapshotBoard.new ringCapacity).setActive x).lastSeq x = NO_SEQ := by
    rw [SnapshotBoard.lastSeq, SnapshotBoard.ring_setActive, if_pos rfl]
    simp [SnapshotBoard.new, SnapshotBoard.ring, PeerRing.new]
  refine ⟨hsession, fun seq realm => ?_, fun v hv => ?_⟩
  · exact iff_of_false (List.not_mem_nil) fun h => h.1 hlast
  · simp [Audience.new, Observed.new] at hv

/-! ### A tick -/

/-- Flushing and sweeping tell nothing of teleports and emotes, and a subject served just now is
not swept. -/
theorem serve_rest (base : ObserverCtx) (mode : SeqEncoding) (x : U32) (a : Audience)
    (t : WatchTick) :
    (a.serve base mode x t).teleportsSent = (a.processed base x t).teleportsSent ∧
    (a.serve base mode x t).stopsSent = (a.processed base x t).stopsSent ∧
    (∀ v, (a.serve base mode x t).views[x]? = some v →
      (a.processed base x t).views[x]? = some v) ∧
    (∀ v, (a.processed base x t).views[x]? = some v → v.lastSeenTick = t.tickCounter →
      (a.serve base mode x t).views[x]? = some v) := by
  obtain ⟨hteleports, hstops⟩ := (a.processed base x t).flushDeltaBatch_discrete t.now mode
  have hviews := (a.processed base x t).flushDeltaBatch_views t.now mode
  unfold serve Observed.sweep
  generalize (a.processed base x t).flushDeltaBatch t.now mode = s at hteleports hstops hviews ⊢
  rw [← hviews]
  split
  · obtain ⟨hteleports', hstops'⟩ := (a.ctx base t).sweepStaleViews_discrete s
    refine ⟨hteleports'.trans hteleports, hstops'.trans hstops, fun v hv => ?_, fun v hv hseen => ?_⟩
    · rw [(a.ctx base t).find_sweepStaleViews] at hv
      split at hv
      · cases hv
      · exact hv
    · rw [(a.ctx base t).find_sweepStaleViews,
        if_neg (ObserverCtx.notMem_staleSubjects hv hseen)]
      exact hv
  · exact ⟨hteleports, hstops, fun v hv => hv, fun v hv _ => hv⟩

theorem processed_of_tier {tier : Tier} (htier : t.tier = some tier) :
    a.processed base x t = (a.ctx base t).processVisibleSubject (a.start x t) ⟨x, tier⟩ := by
  rw [Observed.processed, htier]
  rfl

/-- What a scan finds lies between the snapshot last sent and the latest. -/
theorem scan_within {story : Story} {board : SnapshotBoard} {fromSeq : U32}
    (h : Session board x story) (hlast : board.lastSeq x ≠ NO_SEQ)
    (hfrom : fromSeq ≤ board.lastSeq x) :
    ObserverCtx.Within (scanIntermediateEvents board x fromSeq (story (board.lastSeq x).val).1)
      fromSeq (story (board.lastSeq x).val).1.seq := by
  have hseq : ∀ n, Session.Readable board x fromSeq n → fromSeq ≤ (story n).1.seq ∧
      (story n).1.seq ≤ board.lastSeq x := by
    intro n hn
    have heq := h.seq_story hlast hn.2.1
    constructor
    · rw [Fin.le_def, heq]
      exact hn.1.le
    · rw [Fin.le_def, heq]
      exact hn.2.1
  rw [h.seq_latest hlast]
  refine ⟨fun s hs => ?_, fun s hs => ?_, fun s hs => ?_⟩
  · obtain ⟨n, hn⟩ := (h.scan_lastTeleport hlast hfrom).1 s hs
    rw [hn.entry]
    exact hseq n hn.readable
  · obtain ⟨-, rfl | ⟨n, hn, rfl⟩⟩ := h.scan_lastEmoteStart hlast hfrom hs
    · exact (h.seq_latest hlast).le
    · exact (hseq n hn).2
  · obtain ⟨n, hn, rfl, -⟩ := (h.scan_lastEmoteStop hlast hfrom).found s hs
    exact (hseq n hn).2

/-- A processed subject: the scan from the snapshot last sent, and the report of it. -/
structure Reports (base : ObserverCtx) (mode : SeqEncoding) (x : U32) (a : Audience) (story : Story)
    (t : WatchTick) (view : PeerToPeerView) (latest : PeerSnapshot)
    (view' : PeerToPeerView) : Prop where
  last : a.board.lastSeq x ≠ NO_SEQ
  read : latest = (story (a.board.lastSeq x).val).1
  known : a.views[x]? = some view
  after : (a.serve base mode x t).views[x]? = some view'
  reported : ObserverCtx.Reported x
    (scanIntermediateEvents a.board x view.lastSentSnapshot.seq latest) latest view (a.start x t)
    view' (a.serve base mode x t)

theorem Inv.reports {story : Story} (h : a.Inv x story) (mode : SeqEncoding) {view : PeerToPeerView}
    {latest : PeerSnapshot} (hproc : a.Processes base x t view latest) :
    ∃ view', a.Reports base mode x story t view latest view' := by
  obtain ⟨tier, htier, hproc⟩ := hproc
  obtain ⟨hlast, hle, -, htidy⟩ := h.views view hproc.known
  obtain ⟨hteleports, hstops, -, hkept⟩ := serve_rest base mode x a t
  have hlatest : latest = (story (a.board.lastSeq x).val).1 :=
    Option.some.inj (hproc.latest.symm.trans (h.session.tryRead_eq hlast))
  have hseq : latest.seq = a.board.lastSeq x := by
    rw [hlatest]
    exact h.session.seq_latest hlast
  have hwithin := scan_within h.session hlast hle
  rw [← hlatest] at hwithin
  let seen : PeerToPeerView := { view with lastSeenTick := t.tickCounter }
  let s : Serving := { a.start x t with views := (a.start x t).views.insert x seen }
  obtain ⟨view', hview', hseen, hreported⟩ := (a.ctx base t).reportKnown_reported seen s latest
    (by simp [s, Observed.start]) (hseq ▸ hle) hwithin htidy tier
  have heq : a.processed base x t = (a.ctx base t).reportKnown s ⟨x, tier⟩ seen latest :=
    (processed_of_tier htier).trans hproc.eq
  have hview : (a.processed base x t).views[x]? = some view' := heq ▸ hview'
  refine ⟨view', hlast, hlatest, hproc.known, hkept view' hview hseen, ?_⟩
  have hsame : Untouched view seen (a.start x t) s := ⟨rfl, rfl, rfl, rfl⟩
  have hreported' := hreported.of_untouched hsame rfl
  exact hreported'.of_sent (hteleports.trans (congrArg _ heq)) (hstops.trans (congrArg _ heq))

theorem Kept.serve {s : Serving} (h : ObserverCtx.Kept x s (a.processed base x t)) :
    ObserverCtx.Kept x s (a.serve base mode x t) := by
  obtain ⟨hteleports, -, hviews, -⟩ := serve_rest base mode x a t
  exact ⟨hteleports.trans h.teleports, fun v' hv' => h.views v' (hviews v' hv')⟩

/-- A tick keeps the view, makes one, or processes the subject. -/
theorem serve_cases (base : ObserverCtx) (mode : SeqEncoding) (x : U32) (a : Audience)
    (t : WatchTick) :
    ObserverCtx.Kept x (a.start x t) (a.serve base mode x t) ∨
    (∃ latest, a.board.tryRead x = some latest ∧
      ObserverCtx.Joined x latest (a.start x t) (a.serve base mode x t)) ∨
    ∃ view latest, a.Processes base x t view latest := by
  cases htier : t.tier with
  | none =>
    have hidle : a.processed base x t = a.start x t := by
      rw [Observed.processed, htier]
      rfl
    exact Or.inl (Kept.serve (hidle ▸ ObserverCtx.Kept.of_views rfl fun _ h => h))
  | some tier =>
    have hcases := (a.ctx base t).processVisibleSubject_cases (a.start x t) x tier
    rw [← processed_of_tier htier] at hcases
    rcases hcases with hkept | ⟨latest, hread, hjoined⟩ | ⟨view, latest, hproc⟩
    · exact Or.inl (Kept.serve hkept)
    · obtain ⟨hteleports, -, hviews, -⟩ := serve_rest base mode x a t
      exact Or.inr (Or.inl ⟨latest, hread, hteleports.trans hjoined.teleports,
        fun v' hv' => hjoined.views v' (hviews v' hv')⟩)
    · exact Or.inr (Or.inr ⟨view, latest, tier, htier, hproc⟩)

/-- The teleport that is told of is not before the sequence that the view then remembers. -/
theorem Reports.teleportSeq_le {story : Story} (h : a.Inv x story) {view view' : PeerToPeerView}
    {latest : PeerSnapshot} (hr : a.Reports base mode x story t view latest view') :
    view'.lastSentTeleportSeq.getD 0 ≤ view'.lastSentSnapshot.seq := by
  obtain ⟨-, hle, hbehind, -⟩ := h.views view hr.known
  rcases hr.reported.teleport with ⟨-, -, hseq⟩ | ⟨tp, hfound, -, -, hseq, htp⟩
  · rw [hseq]
    exact hbehind.trans hr.reported.since
  · rw [hr.read] at hfound
    obtain ⟨n, hn⟩ := (h.session.scan_lastTeleport hr.last hle).1 tp hfound
    have hown : tp.lastTeleportSeq ≤ tp.seq := by
      rw [Fin.le_def, hn.entry, h.session.seq_story hr.last hn.readable.2.1, ← hn.entry]
      exact hn.flag.2.1
    rw [hseq]
    exact hown.trans htp

theorem Inv.tick {story : Story} (h : a.Inv x story) (t : WatchTick) :
    (a.next base mode x (.tick t)).Inv x story := by
  refine ⟨h.session, h.teleports, fun v hv => ?_⟩
  rcases serve_cases base mode x a t with hkept |
    ⟨latest, hread, hjoined⟩ | ⟨view, latest, hproc⟩
  · obtain ⟨v0, hv0, hsnapshot, hseq, hemote⟩ := hkept.views v hv
    rw [hsnapshot, hseq, hemote]
    exact h.views v0 hv0
  · have hlast := Session.lastSeq_of_tryRead hread
    have hlatest : latest.seq = a.board.lastSeq x := by
      rw [← Option.some.inj ((h.session.tryRead_eq hlast).symm.trans hread)]
      exact h.session.seq_latest hlast
    obtain ⟨hsnapshot, hseq, htidy⟩ := hjoined.views v hv
    rw [hsnapshot, hseq]
    exact ⟨hlast, hlatest.le, le_rfl, htidy⟩
  · obtain ⟨view', hr⟩ := h.reports mode hproc
    obtain rfl : view' = v := Option.some.inj (hr.after.symm.trans hv)
    have hlatest : latest.seq = a.board.lastSeq x := by
      rw [hr.read]
      exact h.session.seq_latest hr.last
    exact ⟨hr.last, hlatest ▸ hr.reported.upTo, hr.teleportSeq_le h, hr.reported.tidy⟩

/-! ### What the subject publishes -/

/-- One more entry, or nothing. Only a stop takes a teleport flag over. -/
inductive Moved (x : U32) (a : Audience) (e : WatchEvent) : Audience → Prop
  | same : Moved x a e a
  | entry (snapshot : PeerSnapshot) (realm : Option Text)
      (seq : snapshot.seq = a.board.lastSeq x + 1)
      (entry : Entry (a.board.last x) (a.board.inherited x snapshot) realm)
      (copied : snapshot.isTeleport = true → realm = none → ∃ now, e = .emoteStop now) :
      Moved x a e { a with
        board := a.board.publish x snapshot
        teleports := a.teleports ++ (realm.map fun r => (snapshot.seq, r)).toList }

theorem moved_input (a : Audience) (now : U32) (state : PlayerState) (emote : Option EmoteInput) :
    Moved x a (.input now state emote) (a.next base mode x (.input now state emote)) := by
  have hteleports : a.teleports = a.teleports ++ [] := (List.append_nil _).symm
  unfold next
  dsimp only
  rw [hteleports]
  cases emote with
  | none =>
    exact .entry _ none rfl (Session.entry_move _ _ rfl rfl rfl) fun h _ => Bool.noConfusion h
  | some e =>
    exact .entry _ none rfl (Session.entry_start _ _ rfl rfl rfl rfl rfl)
      fun h _ => Bool.noConfusion h

theorem moved_teleport (a : Audience) (now : U32) (request : TeleportRequest) :
    Moved x a (.teleport now request) (a.next base mode x (.teleport now request)) :=
  .entry _ (some request.realm) rfl (Session.entry_teleport _ _ rfl rfl rfl) fun _ h => nomatch h

theorem moved_emoteStop (a : Audience) (now : U32) :
    Moved x a (.emoteStop now) (a.next base mode x (.emoteStop now)) := by
  unfold next
  dsimp only [Observed.published]
  unfold publishEmoteStop
  split
  · exact .same
  · rename_i current hcurrent
    split
    · exact .same
    · rename_i active hactive
      have hteleports : a.teleports = a.teleports ++ [] := (List.append_nil _).symm
      have hemoting : current.isEmoting = true := by
        rw [PeerSnapshot.isEmoting, hactive]
        rfl
      rw [hteleports]
      exact .entry _ none rfl
        (Session.entry_stop _ _ (SnapshotBoard.last_of_tryRead hcurrent) hemoting rfl rfl rfl rfl rfl)
        fun _ _ => ⟨now, rfl⟩

theorem moved (base : ObserverCtx) (mode : SeqEncoding) (x : U32) (a : Audience)
    {e : WatchEvent} (he : ∀ t, e ≠ .tick t) :
    Moved x a e (a.next base mode x e) := by
  cases e with
  | input now state emote => exact moved_input a now state emote
  | teleport now request => exact moved_teleport a now request
  | emoteStop now => exact moved_emoteStop a now
  | tick t => exact absurd rfl (he t)

theorem Inv.entry {story : Story} (h : a.Inv x story) {snapshot : PeerSnapshot}
    {realm : Option Text} (hroom : a.board.lastSeq x ≠ NO_SEQ - 1)
    (hseq : snapshot.seq = a.board.lastSeq x + 1)
    (hentry : Entry (a.board.last x) (a.board.inherited x snapshot) realm) :
    Inv x { a with
        board := a.board.publish x snapshot
        teleports := a.teleports ++ (realm.map fun r => (snapshot.seq, r)).toList }
      (Function.update story snapshot.seq.val (a.board.inherited x snapshot, realm)) := by
  obtain ⟨hlast, hne, hval⟩ := Session.publish_next hroom hseq
  refine ⟨h.session.publish hroom hseq hentry, fun seq r => ?_, fun v hv => ?_⟩
  · have hnew : (seq, r) ∈ (realm.map fun r => (snapshot.seq, r)).toList ↔
        seq = snapshot.seq ∧ realm = some r := by
      cases realm with
      | none => simp
      | some r' =>
        simp only [Option.map_some, Option.toList_some, List.mem_singleton, Prod.mk.injEq,
          Option.some.injEq]
        exact and_congr_right fun _ => eq_comm
    dsimp only
    rw [List.mem_append, hnew, h.teleports, hlast, and_iff_right hne]
    by_cases heq : seq = snapshot.seq
    · rw [heq, Function.update_self]
      refine ⟨fun hor => ⟨le_rfl, ?_⟩, fun hr => Or.inr ⟨rfl, hr.2⟩⟩
      rcases hor with ⟨hold, hle, -⟩ | ⟨-, hr⟩
      · rw [if_neg hold] at hval
        have hle' := Fin.le_def.mp hle
        omega
      · exact hr
    · have hval' : seq.val ≠ snapshot.seq.val := fun hv => heq (Fin.ext hv)
      rw [Function.update_of_ne hval']
      simp only [heq, false_and, or_false]
      constructor
      · rintro ⟨hold, hle, hr⟩
        rw [if_neg hold] at hval
        have hle' := Fin.le_def.mp hle
        exact ⟨Fin.le_def.mpr (by omega), hr⟩
      · rintro ⟨hle, hr⟩
        have hle' := Fin.le_def.mp hle
        split at hval
        · omega
        · rename_i hold
          exact ⟨hold, Fin.le_def.mpr (by omega), hr⟩
  · obtain ⟨hold, hle, hrest⟩ := h.views v hv
    rw [if_neg hold] at hval
    dsimp only
    rw [hlast]
    refine ⟨hne, hle.trans (Fin.le_def.mpr (by omega)), hrest⟩

theorem next_inv {e : WatchEvent} (h : ∃ story, a.Inv x story) (hroom : a.room x e) :
    ∃ story, (a.next base mode x e).Inv x story := by
  obtain ⟨story, h⟩ := h
  by_cases htick : ∃ t, e = .tick t
  · obtain ⟨t, rfl⟩ := htick
    exact ⟨story, h.tick t⟩
  · have hmoves : ∀ t, e ≠ .tick t := fun t ht => htick ⟨t, ht⟩
    have hmoved := moved base mode x a hmoves
    generalize a.next base mode x e = a' at hmoved ⊢
    cases hmoved with
    | same => exact ⟨story, h⟩
    | entry snapshot realm hseq hentry =>
      exact ⟨_, h.entry (Observed.room_of_published hmoves hroom) hseq hentry⟩

theorem run_inv {ringCapacity : ℕ} (hpos : 0 < ringCapacity) {events : List WatchEvent}
    (hmeets : Machine.Meets (step base mode x) (fun a => a.room x) (Audience.new ringCapacity x) events)
    (hrun : Machine.run (step base mode x) (Audience.new ringCapacity x) events = some a) :
    ∃ story, a.Inv x story :=
  Machine.run_invariant_of_meets (step base mode x) (P := fun a => ∃ story, a.Inv x story)
    (fun _ _ _ h hok hstep => Option.some.inj hstep ▸ next_inv h hok) events _ a hmeets hrun
    ⟨fun _ => (PeerSnapshot.default, none), inv_new hpos x _⟩

end Audience

/-! ### Stopped emotes -/

/-- The ring holds an emote stop after the snapshot that was last sent. -/
def SnapshotBoard.HoldsStop (board : SnapshotBoard) (x : U32) (view : PeerToPeerView) : Prop :=
  ∃ seq, view.lastSentSnapshot.seq < seq ∧ seq ≤ board.lastSeq x ∧
    ∃ s, board.tryReadSeq x seq = some s ∧ s.isStop = true

theorem Session.holdsStop_iff {board : SnapshotBoard} {x : U32} {story : Story}
    (h : Session board x story) (hlast : board.lastSeq x ≠ NO_SEQ) {view : PeerToPeerView}
    (hfrom : view.lastSentSnapshot.seq ≤ board.lastSeq x) :
    (scanIntermediateEvents board x view.lastSentSnapshot.seq
      (story (board.lastSeq x).val).1).lastEmoteStop.isSome = true ↔ board.HoldsStop x view := by
  have hstop := h.scan_lastEmoteStop hlast hfrom
  constructor
  · intro hsome
    obtain ⟨s, hs⟩ := Option.isSome_iff_exists.mp hsome
    obtain ⟨n, ⟨hlow, hhigh, hkept⟩, rfl, hp⟩ := hstop.found s hs
    have hlt := (board.lastSeq x).isLt
    have hval : (Fin.ofNat 4294967296 n).val = n := Nat.mod_eq_of_lt (by omega)
    refine ⟨Fin.ofNat 4294967296 n, ?_, ?_, (story n).1, ?_, hp⟩
    · rw [Fin.lt_def, hval]
      exact hlow
    · rw [Fin.le_def, hval]
      exact hhigh
    · rw [h.tryReadSeq_eq hlast (by rw [hval]; exact hhigh), hval, if_pos hkept]
  · rintro ⟨seq, hlow, hhigh, s, hs, hp⟩
    rw [h.tryReadSeq_eq hlast hhigh] at hs
    split at hs
    · rename_i hkept
      obtain rfl := Option.some.inj hs
      obtain ⟨last, hfound, -⟩ := hstop.last seq.val ⟨hlow, hhigh, hkept⟩ hp
      exact Option.isSome_iff_exists.mpr ⟨last, hfound⟩
    · cases hs

/-- On a tick that processes a subject whose latest snapshot is not emoting, the emote that the
observer was told of is over, with its stop sent, exactly when the ring still holds a stop. -/
theorem stop_told_iff (base : ObserverCtx) (mode : SeqEncoding) (x : U32) (ringCapacity : ℕ)
    (hpos : 0 < ringCapacity) (events : List WatchEvent) (t : WatchTick) (a : Audience)
    (hmeets : Machine.Meets (Audience.step base mode x) (fun a => a.room x)
      (Audience.new ringCapacity x) events)
    (hrun : Machine.run (Audience.step base mode x) (Audience.new ringCapacity x) events = some a)
    (view : PeerToPeerView) (latest : PeerSnapshot) (hproc : a.Processes base x t view latest)
    (hidle : latest.isEmoting = false) :
    (∃ view', (a.next base mode x (.tick t)).views[x]? = some view' ∧ view'.lastSentEmote = none ∧
      (view.lastSentEmote ≠ none →
        ∃ m ∈ (a.serve base mode x t).stopsSent, m.subjectId = x)) ↔
    (view.lastSentEmote ≠ none → a.board.HoldsStop x view) := by
  obtain ⟨story, hinv⟩ := Audience.run_inv hpos hmeets hrun
  obtain ⟨view', hr⟩ := hinv.reports mode hproc
  obtain ⟨-, hle, -⟩ := hinv.views view hr.known
  have hstop := hinv.session.scan_lastEmoteStop hr.last hle
  have heff := hinv.session.start_not_effective hr.last hle (hr.read ▸ hidle)
  have hidle' := hr.reported.idle
  rw [hr.read] at hidle'
  have hiff := hidle' heff fun s hs => by
    obtain ⟨n, -, -, hp⟩ := hstop.found s hs
    exact hp
  rw [hinv.session.holdsStop_iff hr.last hle] at hiff
  rw [← hiff]
  constructor
  · rintro ⟨v, hv, hnone, htold⟩
    obtain rfl := Option.some.inj (hr.after.symm.trans hv)
    exact ⟨hnone, htold⟩
  · exact fun h => ⟨view', hr.after, h⟩

/-! The subject waves on its first snapshot and stops, and moves on for a while before the observer
is served again. -/

def served (tickCounter : U32) : WatchTick := ⟨0, tickCounter, ProfileBoard.new, some TIER_0, none⟩

def waves (moves : ℕ) : List WatchEvent :=
  [.input 1 stillState (some ⟨['w'], none, none⟩), .tick (served 1), .emoteStop 2] ++
    List.replicate moves (.input 3 stillState none)

/-- Its view is of its present wallet, an emote in it, and the subject has stopped. -/
def Audience.awaitsStop (a : Audience) : Bool :=
  (a.views[(1 : U32)]?.any fun v => v.lastSentEmote.isSome && decide (v.lastSentSnapshot.seq = 0) &&
    ObserverCtx.sameWallet v.lastSentWalletId (plainCtx.currentWallet 1)) &&
  (a.board.tryRead 1).any fun s => !s.isEmoting

theorem Audience.processes_served {a : Audience} (h : a.awaitsStop = true) :
    ∃ view latest, a.views[(1 : U32)]? = some view ∧ view.lastSentEmote ≠ none ∧
      view.lastSentSnapshot.seq = 0 ∧ latest.isEmoting = false ∧
      a.Processes plainCtx 1 (served 2) view latest := by
  rw [awaitsStop, Bool.and_eq_true] at h
  obtain ⟨hknown, hread⟩ := h
  obtain ⟨view, hview, hv⟩ := (Option.any_eq_true _ _).mp hknown
  obtain ⟨latest, hlatest, hidle⟩ := (Option.any_eq_true _ _).mp hread
  rw [Bool.and_eq_true, Bool.and_eq_true, decide_eq_true_eq] at hv
  refine ⟨view, latest, hview, ?_, hv.1.2, by simpa using hidle, TIER_0, rfl, ?_⟩
  · rintro hnone
    simp [hnone] at hv
  · have hdue : (a.ctx plainCtx (served 2)).skipsTick TIER_0 = false := by
      simp [ObserverCtx.skipsTick, Observed.ctx, plainCtx, PulseConfig.default, TIER_0, served]
    exact ⟨rfl, hview, hv.2, by rw [hdue, Bool.and_false], hlatest⟩

theorem stop_told_waves :
    ∃ a view, Machine.run (Audience.step plainCtx .absolute 1) (Audience.new 10 1) (waves 9) =
        some a ∧ a.views[(1 : U32)]? = some view ∧ view.lastSentEmote ≠ none ∧
      ∃ view', (a.next plainCtx .absolute 1 (.tick (served 2))).views[(1 : U32)]? = some view' ∧
        view'.lastSentEmote = none := by
  have hmeets : Machine.Meets (Audience.step plainCtx .absolute 1) (fun a => a.room 1)
      (Audience.new 10 1) (waves 9) := by decide
  have hrun : ((Machine.run (Audience.step plainCtx .absolute 1) (Audience.new 10 1) (waves 9)).map
      fun a => (a.awaitsStop, (a.board.tryReadSeq 1 1).any PeerSnapshot.isStop, a.board.lastSeq 1)) =
      some (true, true, 10) := by decide
  obtain ⟨a, ha, heq⟩ := Option.map_eq_some_iff.mp hrun
  simp only [Prod.mk.injEq] at heq
  obtain ⟨hawaits, hheld, hlast⟩ := heq
  obtain ⟨view, latest, hview, htold, hseq, hidle, hproc⟩ := Audience.processes_served hawaits
  obtain ⟨s, hs, hstop⟩ := (Option.any_eq_true _ _).mp hheld
  have hholds : a.board.HoldsStop 1 view :=
    ⟨1, by rw [hseq]; decide, by rw [hlast]; decide, s, hs, hstop⟩
  obtain ⟨view', hview', hnone, -⟩ := (stop_told_iff plainCtx .absolute 1 10 (by decide) (waves 9)
    (served 2) a hmeets ha view latest hproc hidle).mpr fun _ => hholds
  exact ⟨a, view, ha, hview, htold, view', hview', hnone⟩

/-- With one more move the stop is no longer in the ring. -/
theorem stop_overwritten :
    ¬ ∀ (base : ObserverCtx) (mode : SeqEncoding) (x : U32) (ringCapacity : ℕ)
      (events : List WatchEvent) (t : WatchTick) (a : Audience) (view : PeerToPeerView)
      (latest : PeerSnapshot) (view' : PeerToPeerView), 0 < ringCapacity →
      base.positionalOnly = false →
      Machine.run (Audience.step base mode x) (Audience.new ringCapacity x) events = some a →
      a.Processes base x t view latest → latest.isEmoting = false →
      (a.next base mode x (.tick t)).views[x]? = some view' → view'.lastSentEmote = none := by
  have hrun : ((Machine.run (Audience.step plainCtx .absolute 1) (Audience.new 10 1) (waves 10)).map
      fun a => (a.awaitsStop, (a.next plainCtx .absolute 1 (.tick (served 2))).views[(1 : U32)]?.any
        fun v => v.lastSentEmote.isSome)) = some (true, true) := by decide
  obtain ⟨a, ha, heq⟩ := Option.map_eq_some_iff.mp hrun
  simp only [Prod.mk.injEq] at heq
  obtain ⟨hawaits, hafter⟩ := heq
  obtain ⟨view, latest, -, -, -, hidle, hproc⟩ := Audience.processes_served hawaits
  obtain ⟨view', hview', hsome⟩ := (Option.any_eq_true _ _).mp hafter
  intro h
  have hnone := h plainCtx .absolute 1 10 (waves 10) (served 2) a view latest view' (by decide) rfl ha
    hproc hidle hview'
  rw [hnone] at hsome
  cases hsome

end Catalyrst.Pulse
