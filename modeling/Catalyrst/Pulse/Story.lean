import Catalyrst.Pulse.Sequences

/-!
# The session of a subject

From its first snapshot on a slot publishes moves, emote starts and stops, and
teleports. An entry that has no emote or realm of its own takes over what the entry
before it left, and a stop copies the snapshot it stops, the teleport flag included.
The ring holds the last entries; a scan looks at those after a given sequence.
-/

namespace Catalyrst.Pulse
open Catalyrst.Lib

namespace PeerSnapshot

/-- A stopped emote is part of the snapshot. -/
def isStop (s : PeerSnapshot) : Bool := s.emote.any fun e => e.stopReason.isSome

end PeerSnapshot

/-- What an entry makes of the one before it, and the realm of a teleport request. -/
inductive Entry (before : Option PeerSnapshot) (s : PeerSnapshot) : Option Text → Prop
  | moved (emote : s.emote = (before.bind PeerSnapshot.emote).filter fun e => e.stopReason.isNone)
      (flag : s.isTeleport = false)
      (seq : s.lastTeleportSeq = before.elim 0 PeerSnapshot.lastTeleportSeq)
      (realm : s.realm = before.bind PeerSnapshot.realm) : Entry before s none
  | started (e : EmoteState) (emote : s.emote = some e) (id : e.emoteId.isSome = true)
      (reason : e.stopReason = none) (flag : s.isTeleport = false)
      (seq : s.lastTeleportSeq = before.elim 0 PeerSnapshot.lastTeleportSeq)
      (realm : s.realm = before.bind PeerSnapshot.realm) : Entry before s none
  | teleported (dest : Text)
      (emote : s.emote = (before.bind PeerSnapshot.emote).filter fun e => e.stopReason.isNone)
      (flag : s.isTeleport = true) (seq : s.lastTeleportSeq = s.seq)
      (realm : s.realm = some dest) : Entry before s (some dest)
  | stopped (p : PeerSnapshot) (e : EmoteState) (running : before = some p)
      (emoting : p.isEmoting = true) (emote : s.emote = some e) (id : e.emoteId = none)
      (reason : e.stopReason.isSome = true) (flag : s.isTeleport = p.isTeleport)
      (seq : s.lastTeleportSeq = if p.isTeleport then s.seq else p.lastTeleportSeq)
      (realm : s.realm = p.realm) : Entry before s none

/-- The entries of a session: each snapshot with the realm of its teleport request. -/
abbrev Story := ℕ → PeerSnapshot × Option Text

namespace Story

def before (story : Story) : ℕ → Option PeerSnapshot
  | 0 => none
  | n + 1 => some (story n).1

theorem before_congr {a b : Story} {n : ℕ} (h : ∀ m < n, a m = b m) : a.before n = b.before n := by
  cases n with
  | zero => rfl
  | succ n => exact congrArg (fun p => some p.1) (h n (Nat.lt_succ_self n))

end Story

/-- The session that an active slot is in. -/
structure Session (board : SnapshotBoard) (x : U32) (story : Story) : Prop where
  capacity : 0 < board.ringCapacity
  active : (board.ring x).active = true
  length : (board.ring x).ring.length = board.ringCapacity
  fresh : board.lastSeq x = NO_SEQ →
    (board.ring x).ring = List.replicate board.ringCapacity PeerSnapshot.default
  window : board.lastSeq x ≠ NO_SEQ → Ring.Window (fun s : PeerSnapshot => s.seq.val)
    PeerSnapshot.default (board.ring x).ring (fun n => (story n).1) (board.lastSeq x).val
  entries : board.lastSeq x ≠ NO_SEQ → ∀ n ≤ (board.lastSeq x).val,
    Entry (story.before n) (story n).1 (story n).2

namespace Session

variable {board : SnapshotBoard} {x : U32} {story : Story}

theorem start {ringCapacity : ℕ} (hpos : 0 < ringCapacity) (x : U32) (story : Story) :
    Session ((SnapshotBoard.new ringCapacity).setActive x) x story := by
  have hring : ((SnapshotBoard.new ringCapacity).setActive x).ring x =
      { PeerRing.new ringCapacity with active := true } := by
    rw [SnapshotBoard.ring_setActive, if_pos rfl]
    simp [SnapshotBoard.new, SnapshotBoard.ring]
  have hlast : ((SnapshotBoard.new ringCapacity).setActive x).lastSeq x = NO_SEQ := by
    rw [SnapshotBoard.lastSeq, hring]
    rfl
  refine ⟨hpos, ?_, ?_, fun _ => ?_, fun h => absurd hlast h, fun h => absurd hlast h⟩
  · rw [hring]
  · rw [hring]
    exact List.length_replicate
  · rw [hring]
    rfl

/-! ### Reading -/

theorem slot_eq (h : Session board x story) (seq : U32) :
    board.slot (board.ring x) seq = Ring.read PeerSnapshot.default (board.ring x).ring seq.val :=
  SnapshotBoard.slot_eq_read board h.length seq

theorem seq_story (h : Session board x story) (hlast : board.lastSeq x ≠ NO_SEQ) {n : ℕ}
    (hn : n ≤ (board.lastSeq x).val) : (story n).1.seq.val = n := (h.window hlast).numbered n hn

/-- The latest snapshot is the last entry. -/
theorem last_eq (h : Session board x story) (hlast : board.lastSeq x ≠ NO_SEQ) :
    board.last x = some (story (board.lastSeq x).val).1 := by
  have hkept := (h.window hlast).kept _ le_rfl (by rw [h.length]; exact Nat.lt_add_of_pos_right h.capacity)
  have hread : board.slot (board.ring x) (board.ring x).lastSeq =
      (story (board.lastSeq x).val).1 := (h.slot_eq _).trans hkept
  have hne : ¬ (board.ring x).lastSeq = NO_SEQ := hlast
  simp only [SnapshotBoard.last, if_neg hne, hread]

theorem tryRead_eq (h : Session board x story) (hlast : board.lastSeq x ≠ NO_SEQ) :
    board.tryRead x = some (story (board.lastSeq x).val).1 := by
  have hread := h.last_eq hlast
  have hne : ¬ (board.ring x).lastSeq = NO_SEQ := hlast
  simp only [SnapshotBoard.last, if_neg hne] at hread
  simp only [SnapshotBoard.tryRead, h.active, Bool.not_true, Bool.false_or, decide_eq_true_eq,
    if_neg hne, hread]

theorem lastSeq_of_tryRead {s : PeerSnapshot} (hs : board.tryRead x = some s) :
    board.lastSeq x ≠ NO_SEQ := by
  intro hlast
  have heq : (board.ring x).lastSeq = NO_SEQ := hlast
  simp only [SnapshotBoard.tryRead, heq, decide_true, Bool.or_true, if_true] at hs
  cases hs

/-- An entry is read until the ring has come round to it again. -/
theorem tryReadSeq_eq (h : Session board x story) (hlast : board.lastSeq x ≠ NO_SEQ) {seq : U32}
    (hle : seq.val ≤ (board.lastSeq x).val) : board.tryReadSeq x seq =
      if (board.lastSeq x).val < seq.val + board.ringCapacity then some (story seq.val).1
      else none := by
  have hwindow := h.window hlast
  have hfound := hwindow.found_iff (by rw [h.length]; exact h.capacity) hle
  rw [h.length] at hfound
  have hne : ¬ (board.ring x).lastSeq = NO_SEQ := hlast
  simp only [SnapshotBoard.tryReadSeq, h.active, Bool.not_true, Bool.false_or, decide_eq_true_eq,
    if_neg hne, h.slot_eq]
  by_cases hkept : (board.lastSeq x).val < seq.val + board.ringCapacity
  · rw [if_pos hkept, if_pos (Fin.ext (hfound.mpr hkept)), hwindow.kept seq.val hle]
    rwa [h.length]
  · rw [if_neg hkept, if_neg fun heq => hkept (hfound.mp (congrArg Fin.val heq))]

/-! ### Publishing -/

theorem val_next (board : SnapshotBoard) (x : U32) : (board.lastSeq x + 1).val =
    if board.lastSeq x = NO_SEQ then 0 else (board.lastSeq x).val + 1 := by
  split
  · rename_i h
    rw [h]
    rfl
  · rename_i h
    exact SnapshotBoard.val_succ_of_ne h

/-- The number of an entry there is room for is the next one. -/
theorem publish_next {snapshot : PeerSnapshot} (hroom : board.lastSeq x ≠ NO_SEQ - 1)
    (hseq : snapshot.seq = board.lastSeq x + 1) :
    (board.publish x snapshot).lastSeq x = snapshot.seq ∧ snapshot.seq ≠ NO_SEQ ∧
      snapshot.seq.val = if board.lastSeq x = NO_SEQ then 0 else (board.lastSeq x).val + 1 := by
  refine ⟨?_, fun heq => hroom (eq_sub_iff_add_eq.mpr (hseq ▸ heq)), ?_⟩
  · rw [SnapshotBoard.lastSeq_publish, if_pos rfl]
  · rw [hseq]
    exact val_next board x

theorem last_eq_before (h : Session board x story) :
    board.last x = story.before (board.lastSeq x + 1).val := by
  rw [val_next]
  by_cases hlast : board.lastSeq x = NO_SEQ
  · have heq : (board.ring x).lastSeq = NO_SEQ := hlast
    rw [if_pos hlast, SnapshotBoard.last, if_pos heq]
    rfl
  · rw [if_neg hlast, h.last_eq hlast]
    rfl

theorem publish (h : Session board x story) {snapshot : PeerSnapshot} {realm : Option Text}
    (hroom : board.lastSeq x ≠ NO_SEQ - 1) (hseq : snapshot.seq = board.lastSeq x + 1)
    (hentry : Entry (board.last x) (board.inherited x snapshot) realm) :
    Session (board.publish x snapshot) x
      (Function.update story snapshot.seq.val (board.inherited x snapshot, realm)) := by
  have hring : ((board.publish x snapshot).ring x).ring = Ring.write
      (fun s : PeerSnapshot => s.seq.val) (board.ring x).ring (board.inherited x snapshot) := by
    rw [SnapshotBoard.ring_publish, if_pos rfl, Ring.write, h.length]
    rfl
  have hlast : (board.publish x snapshot).lastSeq x = snapshot.seq := by
    rw [SnapshotBoard.lastSeq_publish, if_pos rfl]
  have hnew : snapshot.seq ≠ NO_SEQ := by
    intro heq
    exact hroom (eq_sub_iff_add_eq.mpr (hseq ▸ heq))
  have hval : snapshot.seq.val =
      if board.lastSeq x = NO_SEQ then 0 else (board.lastSeq x).val + 1 := by
    rw [hseq, val_next]
  have hstory : (fun n => (Function.update story snapshot.seq.val
      (board.inherited x snapshot, realm) n).1) =
      Function.update (fun n => (story n).1) snapshot.seq.val (board.inherited x snapshot) := by
    funext n
    by_cases hn : n = snapshot.seq.val
    · rw [hn, Function.update_self, Function.update_self]
    · rw [Function.update_of_ne hn, Function.update_of_ne hn]
  refine ⟨?_, ?_, ?_, fun hfresh => absurd (hlast.symm.trans hfresh) hnew, fun _ => ?_,
    fun _ n hn => ?_⟩
  · rw [SnapshotBoard.ringCapacity_publish]
    exact h.capacity
  · rw [SnapshotBoard.active_publish]
    exact h.active
  · rw [hring, Ring.length_write, SnapshotBoard.ringCapacity_publish]
    exact h.length
  · rw [hring, hlast, hstory]
    by_cases hold : board.lastSeq x = NO_SEQ
    · rw [if_pos hold] at hval
      rw [h.fresh hold, hval]
      exact Ring.Window.first (fun s : PeerSnapshot => s.seq.val) PeerSnapshot.default h.capacity
        (a := board.inherited x snapshot) hval _
    · rw [if_neg hold] at hval
      rw [hval]
      exact (h.window hold).next (by rw [h.length]; exact h.capacity)
        (a := board.inherited x snapshot) hval
  · rw [hlast] at hn
    have hbefore : Story.before (Function.update story snapshot.seq.val
        (board.inherited x snapshot, realm)) n = story.before n :=
      Story.before_congr fun m hm => Function.update_of_ne (ne_of_lt (hm.trans_le hn)) _ _
    rw [hbefore]
    rcases Nat.lt_or_eq_of_le hn with hlt | rfl
    · rw [Function.update_of_ne (ne_of_lt hlt)]
      split at hval
      · omega
      · rename_i hold
        exact h.entries hold n (by omega)
    · rw [Function.update_self, hseq, ← h.last_eq_before]
      exact hentry

/-! The entries that the publishers write. -/

theorem entry_move (board : SnapshotBoard) (x : U32) {snapshot : PeerSnapshot}
    (hemote : snapshot.emote = none) (hflag : snapshot.isTeleport = false)
    (hrealm : snapshot.realm = none) :
    Entry (board.last x) (board.inherited x snapshot) none := by
  refine .moved ?_ hflag ?_ ?_
  · simp only [SnapshotBoard.inherited, hemote, Option.none_or, SnapshotBoard.inheritEmoteState]
    cases board.last x <;> rfl
  · simp only [SnapshotBoard.inherited, hflag, Bool.false_eq_true, if_false]
    rfl
  · simp only [SnapshotBoard.inherited, hrealm, Option.none_or]
    rfl

theorem entry_start (board : SnapshotBoard) (x : U32) {snapshot : PeerSnapshot} {e : EmoteState}
    (hemote : snapshot.emote = some e) (hid : e.emoteId.isSome = true)
    (hreason : e.stopReason = none) (hflag : snapshot.isTeleport = false)
    (hrealm : snapshot.realm = none) :
    Entry (board.last x) (board.inherited x snapshot) none := by
  refine .started e ?_ hid hreason hflag ?_ ?_
  · simp only [SnapshotBoard.inherited, hemote, Option.some_or]
  · simp only [SnapshotBoard.inherited, hflag, Bool.false_eq_true, if_false]
    rfl
  · simp only [SnapshotBoard.inherited, hrealm, Option.none_or]
    rfl

theorem entry_teleport (board : SnapshotBoard) (x : U32) {snapshot : PeerSnapshot} {realm : Text}
    (hemote : snapshot.emote = none) (hflag : snapshot.isTeleport = true)
    (hrealm : snapshot.realm = some realm) :
    Entry (board.last x) (board.inherited x snapshot) (some realm) := by
  refine .teleported realm ?_ hflag ?_ ?_
  · simp only [SnapshotBoard.inherited, hemote, Option.none_or, SnapshotBoard.inheritEmoteState]
    cases board.last x <;> rfl
  · simp only [SnapshotBoard.inherited, hflag, if_true]
  · simp only [SnapshotBoard.inherited, hrealm, Option.some_or]

theorem entry_stop (board : SnapshotBoard) (x : U32) {current snapshot : PeerSnapshot}
    {e : EmoteState} (hcurrent : board.last x = some current)
    (hemoting : current.isEmoting = true) (hemote : snapshot.emote = some e)
    (hid : e.emoteId = none) (hreason : e.stopReason.isSome = true)
    (hflag : snapshot.isTeleport = current.isTeleport) (hrealm : snapshot.realm = current.realm) :
    Entry (board.last x) (board.inherited x snapshot) none := by
  refine .stopped current e hcurrent hemoting ?_ hid hreason hflag ?_ ?_
  · simp only [SnapshotBoard.inherited, hemote, Option.some_or]
  · simp only [SnapshotBoard.inherited, hflag, SnapshotBoard.inheritLastTeleportSeq, hcurrent]
    rfl
  · simp only [SnapshotBoard.inherited, hrealm, SnapshotBoard.inheritRealm, hcurrent,
      Option.bind_some]
    cases current.realm <;> rfl

/-! ### Emotes -/

theorem isEmoting_iff {s : PeerSnapshot} :
    s.isEmoting = true ↔ ∃ e, s.emote = some e ∧ e.emoteId.isSome = true := by
  unfold PeerSnapshot.isEmoting PeerSnapshot.runningEmote
  cases s.emote with
  | none => simp
  | some e => simp [Option.filter_some]

end Session

/-- The emote of an entry: taken over, started or stopped. -/
theorem Entry.emote_cases {before : Option PeerSnapshot} {s : PeerSnapshot} {realm : Option Text}
    (h : Entry before s realm) :
    s.emote = (before.bind PeerSnapshot.emote).filter (fun e => e.stopReason.isNone) ∨
    (∃ e, s.emote = some e ∧ e.emoteId.isSome = true ∧ e.stopReason = none) ∨
    ∃ e, s.emote = some e ∧ e.emoteId = none ∧ e.stopReason.isSome = true := by
  cases h with
  | moved emote => exact Or.inl emote
  | started e emote id reason => exact Or.inr (Or.inl ⟨e, emote, id, reason⟩)
  | teleported _ emote => exact Or.inl emote
  | stopped _ e _ _ emote id reason => exact Or.inr (Or.inr ⟨e, emote, id, reason⟩)

namespace Session

variable {board : SnapshotBoard} {x : U32} {story : Story}

/-- An emote either runs or was stopped. -/
theorem tidy (h : Session board x story) (hlast : board.lastSeq x ≠ NO_SEQ) {n : ℕ}
    (hn : n ≤ (board.lastSeq x).val) :
    ∀ e ∈ (story n).1.emote, e.emoteId.isSome = e.stopReason.isNone := by
  induction n with
  | zero =>
    intro e he
    rcases (h.entries hlast 0 hn).emote_cases with hsame | ⟨e', hstart, hid, hreason⟩ |
      ⟨e', hstop, hid, hreason⟩
    · simp [hsame, Story.before] at he
    · obtain rfl := Option.some.inj (hstart.symm.trans he)
      rw [hid, hreason]
      rfl
    · obtain rfl := Option.some.inj (hstop.symm.trans he)
      rw [hid, ← Option.not_isSome, hreason]
      rfl
  | succ n ih =>
    intro e he
    rcases (h.entries hlast (n + 1) hn).emote_cases with hsame | ⟨e', hstart, hid, hreason⟩ |
      ⟨e', hstop, hid, hreason⟩
    · exact ih (Nat.le_of_succ_le hn) e (Option.filter_eq_some_iff.mp (hsame.symm.trans he)).1
    · obtain rfl := Option.some.inj (hstart.symm.trans he)
      rw [hid, hreason]
      rfl
    · obtain rfl := Option.some.inj (hstop.symm.trans he)
      rw [hid, ← Option.not_isSome, hreason]
      rfl

/-- A running emote goes on running until it is stopped. -/
theorem emoting_next (h : Session board x story) (hlast : board.lastSeq x ≠ NO_SEQ) {n : ℕ}
    (hn : n + 1 ≤ (board.lastSeq x).val) (hrun : (story n).1.isEmoting = true) :
    (story (n + 1)).1.isEmoting = true ∨ (story (n + 1)).1.isStop = true := by
  obtain ⟨e, he, hid⟩ := isEmoting_iff.mp hrun
  have hgoing := h.tidy hlast (Nat.le_of_succ_le hn) e he
  rw [hid] at hgoing
  have hkept : ((story.before (n + 1)).bind PeerSnapshot.emote).filter
      (fun e => e.stopReason.isNone) = some e :=
    Option.filter_eq_some_iff.mpr ⟨he, hgoing.symm⟩
  rcases (h.entries hlast (n + 1) hn).emote_cases with hsame | ⟨e', hstart, hid', -⟩ |
    ⟨e', hstop, -, hreason⟩
  · exact Or.inl (isEmoting_iff.mpr ⟨e, hsame.trans hkept, hid⟩)
  · exact Or.inl (isEmoting_iff.mpr ⟨e', hstart, hid'⟩)
  · right
    rw [PeerSnapshot.isStop, hstop]
    exact hreason

theorem stop_between (h : Session board x story) (hlast : board.lastSeq x ≠ NO_SEQ) {n m : ℕ}
    (hnm : n ≤ m) (hm : m ≤ (board.lastSeq x).val) (hrun : (story n).1.isEmoting = true)
    (hidle : (story m).1.isEmoting = false) : ∃ k, n < k ∧ k ≤ m ∧ (story k).1.isStop = true := by
  induction m, hnm using Nat.le_induction with
  | base =>
    rw [hrun] at hidle
    cases hidle
  | succ m hnm ih =>
    cases hbefore : (story m).1.isEmoting with
    | false =>
      obtain ⟨k, hnk, hkm, hstop⟩ := ih (Nat.le_of_succ_le hm) hbefore
      exact ⟨k, hnk, Nat.le_succ_of_le hkm, hstop⟩
    | true =>
      rcases h.emoting_next hlast hm hbefore with hgoes | hstop
      · rw [hgoes] at hidle
        cases hidle
      · exact ⟨m + 1, Nat.lt_succ_of_le hnm, le_rfl, hstop⟩

/-! ### Teleports -/

end Session

theorem Entry.lastTeleportSeq {before : Option PeerSnapshot} {s : PeerSnapshot}
    {realm : Option Text} (h : Entry before s realm) : s.lastTeleportSeq =
      if s.isTeleport = true then s.seq else before.elim 0 PeerSnapshot.lastTeleportSeq := by
  cases h with
  | moved _ flag seq => rw [if_neg (by simp [flag]), seq]
  | started _ _ _ _ flag seq => rw [if_neg (by simp [flag]), seq]
  | teleported _ _ flag seq => rw [if_pos flag, seq]
  | stopped p _ running _ _ _ _ flag seq => rw [seq, flag, running, Option.elim_some]

namespace Session

variable {board : SnapshotBoard} {x : U32} {story : Story}

/-- `last_teleport_seq` is the last sequence up to here whose teleport flag is set. -/
theorem lastTeleportSeq_spec (h : Session board x story) (hlast : board.lastSeq x ≠ NO_SEQ) {n : ℕ}
    (hn : n ≤ (board.lastSeq x).val) :
    (∀ k ≤ n, (story k).1.isTeleport = true → k ≤ (story n).1.lastTeleportSeq.val) ∧
    (0 < (story n).1.lastTeleportSeq.val → (story n).1.lastTeleportSeq.val ≤ n ∧
      (story (story n).1.lastTeleportSeq.val).1.isTeleport = true) := by
  induction n with
  | zero =>
    have hseq := (h.entries hlast 0 hn).lastTeleportSeq
    have hzero : (story 0).1.lastTeleportSeq.val = 0 := by
      rw [hseq]
      split
      · exact h.seq_story hlast hn
      · rfl
    rw [hzero]
    exact ⟨fun k hk _ => hk, fun hpos => absurd hpos (lt_irrefl 0)⟩
  | succ n ih =>
    have hseq := (h.entries hlast (n + 1) hn).lastTeleportSeq
    by_cases hflag : (story (n + 1)).1.isTeleport = true
    · rw [if_pos hflag] at hseq
      rw [hseq, h.seq_story hlast hn]
      exact ⟨fun k hk _ => hk, fun _ => ⟨le_rfl, hflag⟩⟩
    · rw [if_neg hflag] at hseq
      have hbefore : (story (n + 1)).1.lastTeleportSeq = (story n).1.lastTeleportSeq := hseq
      obtain ⟨hbound, hset⟩ := ih (Nat.le_of_succ_le hn)
      rw [hbefore]
      refine ⟨fun k hk hk' => ?_, fun hpos => ?_⟩
      · rcases Nat.lt_or_eq_of_le hk with hlt | rfl
        · exact hbound k (Nat.le_of_lt_succ hlt) hk'
        · exact absurd hk' hflag
      · exact ⟨Nat.le_succ_of_le (hset hpos).1, (hset hpos).2⟩

/-- The flag is set by a teleport, or by a stop right after one. -/
theorem flag_origin (h : Session board x story) (hlast : board.lastSeq x ≠ NO_SEQ) {n : ℕ}
    (hn : n ≤ (board.lastSeq x).val) (hflag : (story n).1.isTeleport = true) :
    (story n).2.isSome = true ∨ ∃ m, n = m + 1 ∧ (story m).2.isSome = true ∧
      (story m).1.isTeleport = true ∧ (story m).1.isEmoting = true := by
  have hentry := h.entries hlast n hn
  generalize (story n).2 = realm at hentry ⊢
  cases hentry with
  | moved _ flag => exact absurd (hflag.symm.trans flag) (by decide)
  | started _ _ _ _ flag => exact absurd (hflag.symm.trans flag) (by decide)
  | teleported dest => exact Or.inl rfl
  | stopped p e running emoting _ _ _ flag =>
    right
    cases n with
    | zero => cases running
    | succ m =>
      obtain rfl : (story m).1 = p := Option.some.inj running
      have hset := flag.symm.trans hflag
      refine ⟨m, rfl, ?_, hset, emoting⟩
      -- the snapshot that was stopped is no stop itself
      have hprev := h.entries hlast m (Nat.le_of_succ_le hn)
      generalize (story m).2 = realm' at hprev ⊢
      cases hprev with
      | moved _ flag' => exact absurd (hset.symm.trans flag') (by decide)
      | started _ _ _ _ flag' => exact absurd (hset.symm.trans flag') (by decide)
      | teleported dest => rfl
      | stopped _ e' _ _ emote id =>
        obtain ⟨e'', he, hid⟩ := isEmoting_iff.mp emoting
        obtain rfl := Option.some.inj (emote.symm.trans he)
        rw [id] at hid
        cases hid

/-- The realm stays that of the last teleport. -/
theorem realm_since (h : Session board x story) (hlast : board.lastSeq x ≠ NO_SEQ) {T n : ℕ}
    {realm : Text} (hT : (story T).2 = some realm) (hTn : T ≤ n) (hn : n ≤ (board.lastSeq x).val)
    (hsince : ∀ k, T < k → k ≤ n → (story k).2 = none) : (story n).1.realm = some realm := by
  induction n, hTn using Nat.le_induction with
  | base =>
    have hentry := h.entries hlast T hn
    rw [hT] at hentry
    cases hentry with
    | teleported _ _ _ _ hrealm => exact hrealm
  | succ n hTn ih =>
    have hprev := ih (Nat.le_of_succ_le hn) fun k hk hkn => hsince k hk (Nat.le_succ_of_le hkn)
    have hentry := h.entries hlast (n + 1) hn
    rw [hsince (n + 1) (Nat.lt_succ_of_le hTn) le_rfl] at hentry
    cases hentry with
    | moved _ _ _ hrealm => exact hrealm.trans hprev
    | started _ _ _ _ _ _ hrealm => exact hrealm.trans hprev
    | stopped p _ running _ _ _ _ _ _ hrealm =>
      obtain rfl : (story n).1 = p := Option.some.inj running
      exact hrealm.trans hprev

end Session

/-! ### Scans -/

/-- What the loop of a scan keeps of the snapshots that it found. -/
structure ScanState.Of (found : List PeerSnapshot) (st : ScanState) : Prop where
  start : ∀ s, st.lastEmoteStart = some s ∨ st.earliestCarry = some s →
    s ∈ found ∧ s.isEmoting = true
  stop : st.lastEmoteStop = (found.filter PeerSnapshot.isStop).getLast?
  teleport : st.lastTeleport = (found.filter PeerSnapshot.isTeleport).getLast?

/-- The four variables after one snapshot, each on its own. -/
theorem ScanState.step_eq (st : ScanState) (s : PeerSnapshot) : st.step s =
    { lastEmoteStart := s.runningEmote.elim st.lastEmoteStart fun e =>
        if s.seq = e.startSeq then some s else st.lastEmoteStart
      lastEmoteStop := if s.isStop = true then some s else st.lastEmoteStop
      lastTeleport := if s.isTeleport = true then some s else st.lastTeleport
      earliestCarry := s.runningEmote.elim st.earliestCarry fun e =>
        if s.seq = e.startSeq then none else st.earliestCarry.or (some s) } := by
  unfold ScanState.step PeerSnapshot.isStop
  cases s.runningEmote with
  | none =>
    simp only [Option.elim_none]
    split_ifs <;> rfl
  | some e =>
    simp only [Option.elim_some]
    split_ifs <;> rfl

theorem ScanState.Of.step {found : List PeerSnapshot} {st : ScanState} (h : st.Of found)
    (s : PeerSnapshot) : (st.step s).Of (found ++ [s]) := by
  rw [ScanState.step_eq]
  have hold : ∀ r, st.lastEmoteStart = some r ∨ st.earliestCarry = some r →
      r ∈ found ++ [s] ∧ r.isEmoting = true := fun r hr =>
    ⟨List.mem_append_left _ (h.start r hr).1, (h.start r hr).2⟩
  refine ⟨fun r hr => ?_, ?_, ?_⟩
  · cases hrun : s.runningEmote with
    | none =>
      rw [hrun] at hr
      exact hold r hr
    | some e =>
      have hnew : s ∈ found ++ [s] ∧ s.isEmoting = true :=
        ⟨List.mem_append_right _ (List.mem_singleton_self s), by rw [PeerSnapshot.isEmoting, hrun]; rfl⟩
      simp only [hrun, Option.elim_some] at hr
      split at hr
      · rcases hr with hr | hr
        · exact Option.some.inj hr ▸ hnew
        · cases hr
      · rcases hr with hr | hr
        · exact hold r (Or.inl hr)
        · rcases Option.or_eq_some_iff.mp hr with hr | ⟨-, hr⟩
          · exact hold r (Or.inr hr)
          · exact Option.some.inj hr ▸ hnew
  · rw [List.filter_append, h.stop]
    by_cases hs : s.isStop = true
    · simp [hs]
    · simp [hs]
  · rw [List.filter_append, h.teleport]
    by_cases hs : s.isTeleport = true
    · simp [hs]
    · simp [hs]

theorem ScanState.of_foldl (found : List PeerSnapshot) :
    (found.foldl ScanState.step ⟨none, none, none, none⟩).Of found := by
  induction found using List.reverseRecOn with
  | nil =>
    refine ⟨fun s hs => ?_, rfl, rfl⟩
    rcases hs with hs | hs <;> cases hs
  | append_singleton found s ih =>
    rw [List.foldl_append]
    exact ih.step s

/-- The snapshots that a scan from `fromSeq` to `toSeq` finds. -/
def foundBetween (board : SnapshotBoard) (x fromSeq toSeq : U32) : List PeerSnapshot :=
  (seqsBetween fromSeq toSeq).filterMap (board.tryReadSeq x)

theorem scanFold_eq (board : SnapshotBoard) (x : U32) (seqs : List U32) (st : ScanState) :
    seqs.foldl (fun (st : ScanState) seq => (board.tryReadSeq x seq).elim st st.step) st =
      (seqs.filterMap (board.tryReadSeq x)).foldl ScanState.step st := by
  induction seqs generalizing st with
  | nil => rfl
  | cons seq seqs ih =>
    rw [List.foldl_cons, ih]
    cases hread : board.tryReadSeq x seq with
    | none => rw [List.filterMap_cons_none hread, Option.elim_none]
    | some s => rw [List.filterMap_cons_some hread, Option.elim_some, List.foldl_cons]

/-- The last of a list in order is behind all others. -/
theorem getLast?_filter {r : PeerSnapshot → PeerSnapshot → Prop} {l : List PeerSnapshot}
    (hl : l.Pairwise r) (p : PeerSnapshot → Bool) {s : PeerSnapshot} (hs : s ∈ l) (hp : p s = true) :
    ∃ last, (l.filter p).getLast? = some last ∧ (s = last ∨ r s last) := by
  have hin : s ∈ l.filter p := List.mem_filter.mpr ⟨hs, hp⟩
  rcases List.eq_nil_or_concat (l.filter p) with hnil | ⟨init, last, hconcat⟩
  · rw [hnil] at hin
    cases hin
  · rw [List.concat_eq_append] at hconcat
    refine ⟨last, by rw [hconcat, List.getLast?_append, List.getLast?_singleton, Option.some_or], ?_⟩
    have hpair := hl.filter p
    rw [hconcat] at hin hpair
    rcases List.mem_append.mp hin with hin | hin
    · exact Or.inr ((List.pairwise_append.mp hpair).2.2 s hin last (List.mem_singleton_self last))
    · exact Or.inl (List.mem_singleton.mp hin)

namespace Session

variable {board : SnapshotBoard} {x : U32} {story : Story} {fromSeq : U32}

/-- The entries after `fromSeq` that the ring still holds. -/
def Readable (board : SnapshotBoard) (x fromSeq : U32) (n : ℕ) : Prop :=
  fromSeq.val < n ∧ n ≤ (board.lastSeq x).val ∧ (board.lastSeq x).val < n + board.ringCapacity

theorem Readable.later {n m : ℕ} (h : Readable board x fromSeq n) (hnm : n ≤ m)
    (hm : m ≤ (board.lastSeq x).val) : Readable board x fromSeq m := by
  obtain ⟨hfrom, -, hkept⟩ := h
  exact ⟨by omega, hm, by omega⟩

theorem seqsBetween_ascending (fromSeq toSeq : U32) :
    (seqsBetween fromSeq toSeq).Pairwise fun a b => a.val < b.val := by
  have hto : toSeq.val < 4294967296 := toSeq.isLt
  unfold seqsBetween
  dsimp only
  rw [List.pairwise_map]
  refine List.Pairwise.imp_of_mem ?_ (List.pairwise_lt_range' (s := _))
  intro a b ha hb hab
  have ha' := List.mem_range'_1.mp ha
  have hb' := List.mem_range'_1.mp hb
  rw [Fin.val_ofNat, Fin.val_ofNat, Nat.mod_eq_of_lt (by omega), Nat.mod_eq_of_lt (by omega)]
  exact hab

theorem from_ne (hlast : board.lastSeq x ≠ NO_SEQ) (hfrom : fromSeq.val ≤ (board.lastSeq x).val) :
    fromSeq ≠ NO_SEQ := by
  rintro rfl
  refine hlast (Fin.ext (le_antisymm ?_ hfrom))
  exact Nat.le_of_lt_succ (board.lastSeq x).isLt

theorem mem_foundBetween (h : Session board x story) (hlast : board.lastSeq x ≠ NO_SEQ)
    (hfrom : fromSeq.val ≤ (board.lastSeq x).val) (s : PeerSnapshot) :
    s ∈ foundBetween board x fromSeq (board.lastSeq x) ↔
      ∃ n, Readable board x fromSeq n ∧ s = (story n).1 := by
  have hlt := (board.lastSeq x).isLt
  unfold foundBetween
  rw [List.mem_filterMap]
  constructor
  · rintro ⟨seq, hin, hread⟩
    obtain ⟨hlow, hhigh⟩ := (SnapshotBoard.mem_seqsBetween (from_ne hlast hfrom)).mp hin
    rw [h.tryReadSeq_eq hlast hhigh] at hread
    split at hread
    · rename_i hkept
      exact ⟨seq.val, ⟨hlow, hhigh, hkept⟩, (Option.some.inj hread).symm⟩
    · cases hread
  · rintro ⟨n, ⟨hlow, hhigh, hkept⟩, rfl⟩
    have hval : (Fin.ofNat 4294967296 n).val = n := Nat.mod_eq_of_lt (by omega)
    refine ⟨Fin.ofNat 4294967296 n, (SnapshotBoard.mem_seqsBetween (from_ne hlast hfrom)).mpr ?_, ?_⟩
    · rw [hval]
      exact ⟨hlow, hhigh⟩
    · rw [h.tryReadSeq_eq hlast (by rw [hval]; exact hhigh), hval, if_pos hkept]

theorem foundBetween_ascending (board : SnapshotBoard) (x fromSeq toSeq : U32) :
    (foundBetween board x fromSeq toSeq).Pairwise fun a b => a.seq.val < b.seq.val := by
  unfold foundBetween
  refine List.Pairwise.filterMap _ ?_ (seqsBetween_ascending fromSeq toSeq)
  intro a b hab s hs t ht
  rw [SnapshotBoard.seq_of_tryReadSeq hs, SnapshotBoard.seq_of_tryReadSeq ht]
  exact hab

/-- The last entry found that has a property. -/
structure LastFound (board : SnapshotBoard) (x fromSeq : U32) (story : Story)
    (p : PeerSnapshot → Bool) (o : Option PeerSnapshot) : Prop where
  found : ∀ s ∈ o, ∃ n, Readable board x fromSeq n ∧ s = (story n).1 ∧ p s = true
  last : ∀ n, Readable board x fromSeq n → p (story n).1 = true → ∃ s ∈ o, n ≤ s.seq.val

theorem lastFound (h : Session board x story) (hlast : board.lastSeq x ≠ NO_SEQ)
    (hfrom : fromSeq.val ≤ (board.lastSeq x).val) (p : PeerSnapshot → Bool) :
    LastFound board x fromSeq story p
      ((foundBetween board x fromSeq (board.lastSeq x)).filter p).getLast? := by
  refine ⟨fun s hs => ?_, fun n hn hp => ?_⟩
  · obtain ⟨hin, hp⟩ := List.mem_filter.mp (List.mem_of_getLast? hs)
    obtain ⟨n, hn, rfl⟩ := (h.mem_foundBetween hlast hfrom s).mp hin
    exact ⟨n, hn, rfl, hp⟩
  · have hin := (h.mem_foundBetween hlast hfrom (story n).1).mpr ⟨n, hn, rfl⟩
    obtain ⟨last, heq, hafter⟩ := getLast?_filter (foundBetween_ascending board x fromSeq _) p hin hp
    refine ⟨last, heq, ?_⟩
    have hseq := h.seq_story hlast hn.2.1
    rcases hafter with rfl | hlt
    · exact hseq.ge
    · exact (hseq.symm.trans_lt hlt).le

/-! A scan up to the latest snapshot. -/

theorem seq_latest (h : Session board x story) (hlast : board.lastSeq x ≠ NO_SEQ) :
    (story (board.lastSeq x).val).1.seq = board.lastSeq x := Fin.ext (h.seq_story hlast le_rfl)

theorem scan_lastEmoteStop (h : Session board x story) (hlast : board.lastSeq x ≠ NO_SEQ)
    (hfrom : fromSeq.val ≤ (board.lastSeq x).val) :
    LastFound board x fromSeq story PeerSnapshot.isStop
      (scanIntermediateEvents board x fromSeq (story (board.lastSeq x).val).1).lastEmoteStop := by
  have hof := ScanState.of_foldl (foundBetween board x fromSeq (board.lastSeq x))
  have hfound := h.lastFound hlast hfrom PeerSnapshot.isStop
  rw [← hof.stop] at hfound
  simp only [scanIntermediateEvents, h.seq_latest hlast, scanFold_eq]
  exact hfound

/-- An emote start that a scan finds is of a running emote. -/
theorem scan_lastEmoteStart (h : Session board x story) (hlast : board.lastSeq x ≠ NO_SEQ)
    (hfrom : fromSeq.val ≤ (board.lastSeq x).val) {s : PeerSnapshot}
    (hs : s ∈ (scanIntermediateEvents board x fromSeq
      (story (board.lastSeq x).val).1).lastEmoteStart) : s.isEmoting = true ∧
    (s = (story (board.lastSeq x).val).1 ∨ ∃ n, Readable board x fromSeq n ∧ s = (story n).1) := by
  have hof := ScanState.of_foldl (foundBetween board x fromSeq (board.lastSeq x))
  have hin : ∀ r, r ∈ foundBetween board x fromSeq (board.lastSeq x) ∧ r.isEmoting = true →
      r.isEmoting = true ∧ (r = (story (board.lastSeq x).val).1 ∨
        ∃ n, Readable board x fromSeq n ∧ r = (story n).1) := fun r hr =>
    ⟨hr.2, Or.inr ((h.mem_foundBetween hlast hfrom r).mp hr.1)⟩
  simp only [scanIntermediateEvents, h.seq_latest hlast, scanFold_eq] at hs
  rcases Option.or_eq_some_iff.mp hs with hs | ⟨-, hs⟩
  · exact hin s (hof.start s (Or.inl hs))
  · rcases Option.or_eq_some_iff.mp hs with hs | ⟨-, hs⟩
    · exact hin s (hof.start s (Or.inr hs))
    · split at hs
      · rename_i hrunning
        obtain rfl := Option.some.inj hs
        cases hemote : (story (board.lastSeq x).val).1.emote with
        | none => simp [hemote] at hrunning
        | some e =>
          rw [hemote, Option.any_some, Bool.and_eq_true] at hrunning
          exact ⟨isEmoting_iff.mpr ⟨e, hemote, hrunning.1⟩, Or.inl rfl⟩
      · cases hs

/-- While no emote runs, whatever start is found has a stop found after it. -/
theorem start_not_effective (h : Session board x story) (hlast : board.lastSeq x ≠ NO_SEQ)
    (hfrom : fromSeq.val ≤ (board.lastSeq x).val)
    (hidle : (story (board.lastSeq x).val).1.isEmoting = false) :
    ObserverCtx.emoteStartIsEffective (scanIntermediateEvents board x fromSeq
      (story (board.lastSeq x).val).1) = false := by
  have hstop := h.scan_lastEmoteStop hlast hfrom
  have hstart := fun s => h.scan_lastEmoteStart hlast hfrom (s := s)
  generalize scanIntermediateEvents board x fromSeq (story (board.lastSeq x).val).1 = scan
    at hstop hstart ⊢
  unfold ObserverCtx.emoteStartIsEffective
  split
  · rfl
  · rename_i start hfound
    obtain ⟨hrun, rfl | ⟨n, hn, rfl⟩⟩ := hstart start hfound
    · rw [hidle] at hrun
      cases hrun
    · obtain ⟨k, hnk, hk, hstopped⟩ := h.stop_between hlast hn.2.1 le_rfl hrun hidle
      obtain ⟨s, hs, hks⟩ := hstop.last k (hn.later hnk.le hk) hstopped
      have hseq := h.seq_story hlast hn.2.1
      rw [show scan.lastEmoteStop = some s from hs, Option.elim_some, decide_eq_false_iff_not,
        Fin.lt_def, hseq]
      omega

/-- The teleport that a scan finds is behind every flag after `fromSeq`, and stands for one. -/
structure LastTeleport (board : SnapshotBoard) (x fromSeq : U32) (story : Story)
    (tp : PeerSnapshot) (n : ℕ) : Prop where
  readable : Readable board x fromSeq n
  entry : tp = (story n).1
  flag : fromSeq.val < tp.lastTeleportSeq.val ∧ tp.lastTeleportSeq.val ≤ n ∧
    (story tp.lastTeleportSeq.val).1.isTeleport = true
  last : ∀ k ≤ (board.lastSeq x).val, (story k).1.isTeleport = true → k ≤ n

theorem scan_lastTeleport (h : Session board x story) (hlast : board.lastSeq x ≠ NO_SEQ)
    (hfrom : fromSeq.val ≤ (board.lastSeq x).val) :
    (∀ tp ∈ (scanIntermediateEvents board x fromSeq (story (board.lastSeq x).val).1).lastTeleport,
      ∃ n, LastTeleport board x fromSeq story tp n) ∧
    ((scanIntermediateEvents board x fromSeq (story (board.lastSeq x).val).1).lastTeleport = none →
      ∀ k ≤ (board.lastSeq x).val, (story k).1.isTeleport = true → k ≤ fromSeq.val) := by
  have hof := ScanState.of_foldl (foundBetween board x fromSeq (board.lastSeq x))
  have hfound := h.lastFound hlast hfrom PeerSnapshot.isTeleport
  rw [← hof.teleport] at hfound
  simp only [scanIntermediateEvents, h.seq_latest hlast, scanFold_eq]
  unfold foundBetween at hfound
  generalize (((seqsBetween fromSeq (board.lastSeq x)).filterMap (board.tryReadSeq x)).foldl
    ScanState.step ⟨none, none, none, none⟩).lastTeleport = o at hfound ⊢
  obtain ⟨hbound, hset⟩ := h.lastTeleportSeq_spec hlast (n := (board.lastSeq x).val) le_rfl
  refine ⟨fun tp htp => ?_, fun hnone k hk hflag => ?_⟩
  · rcases Option.or_eq_some_iff.mp htp with hone | ⟨-, hlatest⟩
    · -- found in the ring
      obtain ⟨n, hn, rfl, hflag⟩ := hfound.found tp hone
      have hown := (h.lastTeleportSeq_spec hlast hn.2.1).1 n le_rfl hflag
      have hseq : (story n).1.lastTeleportSeq.val = n := by
        have heq := (h.entries hlast n hn.2.1).lastTeleportSeq
        rw [if_pos hflag] at heq
        rw [heq, h.seq_story hlast hn.2.1]
      refine ⟨n, hn, rfl, ?_, fun k hk hkflag => ?_⟩
      · rw [hseq]
        exact ⟨hn.1, le_rfl, hflag⟩
      · rcases Nat.lt_or_ge n k with hnk | hkn
        · obtain ⟨s, hs, hks⟩ := hfound.last k (hn.later hnk.le hk) hkflag
          obtain rfl := Option.some.inj (hone.symm.trans hs)
          rwa [h.seq_story hlast hn.2.1] at hks
        · exact hkn
    · -- no longer in the ring: the latest snapshot stands for it
      split at hlatest
      · rename_i hafter
        obtain rfl := Option.some.inj hlatest
        have hafter' := Fin.lt_def.mp hafter
        obtain ⟨hle, hflag⟩ := hset (by omega)
        have hcapacity := h.capacity
        exact ⟨_, ⟨by omega, le_rfl, by omega⟩, rfl, ⟨hafter', hle, hflag⟩, fun k hk _ => hk⟩
      · cases hlatest
  · obtain ⟨-, hlatest⟩ := Option.or_eq_none_iff.mp hnone
    split at hlatest
    · cases hlatest
    · rename_i hafter
      have hk' := hbound k hk hflag
      have hafter' := not_lt.mp hafter
      exact hk'.trans hafter'

end Session

end Catalyrst.Pulse
