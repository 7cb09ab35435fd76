import Catalyrst.Lib.Ring
import Catalyrst.Pulse.Caches

/-!
# A sequence names one snapshot

A slot numbers its snapshots from 0 on, until it is cleared. What its ring still holds
is part of the history of the slot, and so is what an observer was sent, unless its view
is outdated. The history is lost when the slot is cleared, and the numbers start again:
a view that survives and is taken for a new one is of another history.
-/

namespace Catalyrst.Pulse
open Catalyrst.Lib

namespace SnapshotBoard

theorem slot_eq_read (board : SnapshotBoard) {p : PeerRing} (h : p.ring.length = board.ringCapacity)
    (seq : U32) : board.slot p seq = Ring.read PeerSnapshot.default p.ring seq.val := by
  rw [slot, Ring.read, h]

/-- Every ring holds the end of its slot's history. -/
structure Recorded (board : SnapshotBoard) (history : U32 → ℕ → PeerSnapshot) : Prop where
  length : ∀ x, (board.ring x).ring.length = board.ringCapacity
  fresh : ∀ x, board.lastSeq x = NO_SEQ →
    (board.ring x).ring = List.replicate board.ringCapacity PeerSnapshot.default
  holds : ∀ x, board.lastSeq x ≠ NO_SEQ → Ring.Holds (fun s : PeerSnapshot => s.seq.val)
    PeerSnapshot.default (board.ring x).ring (history x) (board.lastSeq x).val

/-- A snapshot in the history of its slot. -/
def Known (board : SnapshotBoard) (history : U32 → ℕ → PeerSnapshot) (x : U32) (s : PeerSnapshot) :
    Prop :=
  board.lastSeq x ≠ NO_SEQ ∧ s.seq.val ≤ (board.lastSeq x).val ∧ s = history x s.seq.val

variable {board : SnapshotBoard} {history : U32 → ℕ → PeerSnapshot}

theorem recorded_new (capacity : ℕ) (history : U32 → ℕ → PeerSnapshot) :
    (new capacity).Recorded history := by
  have hring : ∀ x, (new capacity).ring x = PeerRing.new capacity := fun x => by simp [new, ring]
  refine ⟨fun x => ?_, fun x _ => by rw [hring]; rfl, fun x hx => ?_⟩
  · rw [hring]
    exact List.length_replicate
  · rw [lastSeq, hring] at hx
    exact absurd rfl hx

theorem Recorded.chronicle (h : board.Recorded history) : Chronicle board (board.Known history) := by
  refine ⟨fun x s hs => ?_, fun x seq s hs => ?_, fun x s s' hs hs' heq => ?_⟩
  · unfold tryRead at hs
    dsimp only at hs
    split at hs
    · cases hs
    · rename_i hread
      simp only [Bool.or_eq_true, decide_eq_true_eq, not_or] at hread
      have hlatest := (h.holds x hread.2).latest
      rw [← slot_eq_read board (h.length x)] at hlatest
      rw [← Option.some.inj hs]
      exact ⟨hread.2, hlatest.2, hlatest.1⟩
  · unfold tryReadSeq at hs
    dsimp only at hs
    split at hs
    · cases hs
    · rename_i hread
      simp only [Bool.or_eq_true, decide_eq_true_eq, not_or] at hread
      split at hs
      · rename_i hseq
        rw [slot_eq_read board (h.length x)] at hs hseq
        obtain ⟨heq, hle⟩ := (h.holds x hread.2).found seq.val (congrArg Fin.val hseq)
        rw [← Option.some.inj hs]
        refine ⟨hread.2, ?_, ?_⟩
        · rw [hseq]
          exact hle
        · rw [hseq]
          exact heq
      · cases hs
  · rw [hs.2.2, hs'.2.2, heq]

theorem seq_of_tryReadSeq {x seq : U32} {s : PeerSnapshot} (h : board.tryReadSeq x seq = some s) :
    s.seq = seq := by
  unfold tryReadSeq at h
  dsimp only at h
  split at h
  · cases h
  · split at h
    · rename_i hseq
      rw [← Option.some.inj h]
      exact hseq
    · cases h

theorem last_of_tryRead {x : U32} {s : PeerSnapshot} (hs : board.tryRead x = some s) :
    board.last x = some s := by
  unfold tryRead at hs
  unfold last
  dsimp only at hs ⊢
  split at hs
  · cases hs
  · rename_i hread
    rw [Bool.or_eq_true, not_or, decide_eq_true_eq] at hread
    rw [if_neg hread.2]
    exact hs

/-- The latest snapshot has the last sequence. -/
theorem Recorded.seq_of_tryRead (h : board.Recorded history) (hpos : 0 < board.ringCapacity)
    {x : U32} {s : PeerSnapshot} (hs : board.tryRead x = some s) : s.seq = board.lastSeq x := by
  unfold tryRead at hs
  dsimp only at hs
  split at hs
  · cases hs
  · rename_i hread
    simp only [Bool.or_eq_true, decide_eq_true_eq, not_or] at hread
    have hnewest := (h.holds x hread.2).newest (by rwa [h.length])
    rw [← slot_eq_read board (h.length x)] at hnewest
    rw [← Option.some.inj hs]
    exact Fin.ext hnewest

/-! ### Growth of the histories -/

/-- Whatever the histories were, they go on. -/
def Grows (board board' : SnapshotBoard) : Prop :=
  ∀ history, board.Recorded history → ∃ history', board'.Recorded history' ∧
    ∀ x s, board.Known history x s → board'.Known history' x s

theorem Grows.refl (board : SnapshotBoard) : Grows board board :=
  fun history h => ⟨history, h, fun _ _ hs => hs⟩

theorem Grows.trans {b₁ b₂ b₃ : SnapshotBoard} (h : Grows b₁ b₂) (h' : Grows b₂ b₃) :
    Grows b₁ b₃ := by
  intro history hrec
  obtain ⟨history', hrec', hknown⟩ := h history hrec
  obtain ⟨history'', hrec'', hknown'⟩ := h' history' hrec'
  exact ⟨history'', hrec'', fun x s hs => hknown' x s (hknown x s hs)⟩

theorem ring_setActive (board : SnapshotBoard) (id x : U32) :
    (board.setActive id).ring x =
      if id = x then { board.ring x with active := true } else board.ring x := by
  simp only [setActive, ring, OrdMap.find_insert]
  split
  · rename_i h
    rw [h]
    rfl
  · rfl

theorem grows_setActive (board : SnapshotBoard) (id : U32) : Grows board (board.setActive id) := by
  have hring : ∀ x, ((board.setActive id).ring x).ring = (board.ring x).ring ∧
      (board.setActive id).lastSeq x = board.lastSeq x := by
    intro x
    rw [lastSeq, ring_setActive]
    split <;> exact ⟨rfl, rfl⟩
  intro history h
  refine ⟨history, ⟨fun x => ?_, fun x hx => ?_, fun x hx => ?_⟩, fun x s hs => ?_⟩
  · rw [(hring x).1]
    exact h.length x
  · rw [(hring x).2] at hx
    rw [(hring x).1]
    exact h.fresh x hx
  · rw [(hring x).2] at hx ⊢
    rw [(hring x).1]
    exact h.holds x hx
  · unfold Known
    rw [(hring x).2]
    exact hs

theorem ringCapacity_setParcel (board : SnapshotBoard) (id : U32) (parcel : ℤ) :
    (board.setParcel id parcel).ringCapacity = board.ringCapacity := by
  unfold setParcel clearParcel
  split
  · rfl
  · dsimp only
    split <;> rfl

theorem ringCapacity_publish (board : SnapshotBoard) (id : U32) (snapshot : PeerSnapshot) :
    (board.publish id snapshot).ringCapacity = board.ringCapacity :=
  ringCapacity_setParcel _ _ _

theorem ring_publish (board : SnapshotBoard) (id x : U32) (snapshot : PeerSnapshot) :
    (board.publish id snapshot).ring x = if id = x then
      { board.ring x with
        lastSeq := snapshot.seq
        ring := (board.ring x).ring.set (snapshot.seq.val % board.ringCapacity)
          (board.inherited id snapshot) }
      else board.ring x := by
  rw [publish, ring_setParcel]
  simp only [ring, OrdMap.find_insert]
  split
  · rename_i h
    rw [h]
    rfl
  · rfl

theorem lastSeq_publish (board : SnapshotBoard) (id x : U32) (snapshot : PeerSnapshot) :
    (board.publish id snapshot).lastSeq x = if id = x then snapshot.seq else board.lastSeq x := by
  rw [lastSeq, ring_publish]
  split <;> rfl

theorem val_succ_of_ne {seq : U32} (h : seq ≠ NO_SEQ) : (seq + 1).val = seq.val + 1 := by
  have hadd : (seq + 1).val = (seq.val + 1) % 4294967296 := Fin.val_add seq 1
  have hlt : seq.val < 4294967296 := seq.isLt
  have hne : seq.val ≠ 4294967295 := fun heq => h (Fin.ext heq)
  omega

theorem mem_seqsBetween {fromSeq toSeq seq : U32} (hne : fromSeq ≠ NO_SEQ) :
    seq ∈ seqsBetween fromSeq toSeq ↔ fromSeq.val < seq.val ∧ seq.val ≤ toSeq.val := by
  have hto : toSeq.val < 4294967296 := toSeq.isLt
  unfold seqsBetween
  rw [val_succ_of_ne hne]
  simp only [List.mem_map, List.mem_range'_1]
  constructor
  · rintro ⟨n, hn, rfl⟩
    rw [Fin.val_ofNat, Nat.mod_eq_of_lt (by omega)]
    omega
  · intro h
    exact ⟨seq.val, by omega, Fin.ext (Nat.mod_eq_of_lt seq.isLt)⟩

/-- The history of one slot, after one more snapshot. -/
theorem Recorded.publish_history (h : board.Recorded history) {id : U32} {snapshot : PeerSnapshot}
    (hseq : snapshot.seq = board.lastSeq id + 1) :
    ∃ history', (board.lastSeq id ≠ NO_SEQ → ∀ n ≤ (board.lastSeq id).val, history' n = history id n) ∧
      Ring.Holds (fun s : PeerSnapshot => s.seq.val) PeerSnapshot.default
        ((board.publish id snapshot).ring id).ring history' snapshot.seq.val := by
  have hring : ((board.publish id snapshot).ring id).ring = Ring.write
      (fun s : PeerSnapshot => s.seq.val) (board.ring id).ring (board.inherited id snapshot) := by
    rw [ring_publish, if_pos rfl, Ring.write, h.length]
    rfl
  rw [hring]
  by_cases hlast : board.lastSeq id = NO_SEQ
  · have hzero : snapshot.seq.val = 0 := by
      rw [hseq, hlast]
      rfl
    obtain ⟨history', hholds⟩ := Ring.Holds.first (fun s : PeerSnapshot => s.seq.val)
      PeerSnapshot.default rfl board.ringCapacity (a := board.inherited id snapshot) hzero
    rw [h.fresh id hlast, hzero]
    exact ⟨history', fun hne => absurd hlast hne, hholds⟩
  · have hsucc : snapshot.seq.val = (board.lastSeq id).val + 1 := by
      rw [hseq, val_succ_of_ne hlast]
    obtain ⟨history', hagree, hholds⟩ := (h.holds id hlast).next rfl
      (a := board.inherited id snapshot) hsucc
    rw [hsucc]
    exact ⟨history', fun _ => hagree, hholds⟩

theorem grows_publish {board : SnapshotBoard} {id : U32} {snapshot : PeerSnapshot}
    (hseq : snapshot.seq = board.lastSeq id + 1) (hroom : board.lastSeq id ≠ NO_SEQ - 1) :
    Grows board (board.publish id snapshot) := by
  have hnew : snapshot.seq ≠ NO_SEQ := by
    intro heq
    exact hroom (eq_sub_iff_add_eq.mpr (hseq ▸ heq))
  intro history h
  obtain ⟨own, hagree, hholds⟩ := h.publish_history hseq
  refine ⟨Function.update history id own, ⟨fun x => ?_, fun x hx => ?_, fun x hx => ?_⟩,
    fun x s hs => ?_⟩
  · rw [ring_publish, ringCapacity_publish]
    split
    · rw [List.length_set]
      exact h.length x
    · exact h.length x
  · rw [lastSeq_publish] at hx
    rw [ring_publish, ringCapacity_publish]
    split at hx
    · exact absurd hx hnew
    · rename_i hne
      rw [if_neg hne]
      exact h.fresh x hx
  · rw [lastSeq_publish] at hx ⊢
    by_cases hid : id = x
    · subst hid
      rw [if_pos rfl, Function.update_self]
      exact hholds
    · rw [if_neg hid] at hx ⊢
      rw [ring_publish, if_neg hid, Function.update_of_ne (Ne.symm hid)]
      exact h.holds x hx
  · obtain ⟨hlast, hle, heq⟩ := hs
    unfold Known
    rw [lastSeq_publish]
    by_cases hid : id = x
    · subst hid
      rw [if_pos rfl, Function.update_self, hagree hlast _ hle]
      refine ⟨hnew, ?_, heq⟩
      rw [hseq, val_succ_of_ne hlast]
      omega
    · rw [if_neg hid, Function.update_of_ne (Ne.symm hid)]
      exact ⟨hlast, hle, heq⟩

theorem ring_clearActive (board : SnapshotBoard) (id x : U32) :
    (board.clearActive id).ring x =
      if id = x then PeerRing.new board.ringCapacity else board.ring x := by
  rw [clearActive, ring_clearParcel]
  simp only [ring, OrdMap.find_insert]
  split <;> rfl

theorem lastSeq_clearActive (board : SnapshotBoard) (id x : U32) :
    (board.clearActive id).lastSeq x = if id = x then NO_SEQ else board.lastSeq x := by
  rw [lastSeq, ring_clearActive]
  split <;> rfl

theorem ringCapacity_clearActive (board : SnapshotBoard) (id : U32) :
    (board.clearActive id).ringCapacity = board.ringCapacity := by
  unfold clearActive clearParcel
  dsimp only
  split <;> rfl

/-- The history of a cleared slot is lost, the others are as they were. -/
theorem Recorded.clear (h : board.Recorded history) (id : U32) :
    (board.clearActive id).Recorded history := by
  refine ⟨fun x => ?_, fun x hx => ?_, fun x hx => ?_⟩
  · rw [ring_clearActive, ringCapacity_clearActive]
    split
    · exact List.length_replicate
    · exact h.length x
  · rw [lastSeq_clearActive] at hx
    rw [ring_clearActive, ringCapacity_clearActive]
    split
    · rfl
    · rename_i hne
      rw [if_neg hne] at hx
      exact h.fresh x hx
  · rw [lastSeq_clearActive] at hx ⊢
    split at hx
    · exact absurd rfl hx
    · rename_i hne
      rw [if_neg hne, ring_clearActive, if_neg hne]
      exact h.holds x hx

theorem known_clear {id x : U32} {s : PeerSnapshot} (hne : id ≠ x) (h : board.Known history x s) :
    (board.clearActive id).Known history x s := by
  unfold Known
  rw [lastSeq_clearActive, if_neg hne]
  exact h

end SnapshotBoard

/-! ### What a packet does to the board -/

/-- Nothing, or one more snapshot of the peer. -/
def Published (board board' : SnapshotBoard) (peer : U32) : Prop :=
  board' = board ∨ ∃ snapshot : PeerSnapshot, snapshot.seq = board.lastSeq peer + 1 ∧
    board' = board.publish peer snapshot

theorem Published.grows {board board' : SnapshotBoard} {peer : U32} (h : Published board board' peer)
    (hroom : board.lastSeq peer ≠ NO_SEQ - 1) : SnapshotBoard.Grows board board' := by
  rcases h with rfl | ⟨snapshot, hseq, rfl⟩
  · exact SnapshotBoard.Grows.refl board'
  · exact SnapshotBoard.grows_publish hseq hroom

theorem publishEmoteStop_published (board : SnapshotBoard) (peer now : U32) :
    Published board (publishEmoteStop board peer now) peer := by
  unfold publishEmoteStop
  split
  · exact Or.inl rfl
  · split
    · exact Or.inl rfl
    · exact Or.inr ⟨_, rfl, rfl⟩

namespace PulseServer

theorem playGameplay_published (server : PulseServer) (peer now : U32) (msg : ClientMessage) :
    Published server.board (server.playGameplay peer now msg).2.board peer := by
  cases msg with
  | handshake req => exact Or.inl rfl
  | sceneListenerHandshake req => exact Or.inl rfl
  | input state =>
    cases state with
    | none => exact Or.inl rfl
    | some state =>
      unfold playGameplay
      dsimp only
      split
      · exact Or.inl rfl
      · exact Or.inr ⟨_, rfl, rfl⟩
  | teleport t =>
    unfold playGameplay
    dsimp only
    split
    · exact Or.inl rfl
    · exact Or.inr ⟨_, rfl, rfl⟩
  | emoteStart e =>
    unfold playGameplay
    dsimp only
    split
    · exact Or.inl rfl
    · split
      · exact Or.inl rfl
      · split
        · exact Or.inl rfl
        · exact Or.inr ⟨_, rfl, rfl⟩
  | emoteStop => exact publishEmoteStop_published server.board peer now
  | profileAnnouncement version =>
    unfold playGameplay
    dsimp only
    split <;> exact Or.inl rfl
  | resync subjectId knownSeq => exact Or.inl rfl

theorem applyGameplay_published (server : PulseServer) (peer now : U32) (msg : ClientMessage) :
    Published server.board (server.applyGameplay peer now msg).2.board peer := by
  have hboard : (server.acceptGameplay peer now msg).2.board = server.board := by
    cases msg <;> rfl
  unfold applyGameplay
  dsimp only
  split
  · rw [← hboard]
    exact playGameplay_published _ peer now msg
  · exact Or.inl hboard

theorem verifyAndAdmit_board (env : Env) (server : PulseServer) (peer : U32) (authChain : Bytes)
    (now : U32) (nowMs : ℤ) :
    (verifyAndAdmit env server peer authChain now nowMs).2.board = server.board := by
  unfold verifyAndAdmit
  split
  · rfl
  · split
    · rfl
    · dsimp only
      split
      · rfl
      · split
        · rfl
        · split <;> rfl

theorem Handshaken.board {env : Env} {server : PulseServer} {peer now : U32} {authChain : Bytes}
    {nowMs : ℤ} {initialState : Option PlayerInitialState} {r : Action × PulseServer}
    (h : Handshaken peer initialState (verifyAndAdmit env server peer authChain now nowMs) r) :
    r.2.board = server.board := by
  have hboard := verifyAndAdmit_board env server peer authChain now nowMs
  generalize verifyAndAdmit env server peer authChain now nowMs = v at h hboard
  cases h <;> exact hboard

theorem handleHandshake_board (env : Env) (server : PulseServer) (peer : U32)
    (req : HandshakeRequest) (nowMs : ℤ) (now : U32) :
    (handleHandshake env server peer req nowMs now).2.board = server.board := by
  rcases handleHandshake_cases env server peer req nowMs now with ⟨-, heq⟩ | ⟨-, hr⟩
  · rw [heq]
  · exact hr.board

theorem handleSceneListenerHandshake_board (env : Env) (server : PulseServer) (peer : U32)
    (req : SceneListenerHandshakeRequest) (nowMs : ℤ) (now : U32) :
    (handleSceneListenerHandshake env server peer req nowMs now).2.board = server.board := by
  rcases handleSceneListenerHandshake_cases env server peer req nowMs now with
    ⟨-, heq⟩ | ⟨-, -, hr⟩
  · rw [heq]
  · exact hr.board

theorem corrupt_board (server : PulseServer) (peer now : U32) :
    (server.corrupt peer now).board = server.board := by
  unfold corrupt
  dsimp only
  split
  · exact (releasePreAuth_fields _ peer).2.2.2
  · rfl

/-- Only gameplay publishes, and gameplay admits nobody. -/
theorem dispatch_published (env : Env) (server : PulseServer) (peer : U32)
    (decoded : Option (Option ClientMessage)) (nowMs : ℤ) (now : U32) :
    Published server.board (server.dispatch env peer decoded nowMs now).2.board peer ∧
    ((server.dispatch env peer decoded nowMs now).2.board = server.board ∨
      admits (server.dispatch env peer decoded nowMs now).1 = none) := by
  unfold dispatch
  split
  · exact ⟨Or.inl rfl, Or.inl rfl⟩
  · exact ⟨Or.inl rfl, Or.inl rfl⟩
  · split
    · exact ⟨applyGameplay_published server peer now _, Or.inr (admits_applyGameplay _ _ _ _)⟩
    · exact ⟨Or.inl rfl, Or.inl rfl⟩
    · have hboard := handleHandshake_board env server peer (by assumption) nowMs now
      exact ⟨Or.inl hboard, Or.inl hboard⟩
    · have hboard := handleSceneListenerHandshake_board env server peer (by assumption) nowMs now
      exact ⟨Or.inl hboard, Or.inl hboard⟩
    · split
      · exact ⟨applyGameplay_published server peer now _, Or.inr (admits_applyGameplay _ _ _ _)⟩
      · exact ⟨Or.inl rfl, Or.inl rfl⟩

end PulseServer

end Catalyrst.Pulse
