import Catalyrst.Lib.Machine
import Catalyrst.Pulse.Publishing

/-!
# Batched and plain deltas

Every code that the validation bounds fits the width it is packed in. The state
flags, the glide state and the jump count are not bounded by it, and are cut to
16, 2 and 16 bits.
-/

namespace Catalyrst.Pulse
open Catalyrst.Lib

/-! ### What a snapshot can hold -/

structure PeerSnapshot.InRange (s : PeerSnapshot) : Prop where
  parcel : 0 ≤ s.parcel ∧ s.parcel < 2 ^ PARCEL_INDEX_BITS
  positionX : codeFits Spec.POSITION_X s.positionX = true
  positionY : codeFits Spec.POSITION_Y s.positionY = true
  positionZ : codeFits Spec.POSITION_Z s.positionZ = true
  velocityX : codeFits Spec.VELOCITY_X s.velocityX = true
  velocityY : codeFits Spec.VELOCITY_Y s.velocityY = true
  velocityZ : codeFits Spec.VELOCITY_Z s.velocityZ = true
  rotationY : codeFits Spec.ROTATION_Y s.rotationY = true
  movementBlend : codeFits Spec.MOVEMENT_BLEND s.movementBlend = true
  slideBlend : codeFits Spec.SLIDE_BLEND s.slideBlend = true
  headYaw : optionalCodeFits Spec.HEAD_YAW s.headYaw = true
  headPitch : optionalCodeFits Spec.HEAD_PITCH s.headPitch = true
  pointAtX : optionalCodeFits Spec.POINT_AT_X s.pointAtX = true
  pointAtY : optionalCodeFits Spec.POINT_AT_Y s.pointAtY = true
  pointAtZ : optionalCodeFits Spec.POINT_AT_Z s.pointAtZ = true

theorem PeerSnapshot.default_inRange : PeerSnapshot.default.InRange := by
  constructor <;> decide

/-- Every snapshot on the board. -/
def SnapshotBoard.InRange (board : SnapshotBoard) : Prop :=
  ∀ x, ∀ s ∈ (board.ring x).ring, s.InRange

namespace SnapshotBoard

variable {board : SnapshotBoard}

theorem inRange_new (ringCapacity : ℕ) : (new ringCapacity).InRange := by
  intro x s hs
  have hmem : s ∈ List.replicate ringCapacity PeerSnapshot.default := by
    simpa [new, ring, PeerRing.new] using hs
  rw [List.eq_of_mem_replicate hmem]
  exact PeerSnapshot.default_inRange

theorem InRange.slot (h : board.InRange) (x seq : U32) : (board.slot (board.ring x) seq).InRange := by
  unfold SnapshotBoard.slot
  rw [List.getD_eq_getElem?_getD]
  cases hs : (board.ring x).ring[seq.val % board.ringCapacity]? with
  | none => exact PeerSnapshot.default_inRange
  | some s => exact h x s (List.mem_of_getElem? hs)

theorem InRange.tryRead (h : board.InRange) {x : U32} {s : PeerSnapshot}
    (hs : board.tryRead x = some s) : s.InRange := by
  unfold SnapshotBoard.tryRead at hs
  dsimp only at hs
  split at hs
  · cases hs
  · rw [← Option.some.inj hs]
    exact h.slot x _

theorem InRange.publish (h : board.InRange) (id : U32) {s : PeerSnapshot} (hs : s.InRange) :
    (board.publish id s).InRange := by
  intro x t ht
  rw [SnapshotBoard.publish, ring_setParcel] at ht
  simp only [ring, OrdMap.find_insert] at ht
  split at ht
  · rcases List.mem_or_eq_of_mem_set ht with hold | hnew
    · exact h id t hold
    · rw [hnew]
      exact ⟨hs.parcel, hs.positionX, hs.positionY, hs.positionZ, hs.velocityX, hs.velocityY,
        hs.velocityZ, hs.rotationY, hs.movementBlend, hs.slideBlend, hs.headYaw, hs.headPitch,
        hs.pointAtX, hs.pointAtY, hs.pointAtZ⟩
  · exact h x t ht

theorem InRange.setActive (h : board.InRange) (id : U32) : (board.setActive id).InRange := by
  intro x t ht
  simp only [SnapshotBoard.setActive, ring, OrdMap.find_insert] at ht
  split at ht
  · exact h id t ht
  · exact h x t ht

theorem InRange.clearActive (h : board.InRange) (id : U32) : (board.clearActive id).InRange := by
  intro x t ht
  rw [SnapshotBoard.clearActive, ring_clearParcel] at ht
  simp only [ring, OrdMap.find_insert] at ht
  split at ht
  · rw [List.eq_of_mem_replicate ht]
    exact PeerSnapshot.default_inRange
  · exact h x t ht

end SnapshotBoard

theorem optionalCodeFits_filter {bits : ℕ} {code : Option U32} (h : optionalCodeFits bits code = true)
    (keep : U32 → Bool) : optionalCodeFits bits (code.filter keep) = true := by
  cases code with
  | none => rfl
  | some v =>
    simp only [Option.filter]
    split
    · exact h
    · rfl

theorem codeFits_zero (bits : ℕ) : codeFits bits 0 = true := by simp [codeFits]

/-- A parcel that the encoder accepts is below 99534. -/
theorem parcel_inRange {index : ℤ} (htyped : IsI32 index)
    (hvalid : ParcelEncoder.default.isValidIndex index = true) :
    0 ≤ index ∧ index < 2 ^ PARCEL_INDEX_BITS := by
  have hmax : ParcelEncoder.default.maxIndexExclusive % 4294967296 = 99534 := by decide
  rw [ParcelEncoder.isValidIndex, decide_eq_true_eq, hmax] at hvalid
  obtain ⟨hlow, hhigh⟩ := htyped
  simp only [PARCEL_INDEX_BITS]
  omega

theorem SnapshotBoard.InRange.step {board board' : SnapshotBoard} (h : board.InRange)
    (hstep : BoardStep ParcelEncoder.default board board') : board'.InRange := by
  cases hstep with
  | clear x => exact h.clearActive x
  | activate x => exact h.setActive x
  | state peer now state emote typed valid =>
    simp only [Validate.playerState, PlayerState.areQuantizedFieldsInRange, Bool.and_eq_true,
      and_assoc] at valid
    obtain ⟨hparcel, hpx, hpy, hpz, hvx, hvy, hvz, hrot, hmove, hslide, hyaw, hpitch, hax, hay,
      haz⟩ := valid
    exact h.publish peer ⟨parcel_inRange typed.parcelIndex hparcel, hpx, hpy, hpz, hvx, hvy, hvz,
      hrot, hmove, hslide, hyaw, hpitch, optionalCodeFits_filter hax _,
      optionalCodeFits_filter hay _, optionalCodeFits_filter haz _⟩
  | teleport peer now t typed valid =>
    simp only [Validate.teleport, TeleportRequest.areQuantizedFieldsInRange, Bool.and_eq_true,
      and_assoc] at valid
    obtain ⟨_, hparcel, hpx, hpy, hpz⟩ := valid
    have hprev : ((board.tryRead peer).getD PeerSnapshot.default).InRange := by
      cases hread : board.tryRead peer with
      | none => exact PeerSnapshot.default_inRange
      | some s => exact h.tryRead hread
    exact h.publish peer ⟨parcel_inRange typed hparcel, hpx, hpy, hpz, codeFits_zero _,
      codeFits_zero _, codeFits_zero _, hprev.rotationY, codeFits_zero _, codeFits_zero _,
      hprev.headYaw, hprev.headPitch, hprev.pointAtX, hprev.pointAtY, hprev.pointAtZ⟩
  | emoteStop peer now =>
    unfold publishEmoteStop
    split
    · exact h
    · rename_i current hread
      split
      · exact h
      · have hs := h.tryRead hread
        exact h.publish peer ⟨hs.parcel, hs.positionX, hs.positionY, hs.positionZ, hs.velocityX,
          hs.velocityY, hs.velocityZ, hs.rotationY, hs.movementBlend, hs.slideBlend, hs.headYaw,
          hs.headPitch, hs.pointAtX, hs.pointAtY, hs.pointAtZ⟩

theorem SnapshotBoard.InRange.steps {board board' : SnapshotBoard} (h : board.InRange)
    (hsteps : BoardSteps ParcelEncoder.default board board') : board'.InRange := by
  induction hsteps with
  | refl => exact h
  | tail _ hstep ih => exact ih.step hstep

/-- A snapshot that some run of the server publishes. -/
def Produced (env : Env) (config : PulseConfig) (s : PeerSnapshot) : Prop :=
  ∃ events server x, Machine.run (fun s e => (step env s e).map Prod.snd) (PulseServer.new config)
      events = some server ∧ (∀ e ∈ events, e.Typed) ∧ s ∈ (server.board.ring x).ring

theorem Produced.inRange {env : Env} {config : PulseConfig} {s : PeerSnapshot}
    (h : Produced env config s) : s.InRange := by
  obtain ⟨events, server, x, hrun, htyped, hs⟩ := h
  have hinv := Machine.run_invariant_of_meets (fun s e => (step env s e).map Prod.snd)
    (P := fun s => s.encoder = ParcelEncoder.default ∧ s.board.InRange)
    (fun s e t hs htyped hstep => by
      obtain ⟨r, hr, rfl⟩ := Option.map_eq_some_iff.mp hstep
      have hpublishes := step_publishes htyped hr
      exact ⟨hpublishes.encoder.trans hs.1, hs.2.steps (hs.1 ▸ hpublishes.board)⟩)
    events (PulseServer.new config) server (Machine.meets_of_forall _ htyped _) hrun
    ⟨rfl, SnapshotBoard.inRange_new config.ringCapacity⟩
  exact hinv.2 x s hs

/-! ### One field -/

theorem wordOf_mod_of_codeFits {bits : ℕ} {v : U32} (h : codeFits bits v = true) :
    wordOf (v.val % 2 ^ bits) = v := by
  have hpos : 0 < 2 ^ bits := Nat.two_pow_pos bits
  rw [codeFits, decide_eq_true_eq] at h
  exact BatchSubject.wordOf_mod (by omega)

/-- A signed value that is packed in `bits` bits comes back if it is one of them. -/
theorem castI32_wordOf_castU32 {bits : ℕ} (hbits : bits ≤ 31) (v : ℤ) :
    castI32 (wordOf ((castU32 v).val % 2 ^ bits)) = v ↔ 0 ≤ v ∧ v < 2 ^ bits := by
  have hpow : 2 ^ bits ≤ 2 ^ 31 := Nat.pow_le_pow_right (by norm_num) hbits
  have hdvd : ((2 : ℤ) ^ bits) ∣ 4294967296 := by
    have h32 : (4294967296 : ℤ) = 2 ^ 32 := by norm_num
    rw [h32]
    exact pow_dvd_pow 2 (by omega)
  have hmod : (((castU32 v).val % 2 ^ bits : ℕ) : ℤ) = v % 2 ^ bits := by
    have hnonneg := Int.emod_nonneg v (b := 4294967296) (by norm_num)
    have hcast : ((castU32 v).val : ℤ) = v % 4294967296 := Int.toNat_of_nonneg hnonneg
    rw [Int.natCast_mod, hcast, Nat.cast_pow, Nat.cast_ofNat]
    exact Int.emod_emod_of_dvd v hdvd
  have hlt : (castU32 v).val % 2 ^ bits < 2 ^ bits := Nat.mod_lt _ (Nat.two_pow_pos bits)
  have hword : castI32 (wordOf ((castU32 v).val % 2 ^ bits)) = v % 2 ^ bits := by
    rw [← hmod]
    generalize (castU32 v).val % 2 ^ bits = n at hlt
    have hn : n % 4294967296 = n := Nat.mod_eq_of_lt (by omega)
    simp only [castI32, wordOf, hn]
    rw [if_pos (by omega)]
  rw [hword]
  constructor
  · intro heq
    have h0 := Int.emod_nonneg v (b := 2 ^ bits) (by positivity)
    have h1 := Int.emod_lt_of_pos v (b := 2 ^ bits) (by positivity)
    omega
  · rintro ⟨h0, h1⟩
    exact Int.emod_eq_of_lt h0 h1

theorem changed_eq_some {α : Type} [DecidableEq α] {a b v : α} (h : changed a b = some v) : v = b := by
  unfold changed at h
  split at h
  · exact (Option.some.inj h).symm
  · cases h

theorem changedTo_eq_some {α : Type} [DecidableEq α] {a b : Option α} {v : α}
    (h : changedTo a b = some v) : b = some v := by
  unfold changedTo at h
  split at h
  · exact h
  · cases h

/-- What the plain delta has, the batched one has too. -/
def Carries {α : Type} (plain batched : Option α) : Prop := ∀ v, plain = some v → batched = some v

theorem Carries.of_fits {plain : Option U32} {bits : ℕ}
    (h : ∀ v, plain = some v → codeFits bits v = true) :
    Carries plain (plain.map fun v => wordOf (v.val % 2 ^ bits)) := by
  intro v hv
  rw [hv, Option.map_some, wordOf_mod_of_codeFits (h v hv)]

theorem carries_signed_iff {plain : Option ℤ} {bits : ℕ} (hbits : bits ≤ 31) :
    Carries plain (((plain.map castU32).map fun v => wordOf (v.val % 2 ^ bits)).map castI32) ↔
      ∀ v, plain = some v → 0 ≤ v ∧ v < 2 ^ bits := by
  cases plain with
  | none => simp [Carries]
  | some v =>
    simp only [Carries, Option.map_some, Option.some.injEq, forall_eq']
    exact castI32_wordOf_castU32 hbits v

/-! ### The whole delta -/

/-- The batched delta has the subject, the sequence and every field of the plain one,
and the state flags of the target. -/
structure Agrees (plain batched : PlayerStateDeltaTier0) (stateFlags : U32) : Prop where
  subjectId : batched.subjectId = plain.subjectId
  newSeq : batched.newSeq = plain.newSeq
  stateFlags : batched.stateFlags = some stateFlags
  parcelIndex : Carries plain.parcelIndex batched.parcelIndex
  positionX : Carries plain.positionX batched.positionX
  positionY : Carries plain.positionY batched.positionY
  positionZ : Carries plain.positionZ batched.positionZ
  velocityX : Carries plain.velocityX batched.velocityX
  velocityY : Carries plain.velocityY batched.velocityY
  velocityZ : Carries plain.velocityZ batched.velocityZ
  rotationY : Carries plain.rotationY batched.rotationY
  movementBlend : Carries plain.movementBlend batched.movementBlend
  slideBlend : Carries plain.slideBlend batched.slideBlend
  headYaw : Carries plain.headYaw batched.headYaw
  headPitch : Carries plain.headPitch batched.headPitch
  glideState : Carries plain.glideState batched.glideState
  jumpCount : Carries plain.jumpCount batched.jumpCount
  pointAtX : Carries plain.pointAtX batched.pointAtX
  pointAtY : Carries plain.pointAtY batched.pointAtY
  pointAtZ : Carries plain.pointAtZ batched.pointAtZ

/-- The values that the validation does not bound fit their widths, where they are
sent. -/
def FitsBatch (baseline target : PeerSnapshot) : Prop :=
  target.animationFlags.val < 2 ^ STATE_FLAGS_BITS ∧
  (baseline.glideState ≠ target.glideState →
    0 ≤ target.glideState ∧ target.glideState < 2 ^ GLIDE_STATE_BITS) ∧
  (baseline.jumpCount ≠ target.jumpCount →
    0 ≤ target.jumpCount ∧ target.jumpCount < 2 ^ JUMP_COUNT_BITS)

theorem newSeq_onWire {s : BatchSubject} (hid : s.subjectId.val < 2 ^ SUBJECT_ID_BITS)
    {lastKnownSeq : U32 → U32} (hknown : lastKnownSeq s.subjectId = s.baselineSeq)
    (mode : SeqEncoding) : (s.onWire mode lastKnownSeq).newSeq = s.newSeq := by
  simp only [BatchSubject.onWire, BatchSubject.wordOf_mod hid, hknown]
  cases mode with
  | absolute => rfl
  | delta => rw [BatchSubject.seqOnWire_baseline]

section

variable {b t : PeerSnapshot} (ht : t.InRange) (subject : U32) (tier : Tier)

theorem changed_fits {bits : ℕ} {a c : U32} (hc : codeFits bits c = true) {v : U32}
    (hv : changed a c = some v) : codeFits bits v = true := by
  rw [changed_eq_some hv]
  exact hc

theorem changedTo_fits {bits : ℕ} {a c : Option U32} (hc : optionalCodeFits bits c = true) {v : U32}
    (hv : changedTo a c = some v) : codeFits bits v = true := by
  rw [changedTo_eq_some hv] at hc
  exact hc

theorem ite_fits {p : Prop} [Decidable p] {bits : ℕ} {f : Option U32}
    (h : ∀ v, f = some v → codeFits bits v = true) {v : U32}
    (hv : (if p then f else none) = some v) : codeFits bits v = true := by
  split at hv
  · exact h v hv
  · cases hv

include ht in
/-- The plain delta comes back from the wire if and only if the unbounded values fit. -/
theorem agrees_onWire_iff (hid : subject.val < 2 ^ SUBJECT_ID_BITS) (mode : SeqEncoding)
    {lastKnownSeq : U32 → U32} (hknown : lastKnownSeq subject = b.seq) (serverTick : U32) :
    Agrees (createDeltaMessage subject b t tier)
        (((BatchSubject.fromDelta (createDeltaMessage subject b t tier) t.animationFlags).onWire mode
          lastKnownSeq).toDelta serverTick) t.animationFlags ↔ FitsBatch b t := by
  generalize hplain : createDeltaMessage subject b t tier = plain
  have hglide : plain.glideState = changed b.glideState t.glideState := by rw [← hplain]; rfl
  have hjump : plain.jumpCount = changed b.jumpCount t.jumpCount := by rw [← hplain]; rfl
  have hflags : wordOf (t.animationFlags.val % 2 ^ STATE_FLAGS_BITS) = t.animationFlags ↔
      t.animationFlags.val < 2 ^ STATE_FLAGS_BITS := by
    have hlt : t.animationFlags.val % 2 ^ STATE_FLAGS_BITS < 2 ^ STATE_FLAGS_BITS :=
      Nat.mod_lt _ (Nat.two_pow_pos _)
    constructor
    · intro heq
      have hval := congrArg Fin.val heq
      simp only [wordOf, STATE_FLAGS_BITS] at hval hlt ⊢
      omega
    · intro hsmall
      rw [BatchSubject.wordOf_mod hsmall]
  have hchanged : ∀ {a c : ℤ} {bits : ℕ}, (∀ v, changed a c = some v → 0 ≤ v ∧ v < 2 ^ bits) ↔
      (a ≠ c → 0 ≤ c ∧ c < 2 ^ bits) := by
    intro a c bits
    unfold changed
    split
    · rename_i hne
      simp [hne]
    · rename_i heq
      simp [not_not.mp heq]
  constructor
  · intro h
    refine ⟨hflags.mp (Option.some.inj h.stateFlags), ?_, ?_⟩
    · have hc := (carries_signed_iff (by decide : GLIDE_STATE_BITS ≤ 31)).mp h.glideState
      rw [hglide] at hc
      exact hchanged.mp hc
    · have hc := (carries_signed_iff (by decide : JUMP_COUNT_BITS ≤ 31)).mp h.jumpCount
      rw [hjump] at hc
      exact hchanged.mp hc
  · rintro ⟨hsmall, hfitGlide, hfitJump⟩
    have hparcel : ∀ v, plain.parcelIndex = some v → 0 ≤ v ∧ v < 2 ^ PARCEL_INDEX_BITS := by
      intro v hv
      rw [← hplain] at hv
      rw [changed_eq_some hv]
      exact ht.parcel
    refine ⟨?_, ?_, congrArg some (hflags.mpr hsmall),
      (carries_signed_iff (by decide : PARCEL_INDEX_BITS ≤ 31)).mpr hparcel,
      Carries.of_fits ?_, Carries.of_fits ?_, Carries.of_fits ?_, Carries.of_fits ?_,
      Carries.of_fits ?_, Carries.of_fits ?_, Carries.of_fits ?_, Carries.of_fits ?_,
      Carries.of_fits ?_, Carries.of_fits ?_, Carries.of_fits ?_,
      (carries_signed_iff (by decide : GLIDE_STATE_BITS ≤ 31)).mpr ?_,
      (carries_signed_iff (by decide : JUMP_COUNT_BITS ≤ 31)).mpr ?_,
      Carries.of_fits ?_, Carries.of_fits ?_, Carries.of_fits ?_⟩
    · have hsubject : plain.subjectId = subject := by rw [← hplain]; rfl
      change wordOf (plain.subjectId.val % 2 ^ SUBJECT_ID_BITS) = plain.subjectId
      rw [hsubject, BatchSubject.wordOf_mod hid]
    · refine newSeq_onWire ?_ ?_ mode
      · rw [← hplain]
        exact hid
      · rw [← hplain]
        exact hknown
    · exact fun v hv => changed_fits ht.positionX (hplain ▸ hv)
    · exact fun v hv => changed_fits ht.positionY (hplain ▸ hv)
    · exact fun v hv => changed_fits ht.positionZ (hplain ▸ hv)
    · exact fun v hv => ite_fits (fun _ => changed_fits ht.velocityX) (hplain ▸ hv)
    · exact fun v hv => ite_fits (fun _ => changed_fits ht.velocityY) (hplain ▸ hv)
    · exact fun v hv => ite_fits (fun _ => changed_fits ht.velocityZ) (hplain ▸ hv)
    · exact fun v hv => changed_fits ht.rotationY (hplain ▸ hv)
    · exact fun v hv => ite_fits (fun _ => changed_fits ht.movementBlend) (hplain ▸ hv)
    · exact fun v hv => ite_fits (fun _ => changed_fits ht.slideBlend) (hplain ▸ hv)
    · exact fun v hv => ite_fits (fun _ => changedTo_fits ht.headYaw) (hplain ▸ hv)
    · exact fun v hv => ite_fits (fun _ => changedTo_fits ht.headPitch) (hplain ▸ hv)
    · rw [hglide]
      exact hchanged.mpr hfitGlide
    · rw [hjump]
      exact hchanged.mpr hfitJump
    · exact fun v hv => changedTo_fits ht.pointAtX (hplain ▸ hv)
    · exact fun v hv => changedTo_fits ht.pointAtY (hplain ▸ hv)
    · exact fun v hv => changedTo_fits ht.pointAtZ (hplain ▸ hv)

end

/-- The delta between two published snapshots, batched together with any others, comes
back with the subject, the sequence, the fields and the flags of the plain one if and
only if the target's flags fit 16 bits and its glide state and jump count, where they
changed, fit 2 and 16. -/
theorem batched_delta_agrees_iff (env : Env) (config : PulseConfig) (b t : PeerSnapshot)
    (ht : Produced env config t) (subject : U32) (hsubject : subject.val < DEFAULT_MAX_PEERS)
    (tier : Tier) (mode : SeqEncoding)
    (lastKnownSeq : U32 → U32) (hknown : lastKnownSeq subject = b.seq)
    (subjects : List BatchSubject) (i : ℕ)
    (hi : subjects[i]? =
      some (BatchSubject.fromDelta (createDeltaMessage subject b t tier) t.animationFlags))
    (serverTick : U32) :
    ∃ decoded d, decodeBatches lastKnownSeq
        (encodeBatches serverTick subjects MAX_BATCH_BYTES mode) = some decoded ∧
      decoded[i]? = some d ∧
      (Agrees (createDeltaMessage subject b t tier) (d.toDelta serverTick) t.animationFlags ↔
        FitsBatch b t) := by
  have hid : subject.val < 2 ^ SUBJECT_ID_BITS := by
    simp only [DEFAULT_MAX_PEERS, ENET_CAPACITY, WT_CAPACITY, SUBJECT_ID_BITS] at hsubject ⊢
    omega
  refine ⟨_, _, decodeBatches_encodeBatches serverTick subjects MAX_BATCH_BYTES mode lastKnownSeq,
    by rw [List.getElem?_map, hi]; rfl,
    agrees_onWire_iff ht.inRange subject tier hid mode hknown serverTick⟩

/-! A player joins with an initial state and moves on. -/

def movesOn (state : PlayerState) : List Event :=
  [.connect 1 [] 0,
    .receive 1 (some (some (.handshake ⟨[66, 49], some ⟨some stillState, none, none, none⟩, 0⟩))) 0 1,
    .receive 1 (some (some (.input (some state)))) 0 1]

theorem movesOn_typed {state : PlayerState} (h : state.Typed) : ∀ e ∈ movesOn state, e.Typed := by
  have hstill : stillState.Typed := by constructor <;> exact ⟨by decide, by decide⟩
  intro e he
  simp only [movesOn, List.mem_cons, List.not_mem_nil, or_false] at he
  rcases he with rfl | rfl | rfl
  · trivial
  · rintro msg ⟨⟩ init ⟨⟩ s ⟨⟩
    exact hstill
  · rintro msg ⟨⟩ s ⟨⟩
    exact h

theorem produced_movesOn {state : PlayerState} (h : state.Typed) {s : PeerSnapshot}
    (hs : ((Machine.run (fun s e => (step Env.sample s e).map Prod.snd)
      (PulseServer.new PulseConfig.default) (movesOn state)).any fun server =>
        decide (s ∈ (server.board.ring 1).ring)) = true) :
    Produced Env.sample PulseConfig.default s := by
  obtain ⟨server, hrun, hmem⟩ := (Option.any_eq_true _ _).mp hs
  exact ⟨movesOn state, server, 1, hrun, movesOn_typed h, of_decide_eq_true hmem⟩

def joinedSnapshot : PeerSnapshot := { PeerSnapshot.default with serverTick := 1 }

def jumpedSnapshot : PeerSnapshot :=
  { joinedSnapshot with seq := 1, jumpCount := 3, animationFlags := 5 }

/-- A jump count and flags that fit. -/
theorem batched_delta_agrees_iff_jump :
    ∃ decoded d, decodeBatches (fun _ => 0) (encodeBatches 2
        [BatchSubject.fromDelta (createDeltaMessage 1 joinedSnapshot jumpedSnapshot TIER_0)
          jumpedSnapshot.animationFlags] MAX_BATCH_BYTES .delta) = some decoded ∧
      decoded[0]? = some d ∧
      Agrees (createDeltaMessage 1 joinedSnapshot jumpedSnapshot TIER_0) (d.toDelta 2)
        jumpedSnapshot.animationFlags := by
  have htyped : ({ stillState with jumpCount := 3, stateFlags := 5 } : PlayerState).Typed := by
    constructor <;> exact ⟨by decide, by decide⟩
  obtain ⟨decoded, d, hdecoded, hd, hiff⟩ := batched_delta_agrees_iff Env.sample PulseConfig.default
    joinedSnapshot jumpedSnapshot (produced_movesOn htyped (by decide)) 1 (by decide) TIER_0
    .delta (fun _ => 0) rfl
    [BatchSubject.fromDelta (createDeltaMessage 1 joinedSnapshot jumpedSnapshot TIER_0)
      jumpedSnapshot.animationFlags] 0 rfl 2
  exact ⟨decoded, d, hdecoded, hd, hiff.mpr ⟨by decide, fun h => absurd rfl h,
    fun _ => ⟨by decide, by decide⟩⟩⟩

/-- The flags of an accepted input need not fit 16 bits. -/
theorem batched_flags_cut :
    ¬ ∀ (env : Env) (config : PulseConfig) (b t : PeerSnapshot), Produced env config b →
      Produced env config t → ∀ (subject : U32), subject.val < DEFAULT_MAX_PEERS →
      ∀ (tier : Tier) (mode : SeqEncoding) (lastKnownSeq : U32 → U32), lastKnownSeq subject = b.seq →
      ∀ serverTick, ∃ decoded d, decodeBatches lastKnownSeq (encodeBatches serverTick
          [BatchSubject.fromDelta (createDeltaMessage subject b t tier) t.animationFlags]
          MAX_BATCH_BYTES mode) = some decoded ∧ decoded[0]? = some d ∧
        Agrees (createDeltaMessage subject b t tier) (d.toDelta serverTick) t.animationFlags := by
  have htyped : ({ stillState with stateFlags := 65536 } : PlayerState).Typed := by
    constructor <;> exact ⟨by decide, by decide⟩
  have hdecode : ((decodeBatches (fun _ => 0) (encodeBatches 2
      [BatchSubject.fromDelta (createDeltaMessage 1 joinedSnapshot
        { joinedSnapshot with seq := 1, animationFlags := 65536 } TIER_0) 65536]
      MAX_BATCH_BYTES .absolute)).bind fun decoded => decoded[0]?).map BatchSubject.stateFlags =
      some 0 := by decide
  intro h
  obtain ⟨decoded, d, hdecoded, hd, hagrees⟩ := h Env.sample PulseConfig.default joinedSnapshot
    { joinedSnapshot with seq := 1, animationFlags := 65536 }
    (produced_movesOn htyped (by decide)) (produced_movesOn htyped (by decide)) 1
    (by decide) TIER_0 .absolute (fun _ => 0) rfl 2
  rw [hdecoded, Option.bind_some, hd, Option.map_some, Option.some.injEq] at hdecode
  have hflags := Option.some.inj hagrees.stateFlags
  rw [hdecode] at hflags
  exact absurd hflags (by decide)

end Catalyrst.Pulse
