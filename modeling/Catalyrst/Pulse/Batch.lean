import Catalyrst.Lib.Bits
import Catalyrst.Pulse.Messages

/-!
# Batched deltas (`batch.rs`)

An observer that supports it receives its deltas packed into batches: a bit for
the sequence encoding, then for every subject its id, its sequence, a presence
mask, the state flags and the fields that are present.
-/

namespace Catalyrst.Pulse
open Catalyrst.Lib Catalyrst.Lib.Bits

def SUBJECT_ID_BITS : ℕ := 13
def SEQ_DELTA_BITS : ℕ := 6
def SEQ_DELTA_ESCAPE : ℕ := 2 ^ SEQ_DELTA_BITS - 1
def PRESENCE_BITS : ℕ := 17
def STATE_FLAGS_BITS : ℕ := 16
def ABSOLUTE_SEQ_BITS : ℕ := 32
def SEQ_ENCODING_HEADER_BITS : ℕ := 1
def WRAP_OVERHEAD : ℕ := 15
def DEFAULT_MAX_DATAGRAM_BYTES : ℕ := 1200
def MAX_BATCH_BYTES : ℕ := DEFAULT_MAX_DATAGRAM_BYTES - WRAP_OVERHEAD
def GLIDE_STATE_BITS : ℕ := 2
def JUMP_COUNT_BITS : ℕ := 16
def PARCEL_INDEX_BITS : ℕ := 17

def FIELD_WIDTHS : List ℕ :=
  [PARCEL_INDEX_BITS, Spec.POSITION_X, Spec.POSITION_Y, Spec.POSITION_Z, Spec.VELOCITY_X,
    Spec.VELOCITY_Y, Spec.VELOCITY_Z, Spec.ROTATION_Y, Spec.MOVEMENT_BLEND, Spec.SLIDE_BLEND,
    Spec.HEAD_YAW, Spec.HEAD_PITCH, GLIDE_STATE_BITS, JUMP_COUNT_BITS, Spec.POINT_AT_X,
    Spec.POINT_AT_Y, Spec.POINT_AT_Z]

inductive SeqEncoding where
  | delta
  | absolute
  deriving DecidableEq

def SeqEncoding.toBit : SeqEncoding → ℕ
  | .delta => 0
  | .absolute => 1

def SeqEncoding.fromBit (bit : ℕ) : SeqEncoding := if bit = 0 then .delta else .absolute

/-- `v as u32` for a signed 32-bit value. -/
def castU32 (v : ℤ) : U32 :=
  ⟨(v % 4294967296).toNat, by
    have h0 := Int.emod_nonneg v (b := 4294967296) (by decide)
    have h1 := Int.emod_lt_of_pos v (b := 4294967296) (by decide)
    omega⟩

/-- `v as i32` for an unsigned 32-bit value. -/
def castI32 (v : U32) : ℤ := if v.val < 2147483648 then v.val else v.val - 4294967296

def wordOf (n : ℕ) : U32 := ⟨n % 4294967296, mod_u32_lt n⟩

structure BatchSubject where
  subjectId : U32
  baselineSeq : U32
  newSeq : U32
  stateFlags : U32
  fields : List (Option U32)
  /-- One entry for every width. -/
  count : fields.length = FIELD_WIDTHS.length
  deriving DecidableEq

namespace BatchSubject

def fromDelta (delta : PlayerStateDeltaTier0) (stateFlags : U32) : BatchSubject where
  subjectId := delta.subjectId
  baselineSeq := delta.baselineSeq
  newSeq := delta.newSeq
  stateFlags := stateFlags
  fields := [delta.parcelIndex.map castU32, delta.positionX, delta.positionY, delta.positionZ,
    delta.velocityX, delta.velocityY, delta.velocityZ, delta.rotationY, delta.movementBlend,
    delta.slideBlend, delta.headYaw, delta.headPitch, delta.glideState.map castU32,
    delta.jumpCount.map castU32, delta.pointAtX, delta.pointAtY, delta.pointAtZ]
  count := rfl

/-- `self.fields[i]`. -/
def field (s : BatchSubject) (i : ℕ) : Option U32 := s.fields.getD i none

def toDelta (s : BatchSubject) (serverTick : U32) : PlayerStateDeltaTier0 where
  subjectId := s.subjectId
  baselineSeq := s.baselineSeq
  newSeq := s.newSeq
  serverTick := serverTick
  parcelIndex := (s.field 0).map castI32
  positionX := s.field 1
  positionY := s.field 2
  positionZ := s.field 3
  velocityX := s.field 4
  velocityY := s.field 5
  velocityZ := s.field 6
  rotationY := s.field 7
  movementBlend := s.field 8
  slideBlend := s.field 9
  headYaw := s.field 10
  headPitch := s.field 11
  stateFlags := some s.stateFlags
  glideState := (s.field 12).map castI32
  jumpCount := (s.field 13).map castI32
  pointAtX := s.field 14
  pointAtY := s.field 15
  pointAtZ := s.field 16

/-- `new_seq.wrapping_sub(baseline_seq)`. -/
def seqDelta (s : BatchSubject) : ℕ := (s.newSeq - s.baselineSeq).val

def seqBitLen (s : BatchSubject) : SeqEncoding → ℕ
  | .delta =>
    if SEQ_DELTA_ESCAPE ≤ s.seqDelta then SEQ_DELTA_BITS + ABSOLUTE_SEQ_BITS else SEQ_DELTA_BITS
  | .absolute => ABSOLUTE_SEQ_BITS

def bitLen (s : BatchSubject) (mode : SeqEncoding) : ℕ :=
  SUBJECT_ID_BITS + PRESENCE_BITS + STATE_FLAGS_BITS + s.seqBitLen mode +
    ((s.fields.zip FIELD_WIDTHS).map fun e => if e.1.isSome then e.2 else 0).sum

def encodeSeq (s : BatchSubject) : SeqEncoding → List Bool
  | .delta =>
    if SEQ_DELTA_ESCAPE ≤ s.seqDelta then
      bitsOf SEQ_DELTA_ESCAPE SEQ_DELTA_BITS ++ bitsOf s.newSeq.val ABSOLUTE_SEQ_BITS
    else bitsOf s.seqDelta SEQ_DELTA_BITS
  | .absolute => bitsOf s.newSeq.val ABSOLUTE_SEQ_BITS

/-- A bit for every field that is present, the first field in the highest bit. -/
def presenceMask (s : BatchSubject) : ℕ := natOfBits (s.fields.map Option.isSome)

def encodeFields : List (Option U32) → List ℕ → List Bool
  | some v :: fields, width :: widths => bitsOf v.val width ++ encodeFields fields widths
  | none :: fields, _ :: widths => encodeFields fields widths
  | _, _ => []

def encodeInto (s : BatchSubject) (mode : SeqEncoding) : List Bool :=
  bitsOf s.subjectId.val SUBJECT_ID_BITS ++ s.encodeSeq mode ++
    bitsOf s.presenceMask PRESENCE_BITS ++ bitsOf s.stateFlags.val STATE_FLAGS_BITS ++
    encodeFields s.fields FIELD_WIDTHS

/-! ### Decoding -/

/-- The baseline and the new sequence. -/
def decodeSeq (mode : SeqEncoding) (baseline : U32) (bits : List Bool) :
    Option ((U32 × U32) × List Bool) :=
  match mode with
  | .delta =>
    (readBits SEQ_DELTA_BITS bits).bind fun r =>
      if r.1 = SEQ_DELTA_ESCAPE then
        (readBits ABSOLUTE_SEQ_BITS r.2).map fun q => ((baseline, wordOf q.1), q.2)
      else some ((baseline, baseline + wordOf r.1), r.2)
  | .absolute =>
    (readBits ABSOLUTE_SEQ_BITS bits).map fun r => ((wordOf r.1, wordOf r.1), r.2)

/-- The fields whose bit of the mask is set. -/
def decodeFields : List Bool → List ℕ → List Bool → Option (List (Option U32) × List Bool)
  | true :: mask, width :: widths, bits =>
    (readBits width bits).bind fun r =>
      (decodeFields mask widths r.2).map fun q => (some (wordOf r.1) :: q.1, q.2)
  | false :: mask, _ :: widths, bits =>
    (decodeFields mask widths bits).map fun q => (none :: q.1, q.2)
  | _, widths, bits => some (widths.map fun _ => none, bits)

theorem decodeFields_length {mask : List Bool} {widths : List ℕ} {bits : List Bool}
    {r : List (Option U32) × List Bool} (h : decodeFields mask widths bits = some r) :
    r.1.length = widths.length := by
  induction mask generalizing widths bits r with
  | nil =>
    cases h
    exact List.length_map _
  | cons bit mask ih =>
    cases widths with
    | nil => cases bit <;> cases h <;> rfl
    | cons width widths =>
      cases bit with
      | true =>
        obtain ⟨v, _, h⟩ := Option.bind_eq_some_iff.mp h
        obtain ⟨q, hq, rfl⟩ := Option.map_eq_some_iff.mp h
        exact congrArg (· + 1) (ih hq)
      | false =>
        obtain ⟨q, hq, rfl⟩ := Option.map_eq_some_iff.mp h
        exact congrArg (· + 1) (ih hq)

def decodeFrom (mode : SeqEncoding) (lastKnownSeq : U32 → U32) (bits : List Bool) :
    Option (BatchSubject × List Bool) :=
  (readBits SUBJECT_ID_BITS bits).bind fun id =>
    (decodeSeq mode (lastKnownSeq (wordOf id.1)) id.2).bind fun seq =>
      (readBits PRESENCE_BITS seq.2).bind fun mask =>
        (readBits STATE_FLAGS_BITS mask.2).bind fun flags =>
          match h : decodeFields (bitsOf mask.1 PRESENCE_BITS) FIELD_WIDTHS flags.2 with
          | some fields => some (⟨wordOf id.1, seq.1.1, seq.1.2, wordOf flags.1, fields.1,
              decodeFields_length h⟩, fields.2)
          | none => none

end BatchSubject

structure EncodedBatch where
  serverTick : U32
  subjectCount : ℕ
  payload : Bytes

def openBatch (mode : SeqEncoding) : List Bool := bitsOf mode.toBit SEQ_ENCODING_HEADER_BITS

/-- The loop of `encode_batches`: `written` is the open batch and `count` its
subjects so far. -/
def encodeLoop (serverTick : U32) (maxBytes : ℕ) (mode : SeqEncoding) :
    List BatchSubject → List Bool → ℕ → List EncodedBatch
  | [], written, count => if 0 < count then [⟨serverTick, count, packBits written⟩] else []
  | s :: subjects, written, count =>
    let projectedBytes := (written.length + s.bitLen mode + 7) / 8
    if 0 < count ∧ maxBytes < projectedBytes then
      ⟨serverTick, count, packBits written⟩ ::
        encodeLoop serverTick maxBytes mode subjects (openBatch mode ++ s.encodeInto mode) 1
    else encodeLoop serverTick maxBytes mode subjects (written ++ s.encodeInto mode) (count + 1)

def encodeBatches (serverTick : U32) (subjects : List BatchSubject) (maxBytes : ℕ)
    (mode : SeqEncoding) : List EncodedBatch :=
  encodeLoop serverTick maxBytes mode subjects (openBatch mode) 0

def decodeSubjects (mode : SeqEncoding) (lastKnownSeq : U32 → U32) :
    ℕ → List Bool → Option (List BatchSubject)
  | 0, _ => some []
  | count + 1, bits =>
    (BatchSubject.decodeFrom mode lastKnownSeq bits).bind fun r =>
      (decodeSubjects mode lastKnownSeq count r.2).map fun subjects => r.1 :: subjects

/-- `decode_batch`; `none` is a payload that ended in the middle of a field. -/
def decodeBatch (subjectCount : ℕ) (payload : Bytes) (lastKnownSeq : U32 → U32) :
    Option (List BatchSubject) :=
  (readBits SEQ_ENCODING_HEADER_BITS (unpackBits payload)).bind fun r =>
    decodeSubjects (SeqEncoding.fromBit r.1) lastKnownSeq subjectCount r.2

/-- The subjects of several batches, in order. -/
def decodeBatches (lastKnownSeq : U32 → U32) : List EncodedBatch → Option (List BatchSubject)
  | [] => some []
  | b :: batches =>
    (decodeBatch b.subjectCount b.payload lastKnownSeq).bind fun subjects =>
      (decodeBatches lastKnownSeq batches).map fun rest => subjects ++ rest

/-! ### What the decoder gets back -/

namespace BatchSubject

/-- A field as its width leaves it. -/
def truncateFields : List (Option U32) → List ℕ → List (Option U32)
  | field :: fields, width :: widths =>
    field.map (fun v => wordOf (v.val % 2 ^ width)) :: truncateFields fields widths
  | _, _ => []

theorem truncateFields_length {fields : List (Option U32)} {widths : List ℕ}
    (h : fields.length = widths.length) : (truncateFields fields widths).length = widths.length := by
  induction fields generalizing widths with
  | nil =>
    rw [← h]
    rfl
  | cons field fields ih =>
    cases widths with
    | nil => cases h
    | cons width widths => exact congrArg (· + 1) (ih (Nat.succ.inj h))

/-- The two sequences as the decoder reconstructs them. -/
def seqOnWire (s : BatchSubject) (baseline : U32) : SeqEncoding → U32 × U32
  | .delta => (baseline, if SEQ_DELTA_ESCAPE ≤ s.seqDelta then s.newSeq
      else baseline + wordOf s.seqDelta)
  | .absolute => (s.newSeq, s.newSeq)

/-- A subject as the decoder sees it: every value cut to its width. -/
def onWire (mode : SeqEncoding) (lastKnownSeq : U32 → U32) (s : BatchSubject) : BatchSubject where
  subjectId := wordOf (s.subjectId.val % 2 ^ SUBJECT_ID_BITS)
  baselineSeq := (s.seqOnWire (lastKnownSeq (wordOf (s.subjectId.val % 2 ^ SUBJECT_ID_BITS))) mode).1
  newSeq := (s.seqOnWire (lastKnownSeq (wordOf (s.subjectId.val % 2 ^ SUBJECT_ID_BITS))) mode).2
  stateFlags := wordOf (s.stateFlags.val % 2 ^ STATE_FLAGS_BITS)
  fields := truncateFields s.fields FIELD_WIDTHS
  count := truncateFields_length s.count

theorem wordOf_val (v : U32) : wordOf v.val = v := Fin.ext (Nat.mod_eq_of_lt v.isLt)

theorem wordOf_mod {v : U32} {bits : ℕ} (h : v.val < 2 ^ bits) : wordOf (v.val % 2 ^ bits) = v := by
  rw [Nat.mod_eq_of_lt h, wordOf_val]

/-- Given its baseline, the sequence is known again. -/
theorem seqOnWire_baseline (s : BatchSubject) :
    s.seqOnWire s.baselineSeq .delta = (s.baselineSeq, s.newSeq) := by
  dsimp only [seqOnWire]
  split
  · rfl
  · rw [seqDelta, wordOf_val, add_sub_cancel]

theorem wordOf_mod_32 (v : U32) : wordOf (v.val % 2 ^ ABSOLUTE_SEQ_BITS) = v :=
  wordOf_mod v.isLt

theorem decodeSeq_encodeSeq (s : BatchSubject) (mode : SeqEncoding) (baseline : U32)
    (rest : List Bool) :
    decodeSeq mode baseline (s.encodeSeq mode ++ rest) = some (s.seqOnWire baseline mode, rest) := by
  cases mode with
  | absolute =>
    simp only [decodeSeq, encodeSeq, readBits_bitsOf, Option.map_some, wordOf_mod_32, seqOnWire]
  | delta =>
    by_cases hesc : SEQ_DELTA_ESCAPE ≤ s.seqDelta
    · have hmod : SEQ_DELTA_ESCAPE % 2 ^ SEQ_DELTA_BITS = SEQ_DELTA_ESCAPE := by decide
      simp only [decodeSeq, encodeSeq, hesc, if_true, List.append_assoc, readBits_bitsOf,
        Option.bind_some, hmod, Option.map_some, wordOf_mod_32, seqOnWire]
    · have hlt : s.seqDelta < SEQ_DELTA_ESCAPE := not_le.mp hesc
      have hmod : s.seqDelta % 2 ^ SEQ_DELTA_BITS = s.seqDelta := by
        have hesc' : SEQ_DELTA_ESCAPE = 63 := rfl
        exact Nat.mod_eq_of_lt (by simp only [SEQ_DELTA_BITS]; omega)
      have hne : s.seqDelta ≠ SEQ_DELTA_ESCAPE := ne_of_lt hlt
      simp only [decodeSeq, encodeSeq, hesc, if_false, readBits_bitsOf, Option.bind_some, hmod, hne,
        seqOnWire]

theorem decodeFields_encodeFields {fields : List (Option U32)} {widths : List ℕ}
    (h : fields.length = widths.length) (rest : List Bool) :
    decodeFields (fields.map Option.isSome) widths (encodeFields fields widths ++ rest) =
      some (truncateFields fields widths, rest) := by
  induction fields generalizing widths with
  | nil =>
    rw [List.length_eq_zero_iff.mp h.symm]
    rfl
  | cons field fields ih =>
    cases widths with
    | nil => cases h
    | cons width widths =>
      have htail := ih (Nat.succ.inj h)
      cases field with
      | none =>
        simp only [List.map_cons, Option.isSome_none, decodeFields, encodeFields, htail,
          Option.map_some, truncateFields, Option.map_none]
      | some v =>
        simp only [List.map_cons, Option.isSome_some, decodeFields, encodeFields,
          List.append_assoc, readBits_bitsOf, Option.bind_some, htail, Option.map_some,
          truncateFields]

theorem bitsOf_presenceMask (s : BatchSubject) :
    bitsOf (s.presenceMask % 2 ^ PRESENCE_BITS) PRESENCE_BITS = s.fields.map Option.isSome := by
  have hlen : (s.fields.map Option.isSome).length = PRESENCE_BITS := by
    rw [List.length_map, s.count]
    rfl
  have hlt := natOfBits_lt (s.fields.map Option.isSome)
  rw [hlen] at hlt
  have hread := bitsOf_natOfBits (s.fields.map Option.isSome)
  rw [hlen] at hread
  rw [presenceMask, Nat.mod_eq_of_lt hlt, hread]

/-- Decoding takes exactly the bits of one subject off the stream. -/
theorem decodeFrom_encodeInto (s : BatchSubject) (mode : SeqEncoding) (lastKnownSeq : U32 → U32)
    (rest : List Bool) :
    decodeFrom mode lastKnownSeq (s.encodeInto mode ++ rest) =
      some (s.onWire mode lastKnownSeq, rest) := by
  have hfields := decodeFields_encodeFields s.count rest
  rw [← bitsOf_presenceMask] at hfields
  simp only [decodeFrom, encodeInto, List.append_assoc, readBits_bitsOf, Option.bind_some,
    decodeSeq_encodeSeq]
  split
  · rename_i r hr
    obtain rfl := Option.some.inj (hfields.symm.trans hr)
    rfl
  · rename_i hr
    rw [hfields] at hr
    cases hr

end BatchSubject

theorem decodeSubjects_encode (mode : SeqEncoding) (lastKnownSeq : U32 → U32)
    (group : List BatchSubject) (rest : List Bool) :
    decodeSubjects mode lastKnownSeq group.length
        (group.flatMap (BatchSubject.encodeInto · mode) ++ rest) =
      some (group.map (BatchSubject.onWire mode lastKnownSeq)) := by
  induction group with
  | nil => rfl
  | cons s group ih =>
    simp only [List.length_cons, List.flatMap_cons, List.append_assoc, decodeSubjects,
      BatchSubject.decodeFrom_encodeInto, Option.bind_some, ih, Option.map_some, List.map_cons]

/-- A batch that holds a group of subjects. -/
def Holds (mode : SeqEncoding) (serverTick : U32) (group : List BatchSubject) (b : EncodedBatch) :
    Prop :=
  b.serverTick = serverTick ∧ b.subjectCount = group.length ∧
    b.payload = packBits (openBatch mode ++ group.flatMap (BatchSubject.encodeInto · mode))

/-- The decoder gets back as many subjects of the group as it asks for. -/
theorem Holds.decode {mode : SeqEncoding} {serverTick : U32} {group : List BatchSubject}
    {b : EncodedBatch} (h : Holds mode serverTick group b) (lastKnownSeq : U32 → U32) {count : ℕ}
    (hcount : count ≤ b.subjectCount) :
    decodeBatch count b.payload lastKnownSeq =
      some ((group.take count).map (BatchSubject.onWire mode lastKnownSeq)) := by
  obtain ⟨_, hlen, hpayload⟩ := h
  obtain ⟨n, hbits⟩ := unpackBits_packBits
    (openBatch mode ++ group.flatMap (BatchSubject.encodeInto · mode))
  have hmode : SeqEncoding.fromBit (mode.toBit % 2 ^ SEQ_ENCODING_HEADER_BITS) = mode := by
    cases mode <;> rfl
  have hsplit : group.flatMap (BatchSubject.encodeInto · mode) =
      (group.take count).flatMap (BatchSubject.encodeInto · mode) ++
        (group.drop count).flatMap (BatchSubject.encodeInto · mode) := by
    rw [← List.flatMap_append, List.take_append_drop]
  have htake : (group.take count).length = count := List.length_take_of_le (hlen ▸ hcount)
  have hdecode := decodeSubjects_encode mode lastKnownSeq (group.take count)
    ((group.drop count).flatMap (BatchSubject.encodeInto · mode) ++ List.replicate n false)
  rw [htake] at hdecode
  rw [decodeBatch, hpayload, hbits, openBatch, List.append_assoc, readBits_bitsOf,
    Option.bind_some, hmode, hsplit, List.append_assoc]
  exact hdecode

/-- The batches hold the subjects in order: the open batch first, then the rest. -/
theorem encodeLoop_holds (serverTick : U32) (maxBytes : ℕ) (mode : SeqEncoding)
    (subjects pending : List BatchSubject) :
    ∃ groups : List (List BatchSubject), groups.flatten = pending ++ subjects ∧
      List.Forall₂ (Holds mode serverTick) groups
        (encodeLoop serverTick maxBytes mode subjects
          (openBatch mode ++ pending.flatMap (BatchSubject.encodeInto · mode)) pending.length) := by
  induction subjects generalizing pending with
  | nil =>
    cases pending with
    | nil => exact ⟨[], rfl, List.Forall₂.nil⟩
    | cons p pending =>
      exact ⟨[p :: pending], by simp, List.Forall₂.cons ⟨rfl, rfl, rfl⟩ List.Forall₂.nil⟩
  | cons s subjects ih =>
    unfold encodeLoop
    dsimp only
    split
    · -- the open batch is full: it is closed and the subject starts the next one
      obtain ⟨groups, hflat, hholds⟩ := ih [s]
      refine ⟨pending :: groups, by rw [List.flatten_cons, hflat]; rfl, ?_⟩
      have hsame : openBatch mode ++ [s].flatMap (BatchSubject.encodeInto · mode) =
          openBatch mode ++ s.encodeInto mode := by simp
      rw [hsame] at hholds
      exact List.Forall₂.cons ⟨rfl, rfl, rfl⟩ hholds
    · obtain ⟨groups, hflat, hholds⟩ := ih (pending ++ [s])
      refine ⟨groups, by simpa using hflat, ?_⟩
      have hsame : openBatch mode ++ (pending ++ [s]).flatMap (BatchSubject.encodeInto · mode) =
          openBatch mode ++ pending.flatMap (BatchSubject.encodeInto · mode) ++
            s.encodeInto mode := by simp
      rw [hsame, List.length_append] at hholds
      exact hholds

theorem encodeBatches_holds (serverTick : U32) (subjects : List BatchSubject) (maxBytes : ℕ)
    (mode : SeqEncoding) :
    ∃ groups : List (List BatchSubject), groups.flatten = subjects ∧
      List.Forall₂ (Holds mode serverTick) groups
        (encodeBatches serverTick subjects maxBytes mode) := by
  have h := encodeLoop_holds serverTick maxBytes mode subjects []
  simpa [encodeBatches] using h

/-- Every batch holds a group of the subjects it was made for. -/
theorem holds_of_mem_encodeBatches {serverTick : U32} {subjects : List BatchSubject} {maxBytes : ℕ}
    {mode : SeqEncoding} {b : EncodedBatch}
    (hb : b ∈ encodeBatches serverTick subjects maxBytes mode) :
    ∃ group, Holds mode serverTick group b ∧ ∀ g ∈ group, g ∈ subjects := by
  obtain ⟨groups, hflat, hholds⟩ := encodeBatches_holds serverTick subjects maxBytes mode
  obtain ⟨i, hi, rfl⟩ := List.mem_iff_getElem.mp hb
  have hi' : i < groups.length := by rwa [hholds.length_eq]
  refine ⟨groups[i], hholds.get hi' hi, fun g hg => ?_⟩
  rw [← hflat]
  exact List.mem_flatten.mpr ⟨groups[i], List.getElem_mem hi', hg⟩

/-- The decoder gets every subject back, as its widths leave it. -/
theorem decodeBatches_encodeBatches (serverTick : U32) (subjects : List BatchSubject) (maxBytes : ℕ)
    (mode : SeqEncoding) (lastKnownSeq : U32 → U32) :
    decodeBatches lastKnownSeq (encodeBatches serverTick subjects maxBytes mode) =
      some (subjects.map (BatchSubject.onWire mode lastKnownSeq)) := by
  obtain ⟨groups, hflat, hholds⟩ := encodeBatches_holds serverTick subjects maxBytes mode
  have hgroups : decodeBatches lastKnownSeq (encodeBatches serverTick subjects maxBytes mode) =
      some (groups.flatten.map (BatchSubject.onWire mode lastKnownSeq)) := by
    clear hflat
    generalize encodeBatches serverTick subjects maxBytes mode = batches at hholds ⊢
    induction hholds with
    | nil => rfl
    | cons hheld _ ih =>
      have hdecode := hheld.decode lastKnownSeq (le_refl _)
      rw [hheld.2.1, List.take_length] at hdecode
      simp only [decodeBatches, hheld.2.1, hdecode, Option.bind_some, ih, Option.map_some,
        List.flatten_cons, List.map_append]
  rw [hgroups, hflat]

end Catalyrst.Pulse
