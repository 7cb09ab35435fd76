import Catalyrst.Pulse.Batch

/-!
# Batches decode to their subjects and keep to the byte limit

`decode_batch` asks its `last_known_seq` once for every subject of a delta batch,
right after the subject's id; the closure may keep state. Values within their
widths come back as they were, and the bit length that decides a split is the
length of what is written.
-/

namespace Catalyrst.Pulse
open Catalyrst.Lib Catalyrst.Lib.Bits

/-! ### A closure with state -/

section

variable {σ : Type*} (ask : σ → U32 → U32 × σ)

/-- What `last_known_seq` answers; an absolute batch never asks. -/
def askSeq (mode : SeqEncoding) (st : σ) (subjectId : U32) : U32 × σ :=
  match mode with
  | .delta => ask st subjectId
  | .absolute => (0, st)

/-- The loop of `decode_batch`: every subject is decoded with its own answer. -/
def decodeSubjectsWith (mode : SeqEncoding) :
    ℕ → σ → List Bool → Option (List BatchSubject × σ)
  | 0, st, _ => some ([], st)
  | count + 1, st, bits =>
    (readBits SUBJECT_ID_BITS bits).bind fun id =>
      let answer := askSeq ask mode st (wordOf id.1)
      (BatchSubject.decodeFrom mode (fun _ => answer.1) bits).bind fun r =>
        (decodeSubjectsWith mode count answer.2 r.2).map fun rest => (r.1 :: rest.1, rest.2)

def decodeBatchWith (subjectCount : ℕ) (payload : Bytes) (st : σ) :
    Option (List BatchSubject × σ) :=
  (readBits SEQ_ENCODING_HEADER_BITS (unpackBits payload)).bind fun r =>
    decodeSubjectsWith ask (SeqEncoding.fromBit r.1) subjectCount st r.2

/-- Several batches in order, with one closure. -/
def decodeBatchesWith : List EncodedBatch → σ → Option (List BatchSubject × σ)
  | [], st => some ([], st)
  | b :: batches, st =>
    (decodeBatchWith ask b.subjectCount b.payload st).bind fun r =>
      (decodeBatchesWith batches r.2).map fun rest => (r.1 ++ rest.1, rest.2)

/-- The answer for each subject in turn is its baseline. -/
def AnswersBaselines : σ → List BatchSubject → Prop
  | _, [] => True
  | st, s :: subjects =>
    (ask st s.subjectId).1 = s.baselineSeq ∧ AnswersBaselines (ask st s.subjectId).2 subjects

end

/-! ### Values within their widths -/

namespace BatchSubject

structure InRange (s : BatchSubject) : Prop where
  subjectId : s.subjectId.val < 2 ^ SUBJECT_ID_BITS
  stateFlags : s.stateFlags.val < 2 ^ STATE_FLAGS_BITS
  fields : ∀ e ∈ s.fields.zip FIELD_WIDTHS, ∀ v ∈ e.1, v.val < 2 ^ e.2

instance (s : BatchSubject) : Decidable s.InRange :=
  have hall : (∀ e ∈ s.fields.zip FIELD_WIDTHS, e.1.all fun v => v.val < 2 ^ e.2) ↔
      ∀ e ∈ s.fields.zip FIELD_WIDTHS, ∀ v ∈ e.1, v.val < 2 ^ e.2 := by
    simp only [Option.all_eq_true, decide_eq_true_eq, Option.mem_def]
  decidable_of_iff (s.subjectId.val < 2 ^ SUBJECT_ID_BITS ∧ s.stateFlags.val < 2 ^ STATE_FLAGS_BITS ∧
    ∀ e ∈ s.fields.zip FIELD_WIDTHS, e.1.all fun v => v.val < 2 ^ e.2)
    ⟨fun ⟨h1, h2, h3⟩ => ⟨h1, h2, hall.mp h3⟩, fun ⟨h1, h2, h3⟩ => ⟨h1, h2, hall.mpr h3⟩⟩

theorem truncateFields_eq {fields : List (Option U32)} {widths : List ℕ}
    (hlen : fields.length = widths.length)
    (h : ∀ e ∈ fields.zip widths, ∀ v ∈ e.1, v.val < 2 ^ e.2) :
    truncateFields fields widths = fields := by
  induction fields generalizing widths with
  | nil => rfl
  | cons field fields ih =>
    cases widths with
    | nil => cases hlen
    | cons width widths =>
      have hhead := h (field, width) List.mem_cons_self
      have htail := ih (Nat.succ.inj hlen) fun e he => h e (List.mem_cons_of_mem _ he)
      rw [truncateFields, htail]
      cases field with
      | none => rfl
      | some v => rw [Option.map_some, wordOf_mod (hhead v rfl)]

/-- The subject that a decoder in this mode can give back. -/
def received (mode : SeqEncoding) (s : BatchSubject) : BatchSubject :=
  match mode with
  | .delta => s
  | .absolute => { s with baselineSeq := s.newSeq }

/-- A subject within its widths comes back, given its baseline in delta mode. -/
theorem InRange.onWire {s : BatchSubject} (h : s.InRange) (mode : SeqEncoding) {answer : U32}
    (hb : mode = .delta → answer = s.baselineSeq) :
    s.onWire mode (fun _ => answer) = s.received mode := by
  have hid := wordOf_mod h.subjectId
  have hflags := wordOf_mod h.stateFlags
  have hfields := truncateFields_eq s.count h.fields
  cases mode with
  | absolute =>
    simp only [BatchSubject.onWire, received, seqOnWire, hid, hflags, hfields]
  | delta =>
    have hsame := hb rfl
    subst hsame
    simp only [BatchSubject.onWire, received, seqOnWire_baseline, hid, hflags, hfields]

/-! ### The bit length -/

theorem encodeFields_length {fields : List (Option U32)} {widths : List ℕ} :
    (encodeFields fields widths).length =
      ((fields.zip widths).map fun e => if e.1.isSome then e.2 else 0).sum := by
  induction fields generalizing widths with
  | nil => cases widths <;> rfl
  | cons field fields ih =>
    cases widths with
    | nil => cases field <;> rfl
    | cons width widths =>
      cases field with
      | none => simp [encodeFields, ih]
      | some v => simp [encodeFields, ih, bitsOf_length]

theorem encodeSeq_length (s : BatchSubject) (mode : SeqEncoding) :
    (s.encodeSeq mode).length = s.seqBitLen mode := by
  cases mode with
  | absolute => exact bitsOf_length _ _
  | delta =>
    by_cases hesc : SEQ_DELTA_ESCAPE ≤ s.seqDelta
    · simp only [encodeSeq, seqBitLen, if_pos hesc, List.length_append, bitsOf_length]
    · simp only [encodeSeq, seqBitLen, if_neg hesc, bitsOf_length]

/-- The bits written for a subject are as many as `bit_len` says. -/
theorem encodeInto_length (s : BatchSubject) (mode : SeqEncoding) :
    (s.encodeInto mode).length = s.bitLen mode := by
  simp only [encodeInto, bitLen, List.length_append, bitsOf_length, encodeSeq_length,
    encodeFields_length]
  omega

end BatchSubject

/-! ### Packing -/

/-- Every batch is within the limit or holds one subject, when the open batch is. -/
theorem encodeLoop_fits (serverTick : U32) (maxBytes : ℕ) (mode : SeqEncoding)
    (subjects : List BatchSubject) (written : List Bool) (count : ℕ)
    (h : (written.length + 7) / 8 ≤ maxBytes ∨ count ≤ 1) :
    ∀ b ∈ encodeLoop serverTick maxBytes mode subjects written count,
      b.payload.length ≤ maxBytes ∨ b.subjectCount = 1 := by
  have hclosed : 0 < count → (packBits written).length ≤ maxBytes ∨ count = 1 := by
    intro hpos
    rw [packBits_length]
    omega
  induction subjects generalizing written count with
  | nil =>
    intro b hb
    unfold encodeLoop at hb
    split at hb
    · rename_i hpos
      rw [List.mem_singleton.mp hb]
      exact hclosed hpos
    · cases hb
  | cons s subjects ih =>
    intro b hb
    unfold encodeLoop at hb
    dsimp only at hb
    split at hb
    · rename_i hfull
      rcases List.mem_cons.mp hb with rfl | hb
      · exact hclosed hfull.1
      · exact ih _ 1 (Or.inr le_rfl) (fun _ => Or.inr rfl) b hb
    · rename_i hroom
      have hnext : ((written ++ s.encodeInto mode).length + 7) / 8 ≤ maxBytes ∨ count + 1 ≤ 1 := by
        rw [List.length_append, BatchSubject.encodeInto_length]
        omega
      refine ih _ (count + 1) hnext (fun _ => ?_) b hb
      rw [packBits_length]
      omega

theorem encodeLoop_count (serverTick : U32) (maxBytes : ℕ) (mode : SeqEncoding)
    (subjects : List BatchSubject) (written : List Bool) (count : ℕ) :
    ((encodeLoop serverTick maxBytes mode subjects written count).map
      EncodedBatch.subjectCount).sum = count + subjects.length := by
  induction subjects generalizing written count with
  | nil =>
    unfold encodeLoop
    split
    · simp
    · simp only [List.map_nil, List.sum_nil, List.length_nil]
      omega
  | cons s subjects ih =>
    unfold encodeLoop
    dsimp only
    split
    · rw [List.map_cons, List.sum_cons, ih, List.length_cons]
      dsimp only
      omega
    · rw [ih, List.length_cons]
      omega

/-! ### Decoding -/

section

variable {σ : Type*} {ask : σ → U32 → U32 × σ} {mode : SeqEncoding}

/-- The closure after it was asked for each subject. -/
def stateAfter (ask : σ → U32 → U32 × σ) (mode : SeqEncoding) (st : σ)
    (subjects : List BatchSubject) : σ :=
  subjects.foldl (fun st s => (askSeq ask mode st s.subjectId).2) st

theorem decodeSubjectsWith_encode {group : List BatchSubject} (hr : ∀ s ∈ group, s.InRange)
    {st : σ} (ha : mode = .delta → AnswersBaselines ask st group) (rest : List Bool) :
    decodeSubjectsWith ask mode group.length st
        (group.flatMap (BatchSubject.encodeInto · mode) ++ rest) =
      some (group.map (BatchSubject.received mode), stateAfter ask mode st group) := by
  induction group generalizing st with
  | nil => rfl
  | cons s group ih =>
    have hs := hr s List.mem_cons_self
    have hid := BatchSubject.wordOf_mod hs.subjectId
    obtain ⟨q, hread⟩ : ∃ q, readBits SUBJECT_ID_BITS (s.encodeInto mode ++
        (group.flatMap (BatchSubject.encodeInto · mode) ++ rest)) =
        some (s.subjectId.val % 2 ^ SUBJECT_ID_BITS, q) := by
      simp only [BatchSubject.encodeInto, List.append_assoc]
      exact ⟨_, readBits_bitsOf _ _ _⟩
    have hanswer : mode = .delta → (askSeq ask mode st s.subjectId).1 = s.baselineSeq := by
      rintro rfl
      exact (ha rfl).1
    have hrest : mode = .delta →
        AnswersBaselines ask (askSeq ask mode st s.subjectId).2 group := by
      rintro rfl
      exact (ha rfl).2
    simp only [List.length_cons, List.flatMap_cons, List.append_assoc, decodeSubjectsWith, hread,
      Option.bind_some, hid, BatchSubject.decodeFrom_encodeInto]
    rw [ih (fun x hx => hr x (List.mem_cons_of_mem _ hx)) hrest, Option.map_some,
      hs.onWire mode hanswer]
    rfl

theorem Holds.decodeWith {serverTick : U32} {group : List BatchSubject} {b : EncodedBatch}
    (h : Holds mode serverTick group b) (hr : ∀ s ∈ group, s.InRange) {st : σ}
    (ha : mode = .delta → AnswersBaselines ask st group) :
    decodeBatchWith ask b.subjectCount b.payload st =
      some (group.map (BatchSubject.received mode), stateAfter ask mode st group) := by
  obtain ⟨_, hlen, hpayload⟩ := h
  obtain ⟨n, hbits⟩ := unpackBits_packBits
    (openBatch mode ++ group.flatMap (BatchSubject.encodeInto · mode))
  have hmode : SeqEncoding.fromBit (mode.toBit % 2 ^ SEQ_ENCODING_HEADER_BITS) = mode := by
    cases mode <;> rfl
  rw [decodeBatchWith, hpayload, hbits, openBatch, List.append_assoc, readBits_bitsOf,
    Option.bind_some, hmode, hlen]
  exact decodeSubjectsWith_encode hr ha _

theorem AnswersBaselines.append {st : σ} {a b : List BatchSubject} :
    AnswersBaselines ask st (a ++ b) ↔
      AnswersBaselines ask st a ∧ AnswersBaselines ask (stateAfter ask .delta st a) b := by
  induction a generalizing st with
  | nil => exact (and_iff_right trivial).symm
  | cons s a ih =>
    rw [List.cons_append, AnswersBaselines, AnswersBaselines, ih, and_assoc]
    rfl

theorem decodeBatchesWith_holds {serverTick : U32} {groups : List (List BatchSubject)}
    {batches : List EncodedBatch} (h : List.Forall₂ (Holds mode serverTick) groups batches)
    (hr : ∀ s ∈ groups.flatten, s.InRange) {st : σ}
    (ha : mode = .delta → AnswersBaselines ask st groups.flatten) :
    decodeBatchesWith ask batches st =
      some (groups.flatten.map (BatchSubject.received mode),
        stateAfter ask mode st groups.flatten) := by
  induction h generalizing st with
  | nil => rfl
  | @cons group b groups batches hheld _ ih =>
    rw [List.flatten_cons] at hr ha
    have hgroup : mode = .delta → AnswersBaselines ask st group := fun hm =>
      (AnswersBaselines.append.mp (ha hm)).1
    have hrest : mode = .delta →
        AnswersBaselines ask (stateAfter ask mode st group) groups.flatten := by
      rintro rfl
      exact (AnswersBaselines.append.mp (ha rfl)).2
    have hhead := hheld.decodeWith (fun s hs => hr s (List.mem_append_left _ hs)) hgroup
    have htail := ih (fun s hs => hr s (List.mem_append_right _ hs)) hrest
    rw [decodeBatchesWith, hhead, Option.bind_some, htail, Option.map_some, List.flatten_cons,
      List.map_append, stateAfter, stateAfter, stateAfter, List.foldl_append]

end

/-- Subjects within their widths come back from their batches in order, whole in
delta mode with their baselines known and up to the baseline in absolute mode;
the counts add up, and only a single subject exceeds the limit. -/
theorem batches_roundTrip (serverTick : U32) (subjects : List BatchSubject) (maxBytes : ℕ)
    (hr : ∀ s ∈ subjects, s.InRange) :
    (∀ (σ : Type) (ask : σ → U32 → U32 × σ) (st : σ), AnswersBaselines ask st subjects →
      (decodeBatchesWith ask (encodeBatches serverTick subjects maxBytes .delta) st).map Prod.fst =
        some subjects) ∧
    (∀ (σ : Type) (ask : σ → U32 → U32 × σ) (st : σ),
      (decodeBatchesWith ask (encodeBatches serverTick subjects maxBytes .absolute) st).map
        Prod.fst = some (subjects.map fun s => { s with baselineSeq := s.newSeq })) ∧
    ∀ mode : SeqEncoding,
      ((encodeBatches serverTick subjects maxBytes mode).map EncodedBatch.subjectCount).sum =
        subjects.length ∧
      ∀ b ∈ encodeBatches serverTick subjects maxBytes mode,
        b.payload.length ≤ maxBytes ∨ b.subjectCount = 1 := by
  have hdecode : ∀ (mode : SeqEncoding) (σ : Type) (ask : σ → U32 → U32 × σ) (st : σ),
      (mode = .delta → AnswersBaselines ask st subjects) →
      (decodeBatchesWith ask (encodeBatches serverTick subjects maxBytes mode) st).map Prod.fst =
        some (subjects.map (BatchSubject.received mode)) := by
    intro mode σ ask st ha
    obtain ⟨groups, hflat, hholds⟩ := encodeBatches_holds serverTick subjects maxBytes mode
    subst hflat
    rw [decodeBatchesWith_holds hholds hr ha, Option.map_some]
  refine ⟨fun σ ask st ha => ?_, fun σ ask st => ?_, fun mode => ⟨?_, ?_⟩⟩
  · have hd := hdecode .delta σ ask st fun _ => ha
    rwa [show BatchSubject.received .delta = id from rfl, List.map_id] at hd
  · exact hdecode .absolute σ ask st fun hm => nomatch hm
  · have hcount := encodeLoop_count serverTick maxBytes mode subjects (openBatch mode) 0
    rwa [Nat.zero_add] at hcount
  · exact encodeLoop_fits serverTick maxBytes mode subjects (openBatch mode) 0
      (Or.inr (Nat.zero_le 1))

/-- One subject twice, from two baselines that the closure hands out in turn. -/
theorem batches_roundTrip_twice :
    let subject : U32 → BatchSubject := fun baseline =>
      ⟨7, baseline, 9, 3, some 5 :: List.replicate 16 none, rfl⟩
    let ask : List U32 → U32 → U32 × List U32 := fun answers _ => (answers.headD 0, answers.tail)
    (decodeBatchesWith ask (encodeBatches 1 [subject 8, subject 4294967295] 9 .delta)
      [8, 4294967295]).map Prod.fst = some [subject 8, subject 4294967295] :=
  (batches_roundTrip 1 _ 9 (by decide)).1 (List U32) _ _ ⟨rfl, rfl, trivial⟩

end Catalyrst.Pulse
