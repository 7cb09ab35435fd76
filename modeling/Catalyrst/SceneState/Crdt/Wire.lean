import Catalyrst.Lib.Word

/-!
# Entity ids and the CRDT wire format (`crdt.rs`)

A packed entity id is `number | generation << 16`. A batch is a concatenation
of records `len ty body`, two little-endian words of header and `len - 8` bytes
of body. `decode_batch` stops at the first record whose length field is below
the header or overruns the buffer, and skips a record it cannot read.
-/

namespace Catalyrst.SceneState
open Catalyrst.Lib

/-! ### Entity ids -/

def entityNumber (entity : U32) : U16 := ⟨entity.val % 65536, Nat.mod_lt _ (by norm_num)⟩

def entityGeneration (entity : U32) : U16 := ⟨entity.val / 65536, by omega⟩

def packEntity (number generation : U16) : U32 := ⟨number.val + generation.val * 65536, by omega⟩

@[simp] theorem entityNumber_packEntity (n g : U16) : entityNumber (packEntity n g) = n := by
  apply Fin.ext
  simp only [entityNumber, packEntity]
  omega

@[simp] theorem entityGeneration_packEntity (n g : U16) :
    entityGeneration (packEntity n g) = g := by
  apply Fin.ext
  simp only [entityGeneration, packEntity]
  omega

/-! ### Messages -/

inductive CrdtMessage where
  | put (entity componentId timestamp : U32) (data : Bytes)
  | deleteComponent (entity componentId timestamp : U32)
  | deleteEntity (entity : U32)
  | append (entity componentId timestamp : U32) (data : Bytes)
  deriving DecidableEq

def CrdtMessage.entity : CrdtMessage → U32
  | .put entity _ _ _ => entity
  | .deleteComponent entity _ _ => entity
  | .deleteEntity entity => entity
  | .append entity _ _ _ => entity

def CrdtMessage.payloadLength : CrdtMessage → ℕ
  | .put _ _ _ data => data.length
  | .append _ _ _ data => data.length
  | _ => 0

/-- The record of the message has a length that fits its `u32` field. -/
def CrdtMessage.Fits (m : CrdtMessage) : Prop := m.payloadLength + 24 < 4294967296

instance (m : CrdtMessage) : Decidable m.Fits := inferInstanceAs (Decidable (_ < _))

namespace MsgType
def PUT_COMPONENT : U32 := 1
def DELETE_COMPONENT : U32 := 2
def DELETE_ENTITY : U32 := 3
def APPEND_VALUE : U32 := 4
end MsgType

/-! ### Decoding -/

/-- `read_u32`: the little-endian word at offset `off`, if the buffer holds it. -/
def readU32 (buf : Bytes) (off : ℕ) : Option U32 :=
  match buf.drop off with
  | a :: b :: c :: d :: _ => some (leWord a b c d)
  | _ => none

/-- The message of one framed record; `none` when the record is skipped. -/
def decodeRecord (ty : U32) (body : Bytes) : Option CrdtMessage :=
  if (ty = MsgType.PUT_COMPONENT ∨ ty = MsgType.APPEND_VALUE) ∧ 16 ≤ body.length then do
    let entity ← readU32 body 0
    let componentId ← readU32 body 4
    let timestamp ← readU32 body 8
    let dataLen ← readU32 body 12
    -- exactly the declared payload, neither more nor less
    if 16 + dataLen.val ≠ body.length then none
    else
      let data := (body.drop 16).take dataLen.val
      some (if ty = MsgType.PUT_COMPONENT then .put entity componentId timestamp data
        else .append entity componentId timestamp data)
  else if ty = MsgType.DELETE_COMPONENT ∧ 12 ≤ body.length then do
    let entity ← readU32 body 0
    let componentId ← readU32 body 4
    let timestamp ← readU32 body 8
    some (.deleteComponent entity componentId timestamp)
  else if ty = MsgType.DELETE_ENTITY ∧ 4 ≤ body.length then do
    let entity ← readU32 body 0
    some (.deleteEntity entity)
  else none

/-- The `while` loop of `decode_batch` on the unread rest of the buffer. Every
iteration consumes at least a header, so the buffer's length is enough fuel. -/
def decodeFrom : ℕ → Bytes → List CrdtMessage
  | 0, _ => []
  | fuel + 1, buf =>
    if 8 ≤ buf.length then
      match readU32 buf 0, readU32 buf 4 with
      | some len, some ty =>
        -- an unframeable record discards the rest of the batch
        if len.val < 8 ∨ buf.length < len.val then []
        else (decodeRecord ty ((buf.take len.val).drop 8)).toList ++
          decodeFrom fuel (buf.drop len.val)
      | _, _ => []
    else []

def decodeBatch (buf : Bytes) : List CrdtMessage := decodeFrom buf.length buf

/-! ### Encoding -/

/-- `as u32` of a length. -/
def wrap32 (n : ℕ) : U32 := ⟨n % 4294967296, mod_u32_lt n⟩

def encodeData (ty entity componentId timestamp : U32) (data : Bytes) : Bytes :=
  leBytes (wrap32 (8 + 16 + data.length)) ++ leBytes ty ++ leBytes entity ++
    leBytes componentId ++ leBytes timestamp ++ leBytes (wrap32 data.length) ++ data

def encodeMessage : CrdtMessage → Bytes
  | .put entity componentId timestamp data =>
    encodeData MsgType.PUT_COMPONENT entity componentId timestamp data
  | .append entity componentId timestamp data =>
    encodeData MsgType.APPEND_VALUE entity componentId timestamp data
  | .deleteComponent entity componentId timestamp =>
    leBytes 20 ++ leBytes MsgType.DELETE_COMPONENT ++ leBytes entity ++
      leBytes componentId ++ leBytes timestamp
  | .deleteEntity entity =>
    leBytes 12 ++ leBytes MsgType.DELETE_ENTITY ++ leBytes entity

def encodeBatch (msgs : List CrdtMessage) : Bytes := msgs.flatMap encodeMessage

/-- `decode_client_batch`: keep the messages whose entity number is in
`[start, start + size)`. -/
def decodeClientBatch (body : Bytes) (start size : U32) : List CrdtMessage :=
  (decodeBatch body).filter fun m =>
    decide (start.val ≤ (entityNumber m.entity).val ∧
      (entityNumber m.entity).val < saturatingAdd start size)

/-! ### Frames (`protocol.rs`) -/

inductive MessageType where
  | auth
  | init
  | crdt
  deriving DecidableEq

namespace MessageType

def toU8 : MessageType → Byte
  | .auth => 1
  | .init => 2
  | .crdt => 3

def fromU8 (v : Byte) : Option MessageType :=
  if v = 1 then some .auth else if v = 2 then some .init else if v = 3 then some .crdt else none

end MessageType

namespace Protocol

def decodeMessage : Bytes → Option (MessageType × Bytes)
  | [] => none
  | tag :: rest => (MessageType.fromU8 tag).map fun ty => (ty, rest)

def encodeMessage (ty : MessageType) (message : Bytes) : Bytes := ty.toU8 :: message

theorem decodeMessage_encodeMessage (ty : MessageType) (message : Bytes) :
    decodeMessage (encodeMessage ty message) = some (ty, message) := by
  cases ty <;> rfl

end Protocol

/-! ### Reading back what was written -/

theorem readU32_leBytes (v : U32) (rest : Bytes) : readU32 (leBytes v ++ rest) 0 = some v := by
  simp only [readU32, leBytes, List.drop_zero, List.cons_append, List.nil_append,
    leWord_leBytes]

theorem readU32_skip (v : U32) (rest : Bytes) (off : ℕ) :
    readU32 (leBytes v ++ rest) (off + 4) = readU32 rest off := by
  simp only [readU32, leBytes, List.cons_append, List.nil_append, List.drop_succ_cons]

theorem wrap32_val (n : ℕ) (h : n < 4294967296) : (wrap32 n).val = n := Nat.mod_eq_of_lt h

theorem decodeRecord_data (ty entity componentId timestamp : U32) (data : Bytes)
    (hty : ty = MsgType.PUT_COMPONENT ∨ ty = MsgType.APPEND_VALUE)
    (hfit : data.length + 24 < 4294967296) :
    decodeRecord ty (leBytes entity ++ (leBytes componentId ++ (leBytes timestamp ++
      (leBytes (wrap32 data.length) ++ data)))) =
      some (if ty = MsgType.PUT_COMPONENT then .put entity componentId timestamp data
        else .append entity componentId timestamp data) := by
  have hlen : (leBytes entity ++ (leBytes componentId ++ (leBytes timestamp ++
      (leBytes (wrap32 data.length) ++ data)))).length = 16 + data.length := by
    simp only [List.length_append, leBytes_length]
    omega
  have hdata : (leBytes entity ++ (leBytes componentId ++ (leBytes timestamp ++
      (leBytes (wrap32 data.length) ++ data)))).drop 16 = data := by
    simp only [leBytes, List.cons_append, List.nil_append, List.drop_succ_cons, List.drop_zero]
  have hval := wrap32_val data.length (by omega)
  have hcond : (ty = MsgType.PUT_COMPONENT ∨ ty = MsgType.APPEND_VALUE) ∧
      16 ≤ 16 + data.length := ⟨hty, by omega⟩
  have hw : ¬ 16 + (wrap32 data.length).val ≠ 16 + data.length := by
    rw [hval]
    simp
  simp only [decodeRecord, hlen]
  rw [if_pos hcond, readU32_leBytes, readU32_skip _ _ 0, readU32_leBytes,
    readU32_skip _ _ 4, readU32_skip _ _ 0, readU32_leBytes,
    readU32_skip _ _ 8, readU32_skip _ _ 4, readU32_skip _ _ 0, readU32_leBytes]
  simp only [Option.bind_eq_bind, Option.bind_some]
  rw [if_neg hw, hdata, hval, List.take_length]

/-- One framed record in front of the rest of a buffer. -/
theorem decodeFrom_record (fuel : ℕ) (len ty : U32) (body rest : Bytes)
    (hlen : len.val = 8 + body.length) :
    decodeFrom (fuel + 1) (leBytes len ++ (leBytes ty ++ (body ++ rest))) =
      (decodeRecord ty body).toList ++ decodeFrom fuel rest := by
  have htotal : (leBytes len ++ (leBytes ty ++ (body ++ rest))).length =
      len.val + rest.length := by
    simp only [List.length_append, leBytes_length]
    omega
  have hassoc : leBytes len ++ (leBytes ty ++ (body ++ rest)) =
      (leBytes len ++ (leBytes ty ++ body)) ++ rest := by
    simp only [List.append_assoc]
  have hhead : (leBytes len ++ (leBytes ty ++ body)).length = len.val := by
    simp only [List.length_append, leBytes_length]
    omega
  have htake : (leBytes len ++ (leBytes ty ++ (body ++ rest))).take len.val =
      leBytes len ++ (leBytes ty ++ body) := by
    rw [hassoc, ← hhead, List.take_left]
  have hdrop : (leBytes len ++ (leBytes ty ++ (body ++ rest))).drop len.val = rest := by
    rw [hassoc, ← hhead, List.drop_left]
  have hbody : (leBytes len ++ (leBytes ty ++ body)).drop 8 = body := by
    simp only [leBytes, List.cons_append, List.nil_append, List.drop_succ_cons, List.drop_zero]
  have hbig : 8 ≤ len.val + rest.length := by omega
  have hframed : ¬ (len.val < 8 ∨ len.val + rest.length < len.val) := by omega
  rw [decodeFrom, htotal, if_pos hbig, readU32_leBytes, readU32_skip _ _ 0, readU32_leBytes]
  simp only [if_neg hframed, htake, hdrop, hbody]

theorem decodeFrom_encodeData (fuel : ℕ) (ty entity componentId timestamp : U32)
    (data rest : Bytes) (hty : ty = MsgType.PUT_COMPONENT ∨ ty = MsgType.APPEND_VALUE)
    (hfit : data.length + 24 < 4294967296) :
    decodeFrom (fuel + 1) (encodeData ty entity componentId timestamp data ++ rest) =
      (if ty = MsgType.PUT_COMPONENT then .put entity componentId timestamp data
        else .append entity componentId timestamp data) :: decodeFrom fuel rest := by
  have hbody : leBytes entity ++ (leBytes componentId ++ (leBytes timestamp ++
      (leBytes (wrap32 data.length) ++ (data ++ rest)))) =
      (leBytes entity ++ (leBytes componentId ++ (leBytes timestamp ++
        (leBytes (wrap32 data.length) ++ data)))) ++ rest := by
    simp only [List.append_assoc]
  simp only [encodeData, List.append_assoc]
  rw [hbody, decodeFrom_record, decodeRecord_data _ _ _ _ _ hty hfit]
  · rfl
  · rw [wrap32_val _ (by omega)]
    simp only [List.length_append, leBytes_length]
    omega

theorem decodeFrom_encodeMessage (fuel : ℕ) (m : CrdtMessage) (rest : Bytes) (hf : m.Fits) :
    decodeFrom (fuel + 1) (encodeMessage m ++ rest) = m :: decodeFrom fuel rest := by
  cases m with
  | put entity componentId timestamp data =>
    exact decodeFrom_encodeData fuel _ entity componentId timestamp data rest (Or.inl rfl) hf
  | append entity componentId timestamp data =>
    exact decodeFrom_encodeData fuel _ entity componentId timestamp data rest (Or.inr rfl) hf
  | deleteComponent entity componentId timestamp =>
    have hrec : decodeRecord MsgType.DELETE_COMPONENT
        (leBytes entity ++ (leBytes componentId ++ leBytes timestamp)) =
        some (.deleteComponent entity componentId timestamp) := by
      have ht : leBytes timestamp = leBytes timestamp ++ [] := (List.append_nil _).symm
      rw [ht]
      have hlen : 12 ≤ (leBytes entity ++ (leBytes componentId ++
          (leBytes timestamp ++ []))).length := by
        simp [leBytes_length]
      rw [decodeRecord, if_neg (by simp [MsgType.DELETE_COMPONENT, MsgType.PUT_COMPONENT,
        MsgType.APPEND_VALUE]), if_pos ⟨rfl, hlen⟩, readU32_leBytes, readU32_skip _ _ 0,
        readU32_leBytes, readU32_skip _ _ 4, readU32_skip _ _ 0, readU32_leBytes]
      rfl
    simp only [encodeMessage, List.append_assoc]
    rw [show leBytes entity ++ (leBytes componentId ++ (leBytes timestamp ++ rest)) =
      (leBytes entity ++ (leBytes componentId ++ leBytes timestamp)) ++ rest by
        simp only [List.append_assoc], decodeFrom_record _ _ _ _ _ rfl, hrec]
    simp
  | deleteEntity entity =>
    have hrec : decodeRecord MsgType.DELETE_ENTITY (leBytes entity) =
        some (.deleteEntity entity) := by
      have ht : leBytes entity = leBytes entity ++ [] := (List.append_nil _).symm
      rw [ht]
      have hlen : 4 ≤ (leBytes entity ++ []).length := by simp [leBytes_length]
      rw [decodeRecord, if_neg (by simp [MsgType.DELETE_ENTITY, MsgType.PUT_COMPONENT,
        MsgType.APPEND_VALUE]), if_neg (by simp [MsgType.DELETE_ENTITY,
        MsgType.DELETE_COMPONENT]), if_pos ⟨rfl, hlen⟩, readU32_leBytes]
      rfl
    simp only [encodeMessage, List.append_assoc]
    rw [decodeFrom_record _ _ _ _ _ rfl, hrec]
    simp

theorem encodeMessage_length (m : CrdtMessage) : 12 ≤ (encodeMessage m).length := by
  cases m <;> simp only [encodeMessage, encodeData, List.length_append, leBytes_length] <;> omega

theorem encodeBatch_cons (m : CrdtMessage) (msgs : List CrdtMessage) :
    encodeBatch (m :: msgs) = encodeMessage m ++ encodeBatch msgs := rfl

theorem encodeBatch_append (a b : List CrdtMessage) :
    encodeBatch (a ++ b) = encodeBatch a ++ encodeBatch b := by
  simp only [encodeBatch, List.flatMap_append]

theorem encodeBatch_length (msgs : List CrdtMessage) :
    12 * msgs.length ≤ (encodeBatch msgs).length := by
  induction msgs with
  | nil => simp
  | cons m msgs ih =>
    have hm := encodeMessage_length m
    rw [encodeBatch_cons, List.length_append, List.length_cons]
    omega

theorem decodeFrom_encodeBatch (msgs : List CrdtMessage) (hf : ∀ m ∈ msgs, m.Fits) (fuel : ℕ)
    (hfuel : msgs.length ≤ fuel) : decodeFrom fuel (encodeBatch msgs) = msgs := by
  induction msgs generalizing fuel with
  | nil => cases fuel <;> simp [decodeFrom, encodeBatch]
  | cons m msgs ih =>
    cases fuel with
    | zero => simp at hfuel
    | succ fuel =>
      have hm := hf m (List.mem_cons_self ..)
      have hms : ∀ x ∈ msgs, x.Fits := fun x hx => hf x (List.mem_cons_of_mem _ hx)
      rw [encodeBatch_cons, decodeFrom_encodeMessage fuel m _ hm,
        ih hms fuel (by simpa using hfuel)]

/-- Decoding an encoded batch gives the messages back. -/
theorem decodeBatch_encodeBatch (msgs : List CrdtMessage) (hf : ∀ m ∈ msgs, m.Fits) :
    decodeBatch (encodeBatch msgs) = msgs := by
  have hlen := encodeBatch_length msgs
  exact decodeFrom_encodeBatch msgs hf _ (by omega)

/-! ### What is decoded is short enough to be encoded again -/

theorem decodeRecord_fits (ty : U32) (body : Bytes) (m : CrdtMessage)
    (hlen : 8 + body.length < 4294967296) (h : decodeRecord ty body = some m) : m.Fits := by
  unfold decodeRecord at h
  split at h
  · obtain ⟨e, _, h⟩ := Option.bind_eq_some_iff.mp h
    obtain ⟨c, _, h⟩ := Option.bind_eq_some_iff.mp h
    obtain ⟨t, _, h⟩ := Option.bind_eq_some_iff.mp h
    obtain ⟨n, _, h⟩ := Option.bind_eq_some_iff.mp h
    split at h
    · cases h
    · rename_i hn
      have hmin : ((body.drop 16).take n.val).length + 24 < 4294967296 := by
        rw [List.length_take, List.length_drop]
        omega
      have hm := Option.some.inj h
      split at hm <;> subst hm <;> exact hmin
  · split at h
    · obtain ⟨e, _, h⟩ := Option.bind_eq_some_iff.mp h
      obtain ⟨c, _, h⟩ := Option.bind_eq_some_iff.mp h
      obtain ⟨t, _, h⟩ := Option.bind_eq_some_iff.mp h
      have hm := Option.some.inj h
      subst hm
      show (0 : ℕ) + 24 < 4294967296
      norm_num
    · split at h
      · obtain ⟨e, _, h⟩ := Option.bind_eq_some_iff.mp h
        have hm := Option.some.inj h
        subst hm
        show (0 : ℕ) + 24 < 4294967296
        norm_num
      · cases h

theorem decodeFrom_fits (fuel : ℕ) (buf : Bytes) : ∀ m ∈ decodeFrom fuel buf, m.Fits := by
  induction fuel generalizing buf with
  | zero =>
    intro m hm
    cases hm
  | succ fuel ih =>
    intro m hm
    rw [decodeFrom] at hm
    split at hm
    · split at hm
      · rename_i len ty _ _
        split at hm
        · cases hm
        · rename_i hframe
          rcases List.mem_append.mp hm with hm | hm
          · have hlen : 8 + ((buf.take len.val).drop 8).length < 4294967296 := by
              rw [List.length_drop, List.length_take]
              omega
            exact decodeRecord_fits ty _ m hlen (Option.mem_toList.mp hm)
          · exact ih _ m hm
      · cases hm
    · cases hm

theorem decodeBatch_fits (buf : Bytes) : ∀ m ∈ decodeBatch buf, m.Fits := decodeFrom_fits _ buf

/-! ### The unread rest of a buffer -/

/-- Fuel beyond the buffer's length changes nothing: an iteration consumes a header. -/
theorem decodeFrom_fuel (fuel fuel' : ℕ) (buf : Bytes) (h : buf.length ≤ fuel)
    (h' : buf.length ≤ fuel') : decodeFrom fuel buf = decodeFrom fuel' buf := by
  induction fuel generalizing fuel' buf with
  | zero =>
    have hnil : buf = [] := List.eq_nil_of_length_eq_zero (by omega)
    subst hnil
    cases fuel' with
    | zero => rfl
    | succ fuel' => simp [decodeFrom]
  | succ fuel ih =>
    cases fuel' with
    | zero =>
      have hnil : buf = [] := List.eq_nil_of_length_eq_zero (by omega)
      subst hnil
      simp [decodeFrom]
    | succ fuel' =>
      rw [decodeFrom, decodeFrom]
      split
      · split
        · rename_i len ty _ _
          split
          · rfl
          · rename_i hframe
            have hdrop : (buf.drop len.val).length + 8 ≤ buf.length := by
              rw [List.length_drop]
              omega
            rw [ih fuel' (buf.drop len.val) (by omega) (by omega)]
        · rfl
      · rfl

theorem decodeBatch_record (len ty : U32) (body rest : Bytes) (hlen : len.val = 8 + body.length) :
    decodeBatch (leBytes len ++ (leBytes ty ++ (body ++ rest))) =
      (decodeRecord ty body).toList ++ decodeBatch rest := by
  have htotal : (leBytes len ++ (leBytes ty ++ (body ++ rest))).length =
      (body.length + rest.length + 7) + 1 := by
    simp only [List.length_append, leBytes_length]
    omega
  rw [decodeBatch, htotal, decodeFrom_record _ len ty body rest hlen, decodeBatch,
    decodeFrom_fuel _ rest.length rest (by omega) le_rfl]

theorem decodeBatch_encodeMessage (m : CrdtMessage) (rest : Bytes) (hf : m.Fits) :
    decodeBatch (encodeMessage m ++ rest) = m :: decodeBatch rest := by
  have hm := encodeMessage_length m
  have htotal : (encodeMessage m ++ rest).length =
      ((encodeMessage m).length - 1 + rest.length) + 1 := by
    rw [List.length_append]
    omega
  rw [decodeBatch, htotal, decodeFrom_encodeMessage _ m rest hf, decodeBatch,
    decodeFrom_fuel _ rest.length rest (by omega) le_rfl]

theorem decodeBatch_encodeBatch_append (msgs : List CrdtMessage) (rest : Bytes)
    (hf : ∀ m ∈ msgs, m.Fits) :
    decodeBatch (encodeBatch msgs ++ rest) = msgs ++ decodeBatch rest := by
  induction msgs with
  | nil => rfl
  | cons m msgs ih =>
    have hm := hf m (List.mem_cons_self ..)
    have hms : ∀ x ∈ msgs, x.Fits := fun x hx => hf x (List.mem_cons_of_mem _ hx)
    rw [encodeBatch_cons, List.append_assoc, decodeBatch_encodeMessage m _ hm, ih hms,
      List.cons_append]

/-- The message types that the decoder reads. -/
def MsgType.Known (ty : U32) : Prop :=
  ty = PUT_COMPONENT ∨ ty = DELETE_COMPONENT ∨ ty = DELETE_ENTITY ∨ ty = APPEND_VALUE

instance (ty : U32) : Decidable (MsgType.Known ty) := inferInstanceAs (Decidable (_ ∨ _))

theorem decodeRecord_unknown (ty : U32) (body : Bytes) (hty : ¬ MsgType.Known ty) :
    decodeRecord ty body = none := by
  have hput : ¬ ty = MsgType.PUT_COMPONENT := fun h => hty (Or.inl h)
  have hdel : ¬ ty = MsgType.DELETE_COMPONENT := fun h => hty (Or.inr (Or.inl h))
  have hent : ¬ ty = MsgType.DELETE_ENTITY := fun h => hty (Or.inr (Or.inr (Or.inl h)))
  have happ : ¬ ty = MsgType.APPEND_VALUE := fun h => hty (Or.inr (Or.inr (Or.inr h)))
  simp only [decodeRecord, hput, hdel, hent, happ, or_self, false_and, if_false]

theorem decodeBatch_unknown (len ty : U32) (body rest : Bytes)
    (hlen : len.val = 8 + body.length) (hty : ¬ MsgType.Known ty) :
    decodeBatch (leBytes len ++ (leBytes ty ++ (body ++ rest))) = decodeBatch rest := by
  rw [decodeBatch_record len ty body rest hlen, decodeRecord_unknown ty body hty]
  rfl

/-- The wire format is a round trip on messages that fit, decoding is stable under
re-encoding for any bytes, and a framed record of an unknown type leaves no trace. -/
theorem wire_roundTrip :
    (∀ msgs : List CrdtMessage, (∀ m ∈ msgs, m.Fits) → decodeBatch (encodeBatch msgs) = msgs) ∧
    (∀ b : Bytes, decodeBatch (encodeBatch (decodeBatch b)) = decodeBatch b) ∧
    ∀ (before : List CrdtMessage) (len ty : U32) (body rest : Bytes),
      (∀ m ∈ before, m.Fits) → len.val = 8 + body.length → ¬ MsgType.Known ty →
      decodeBatch (encodeBatch before ++ (leBytes len ++ (leBytes ty ++ (body ++ rest)))) =
        decodeBatch (encodeBatch before ++ rest) := by
  refine ⟨decodeBatch_encodeBatch, fun b => ?_, ?_⟩
  · exact decodeBatch_encodeBatch _ (decodeBatch_fits b)
  · intro before len ty body rest hf hlen hty
    rw [decodeBatch_encodeBatch_append before _ hf, decodeBatch_encodeBatch_append before _ hf,
      decodeBatch_unknown len ty body rest hlen hty]

theorem wire_roundTrip_example :
    decodeBatch (encodeBatch [.deleteEntity 7] ++
      (leBytes 9 ++ (leBytes 99 ++ ([5] ++ encodeBatch [.put 7 1 2 [3, 4]])))) =
      decodeBatch (encodeBatch [.deleteEntity 7] ++ encodeBatch [.put 7 1 2 [3, 4]]) ∧
    decodeBatch (encodeBatch [.deleteEntity 7, .put 7 1 2 [3, 4]]) =
      [.deleteEntity 7, .put 7 1 2 [3, 4]] :=
  ⟨wire_roundTrip.2.2 [.deleteEntity 7] 9 99 [5] _ (by decide) rfl (by decide),
    wire_roundTrip.1 [.deleteEntity 7, .put 7 1 2 [3, 4]] (by decide)⟩

end Catalyrst.SceneState
