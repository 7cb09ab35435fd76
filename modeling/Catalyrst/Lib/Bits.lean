import Catalyrst.Lib.Word

/-!
# Bit streams

A stream is a list of bits, most significant bit first. Streams are packed into
bytes with zeros after the last bit, and read back a field of a given width at a
time.
-/

namespace Catalyrst.Lib.Bits

/-- The low `width` bits of a number. -/
def bitsOf (value : ℕ) : ℕ → List Bool
  | 0 => []
  | width + 1 => value.testBit width :: bitsOf value width

def natOfBits (bits : List Bool) : ℕ := bits.foldl (fun value bit => 2 * value + bit.toNat) 0

theorem bitsOf_length (value width : ℕ) : (bitsOf value width).length = width := by
  induction width with
  | zero => rfl
  | succ width ih => simp only [bitsOf, List.length_cons, ih]

theorem foldl_natOfBits (bits : List Bool) (value : ℕ) :
    bits.foldl (fun value bit => 2 * value + bit.toNat) value =
      value * 2 ^ bits.length + natOfBits bits := by
  induction bits generalizing value with
  | nil => simp [natOfBits]
  | cons bit bits ih =>
    simp only [natOfBits, List.foldl_cons, List.length_cons]
    rw [ih, ih, pow_succ]
    ring

theorem natOfBits_cons (bit : Bool) (bits : List Bool) :
    natOfBits (bit :: bits) = bit.toNat * 2 ^ bits.length + natOfBits bits := by
  rw [natOfBits, List.foldl_cons, foldl_natOfBits]
  simp

theorem natOfBits_lt (bits : List Bool) : natOfBits bits < 2 ^ bits.length := by
  induction bits with
  | nil => simp [natOfBits]
  | cons bit bits ih =>
    rw [natOfBits_cons, List.length_cons, pow_succ]
    cases bit with
    | false =>
      simp only [Bool.toNat_false, zero_mul, zero_add]
      omega
    | true =>
      simp only [Bool.toNat_true, one_mul]
      omega

/-- Writing a number and reading it back keeps its low bits. -/
theorem natOfBits_bitsOf (value width : ℕ) : natOfBits (bitsOf value width) = value % 2 ^ width := by
  induction width with
  | zero => simp [bitsOf, natOfBits, Nat.mod_one]
  | succ width ih =>
    rw [bitsOf, natOfBits_cons, bitsOf_length, ih, Nat.mod_pow_succ, Nat.toNat_testBit]
    ring

theorem natOfBits_inj {a b : List Bool} (hlen : a.length = b.length)
    (h : natOfBits a = natOfBits b) : a = b := by
  induction a generalizing b with
  | nil => exact (List.length_eq_zero_iff.mp hlen.symm).symm
  | cons x a ih =>
    cases b with
    | nil => cases hlen
    | cons y b =>
      have htail : a.length = b.length := Nat.succ.inj hlen
      have ha := natOfBits_lt a
      have hb := natOfBits_lt b
      rw [natOfBits_cons, natOfBits_cons, ← htail] at h
      rw [← htail] at hb
      cases x <;> cases y <;> simp only [Bool.toNat_false, Bool.toNat_true, zero_mul, one_mul,
        zero_add] at h
      · rw [ih htail h]
      · omega
      · omega
      · rw [ih htail (by omega)]

/-- Reading a stream as a number and writing it back is the identity. -/
theorem bitsOf_natOfBits (bits : List Bool) : bitsOf (natOfBits bits) bits.length = bits := by
  refine natOfBits_inj (bitsOf_length _ _) ?_
  rw [natOfBits_bitsOf, Nat.mod_eq_of_lt (natOfBits_lt bits)]

/-! ### Bytes -/

/-- Up to eight bits, padded with zeros. -/
def packByte (bits : List Bool) : Byte :=
  byteOf (natOfBits (bits ++ List.replicate (8 - bits.length) false))

def packFrom : ℕ → List Bool → Bytes
  | 0, _ => []
  | fuel + 1, bits =>
    if bits = [] then [] else packByte (bits.take 8) :: packFrom fuel (bits.drop 8)

/-- A byte for every eight bits; the recursion needs no more steps than bits. -/
def packBits (bits : List Bool) : Bytes := packFrom bits.length bits

def unpackBits (bytes : Bytes) : List Bool := bytes.flatMap fun b => bitsOf b.val 8

theorem bitsOf_packByte {bits : List Bool} (h : bits.length ≤ 8) :
    bitsOf (packByte bits).val 8 = bits ++ List.replicate (8 - bits.length) false := by
  have hlen : (bits ++ List.replicate (8 - bits.length) false).length = 8 := by
    rw [List.length_append, List.length_replicate]
    omega
  have hlt := natOfBits_lt (bits ++ List.replicate (8 - bits.length) false)
  rw [hlen] at hlt
  have hval : (packByte bits).val =
      natOfBits (bits ++ List.replicate (8 - bits.length) false) := Nat.mod_eq_of_lt hlt
  calc bitsOf (packByte bits).val 8
      = bitsOf (natOfBits (bits ++ List.replicate (8 - bits.length) false))
          (bits ++ List.replicate (8 - bits.length) false).length := by rw [hval, hlen]
    _ = bits ++ List.replicate (8 - bits.length) false := bitsOf_natOfBits _

/-- Unpacking gives back the stream, with zeros after its end. -/
theorem unpackBits_packFrom (fuel : ℕ) (bits : List Bool) (h : bits.length ≤ fuel) :
    ∃ n, unpackBits (packFrom fuel bits) = bits ++ List.replicate n false := by
  induction fuel generalizing bits with
  | zero =>
    refine ⟨0, ?_⟩
    rw [List.length_eq_zero_iff.mp (Nat.le_zero.mp h)]
    rfl
  | succ fuel ih =>
    by_cases hnil : bits = []
    · exact ⟨0, by simp [hnil, packFrom, unpackBits]⟩
    · have hpos : 0 < bits.length := List.length_pos_iff.mpr hnil
      obtain ⟨n, hn⟩ := ih (bits.drop 8) (by rw [List.length_drop]; omega)
      have hhead := bitsOf_packByte (List.length_take_le 8 bits)
      have hunpack : unpackBits (packFrom (fuel + 1) bits) =
          bitsOf (packByte (bits.take 8)).val 8 ++ unpackBits (packFrom fuel (bits.drop 8)) := by
        simp only [packFrom, hnil, if_false, unpackBits, List.flatMap_cons]
      rw [hunpack, hhead, hn]
      by_cases hfull : 8 ≤ bits.length
      · refine ⟨n, ?_⟩
        have hzero : 8 - (bits.take 8).length = 0 := by
          rw [List.length_take]
          omega
        rw [hzero, List.replicate_zero, List.append_nil, ← List.append_assoc,
          List.take_append_drop]
      · refine ⟨8 - bits.length + n, ?_⟩
        have htake : bits.take 8 = bits := List.take_of_length_le (by omega)
        have hdrop : bits.drop 8 = [] := List.drop_eq_nil_of_le (by omega)
        rw [htake, hdrop, List.nil_append, List.append_assoc, List.replicate_append_replicate]

theorem unpackBits_packBits (bits : List Bool) :
    ∃ n, unpackBits (packBits bits) = bits ++ List.replicate n false :=
  unpackBits_packFrom bits.length bits le_rfl

theorem packFrom_length (fuel : ℕ) (bits : List Bool) (h : bits.length ≤ fuel) :
    (packFrom fuel bits).length = (bits.length + 7) / 8 := by
  induction fuel generalizing bits with
  | zero =>
    rw [List.length_eq_zero_iff.mp (Nat.le_zero.mp h)]
    rfl
  | succ fuel ih =>
    by_cases hnil : bits = []
    · simp [hnil, packFrom]
    · have hpos : 0 < bits.length := List.length_pos_iff.mpr hnil
      have hdrop := ih (bits.drop 8) (by rw [List.length_drop]; omega)
      rw [List.length_drop] at hdrop
      simp only [packFrom, hnil, if_false, List.length_cons, hdrop]
      omega

/-- A byte for every eight bits, the last one started counts. -/
theorem packBits_length (bits : List Bool) : (packBits bits).length = (bits.length + 7) / 8 :=
  packFrom_length bits.length bits le_rfl

/-! ### Reading -/

/-- The next `width` bits as a number, and the rest; `none` at the end of the stream. -/
def readBits (width : ℕ) (bits : List Bool) : Option (ℕ × List Bool) :=
  if bits.length < width then none else some (natOfBits (bits.take width), bits.drop width)

theorem readBits_bitsOf (value width : ℕ) (rest : List Bool) :
    readBits width (bitsOf value width ++ rest) = some (value % 2 ^ width, rest) := by
  have hlen := bitsOf_length value width
  have hlong : ¬ (bitsOf value width ++ rest).length < width := by
    rw [List.length_append, hlen]
    omega
  rw [readBits, if_neg hlong, List.take_left' hlen, List.drop_left' hlen, natOfBits_bitsOf]

end Catalyrst.Lib.Bits
