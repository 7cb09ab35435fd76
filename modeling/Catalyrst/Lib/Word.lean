import Catalyrst.Lib.Instances

/-!
# Machine words and bytes

Unsigned words are `Fin` types, so a value always fits its width. A 32-bit word
is laid out in four little-endian bytes.
-/

namespace Catalyrst.Lib

abbrev Byte := Fin 256
abbrev Bytes := List Byte
abbrev U16 := Fin 65536
abbrev U32 := Fin 4294967296

def u16Max : U16 := 65535
def u32Max : U32 := 4294967295

theorem le_u16Max (v : U16) : v ≤ u16Max := by
  have h : (u16Max : U16).val = 65535 := rfl
  exact Fin.le_def.mpr (by omega)

theorem le_u32Max (v : U32) : v ≤ u32Max := by
  have h : (u32Max : U32).val = 4294967295 := rfl
  exact Fin.le_def.mpr (by omega)

/-- `u32::saturating_add`, read as a natural number. -/
def saturatingAdd (a b : U32) : ℕ := min (a.val + b.val) 4294967295

/-! ### Clocks that wrap around -/

/-- A millisecond counter as a word. -/
def wrapped (t : ℕ) : U32 := Fin.ofNat 4294967296 t

/-- The difference of two readings is the time between them, short of full turns. -/
theorem wrapped_sub {t₀ t : ℕ} (h : t₀ ≤ t) :
    (wrapped t - wrapped t₀).val = (t - t₀) % 4294967296 := by
  have hval : (wrapped t - wrapped t₀).val =
      (4294967296 - t₀ % 4294967296 + t % 4294967296) % 4294967296 := rfl
  rw [hval]
  omega

theorem wrapped_sub_of_lt {t₀ t : ℕ} (h : t₀ ≤ t) (hlt : t < t₀ + 4294967296) :
    (wrapped t - wrapped t₀).val = t - t₀ := by
  rw [wrapped_sub h]
  omega

/-! ### Bytes -/

def byteOf (n : ℕ) : Byte := ⟨n % 256, Nat.mod_lt _ (by norm_num)⟩

/-- `u32::to_le_bytes`. -/
def leBytes (v : U32) : Bytes :=
  [byteOf v.val, byteOf (v.val / 256), byteOf (v.val / 65536), byteOf (v.val / 16777216)]

/-- `u32::from_le_bytes`. -/
def leWord (a b c d : Byte) : U32 :=
  ⟨a.val + 256 * b.val + 65536 * c.val + 16777216 * d.val, by omega⟩

/-- `u32::to_be_bytes`. -/
def beBytes (v : U32) : Bytes :=
  [byteOf (v.val / 16777216), byteOf (v.val / 65536), byteOf (v.val / 256), byteOf v.val]

/-- `u32::from_be_bytes`. -/
def beWord (a b c d : Byte) : U32 := leWord d c b a

theorem leBytes_length (v : U32) : (leBytes v).length = 4 := rfl

theorem leWord_leBytes (v : U32) :
    leWord (byteOf v.val) (byteOf (v.val / 256)) (byteOf (v.val / 65536))
      (byteOf (v.val / 16777216)) = v := by
  have hv := v.isLt
  apply Fin.ext
  simp only [leWord, byteOf]
  omega

end Catalyrst.Lib
