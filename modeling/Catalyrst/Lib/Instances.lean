import Mathlib

/-!
# Instances of words, texts and orders

Definitions over words and texts need these facts again and again; named once, they keep the
terms small.
-/

namespace Catalyrst.Lib

instance transCmp_compare {κ : Type*} [LinearOrder κ] :
    Std.TransCmp (compare : κ → κ → Ordering) := inferInstance

/-! ### Words -/

instance neZero_byte : NeZero 256 := ⟨by decide⟩

instance neZero_u16 : NeZero 65536 := ⟨by decide⟩

instance neZero_u32 : NeZero 4294967296 := ⟨by decide⟩

instance transOrd_u16 : Std.TransOrd (Fin 65536) := Fin.instTransOrd _

instance transOrd_u32 : Std.TransOrd (Fin 4294967296) := Fin.instTransOrd _

theorem mod_u32_lt (n : ℕ) : n % 4294967296 < 4294967296 := Nat.mod_lt n (by decide)

/-! ### Texts -/

instance lawfulBEq_text : LawfulBEq (List Char) := List.instLawfulBEq

instance transCmp_text : Std.TransCmp (@compare (List Char) LinearOrder.toOrd) := inferInstance

end Catalyrst.Lib
