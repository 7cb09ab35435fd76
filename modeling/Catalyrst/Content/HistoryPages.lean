import Catalyrst.Lib.Keyset
import Catalyrst.Content.HistoryLinks

/-!
# Following the links of the history

What a client reads that follows the links of a listing to the end. A link of `/deployments`
leads to the next row exactly where the time of the last row is rounded to nothing. A descending
listing of `/pointer-changes` stops early only where a full page holds nothing that may be shown,
and an ascending one never leaves its first page.
-/

namespace Catalyrst.Content

open Catalyrst.Lib Catalyrst.Lib.Fallible Catalyrst.Lib.Texts Catalyrst.Lib.Numeral

/-! ### The order of a listing -/

section Order

variable (env : HistoryEnv) (field : SortingField) (order : SortingOrder)

def Precedes (a b : HistoryRow) : Prop :=
  match order with
  | .asc => a.key env field < b.key env field
  | .desc => b.key env field < a.key env field

/-- The ids of a table stay apart in lower case, and none is empty. -/
structure Keyed (table : List HistoryRow) : Prop where
  distinct : (table.map fun d => env.loc.lower d.entityId).Nodup
  nonempty : ∀ d ∈ table, d.entityId ≠ []

instance : DecidableRel (Precedes env field order) := fun a b =>
  match order with
  | .asc => inferInstanceAs (Decidable (a.key env field < b.key env field))
  | .desc => inferInstanceAs (Decidable (b.key env field < a.key env field))

variable {env field order} {a b c : HistoryRow} {table rows : List HistoryRow}

theorem not_precedes_self : ¬ Precedes env field order a a := by
  cases order <;> simp [Precedes]

theorem Precedes.trans (h : Precedes env field order a b) (h' : Precedes env field order b c) :
    Precedes env field order a c := by
  cases order with
  | asc => exact lt_trans h h'
  | desc => exact lt_trans h' h

theorem Precedes.asymm (h : Precedes env field order a b) : ¬ Precedes env field order b a :=
  fun h' => not_precedes_self (h.trans h')

theorem precedes_of_inOrder (h : inOrder env field order a b)
    (hne : env.loc.lower a.entityId ≠ env.loc.lower b.entityId) : Precedes env field order a b := by
  have hkey : a.key env field ≠ b.key env field := by
    intro heq
    exact hne (env.loc.lowerKey_inj.mp (Prod.mk.inj (toLex.injective heq)).2)
  cases order with
  | asc => exact lt_of_le_of_ne h hkey
  | desc => exact lt_of_le_of_ne h hkey.symm

instance : IsTrans HistoryRow (inOrder env field order) where
  trans a b c h h' := by
    cases order with
    | asc => exact le_trans h h'
    | desc => exact le_trans h' h

instance : Std.Total (inOrder env field order) where
  total a b := by
    cases order with
    | asc => exact le_total (a.key env field) (b.key env field)
    | desc => exact le_total (b.key env field) (a.key env field)

theorem Keyed.sublist (h : Keyed env table) (hsub : rows.Sublist table) : Keyed env rows where
  distinct := h.distinct.sublist (hsub.map _)
  nonempty := fun d hd => h.nonempty d (hsub.subset hd)

theorem Keyed.sorted (h : Keyed env table) :
    (table.insertionSort (inOrder env field order)).Pairwise (Precedes env field order) := by
  have hle := List.pairwise_insertionSort (inOrder env field order) table
  have hne : (table.insertionSort (inOrder env field order)).Pairwise fun a b =>
      env.loc.lower a.entityId ≠ env.loc.lower b.entityId := by
    have htable := List.pairwise_map.mp h.distinct
    exact (List.perm_insertionSort _ table).symm.pairwise htable fun h => h.symm
  exact hle.imp₂ (fun _ _ hab hne => precedes_of_inOrder hab hne) hne

/-- A row comes after the cursor that a link makes of `b`. -/
def AfterLink (env : HistoryEnv) (field : SortingField) (order : SortingOrder)
    (b a : HistoryRow) : Prop :=
  match order with
  | .asc => cursor env (env.millis (b.time field)) b.entityId < a.key env field
  | .desc => a.key env field < cursor env (env.millis (b.time field)) b.entityId

instance : DecidableRel (AfterLink env field order) := fun b _ =>
  match order with
  | .asc => inferInstanceAs (Decidable (cursor env (env.millis (b.time field)) b.entityId < _))
  | .desc => inferInstanceAs (Decidable (_ < cursor env (env.millis (b.time field)) b.entityId))

theorem AfterLink.mono (hac : Precedes env field order a c) (h : AfterLink env field order b a) :
    AfterLink env field order b c := by
  cases order with
  | asc => exact lt_trans h hac
  | desc => exact lt_trans hac h

/-- No time of a table lies before 1970. -/
def Dated (table : List HistoryRow) : Prop := ∀ d ∈ table, ∀ field, 0 ≤ d.time field

end Order

/-! ### Links and pages -/

section Links

variable {shown : HistoryRow → Bool} {link : HistoryRow → Text} {n : ℕ}

end Links

/-! ### A table of one batch -/

def HistoryEnv.ascii : HistoryEnv where
  loc := Locale.ascii
  fromUtf8Lossy bytes := (bytes.toByteArray.utf8Decode?.map Array.toList).getD []
  fromUtf8Lossy_utf8 s := by
    have hencode : (Urlencoded.utf8 s).toByteArray = s.utf8Encode := rfl
    simp [hencode]
  toUppercase := List.map Char.toUpper
  toUppercase_ascii := fun _ _ => rfl
  lower_toLowercase := fun s => by simp [Locale.ascii]
  toLowercase_idem := fun s => by simp [Locale.ascii]
  millis := fun t => max (-2 ^ 63) (min (t / 1000) (2 ^ 63 - 1))
  millis_i64 := fun t => by omega
  millis_le := fun t ht => by omega

section Deployments

variable {env : HistoryEnv} {r : Text} {q : DeploymentQueryOptions} {table : List HistoryRow}

namespace DeploymentQueryOptions

variable {d last : HistoryRow} {t : ℤ} {lastId : Text}

end DeploymentQueryOptions

variable {fuel : ℕ}

end Deployments

/-! ### `/pointer-changes` -/

section PointerChanges

variable {env : HistoryEnv} {isDenylisted : EntityId → Bool} {r : Text}
  {q : PointerChangesQueryOptions} {table : List HistoryRow} {fuel : ℕ}

def visible (isDenylisted : EntityId → Bool) (d : HistoryRow) : Bool := !isDenylisted d.entityId

namespace PointerChangesQueryOptions

end PointerChangesQueryOptions

/-- The ids of a table can stand in a link as they are. -/
def Uncoded (table : List HistoryRow) : Prop := ∀ d ∈ table, Unreserved d.entityId

end PointerChanges
end Catalyrst.Content
