import Mathlib
import Catalyrst.Credits.Ledger

/-!
# Refunds restore what was spent

A refund is clamped to what is left of the spends under its reference and gives the earned
credits back first. What is left is read off the ledger at each refund, so the bounds are an
invariant of the ledger: for each bucket, no more has been refunded than was spent.
-/

namespace Catalyrst.Credits

open Catalyrst.Lib Catalyrst.Lib.Fallible Catalyrst.Lib.Tally

namespace Db

variable (db : Db)

/-- What was spent or refunded under a reference, in one bucket. -/
def bucketSum (address : Address) (txRef : Text) (kind : Kind) (bucket : Bucket) : ℚ :=
  tally (fun r => r.address = address ∧ r.txRef = some txRef ∧ r.kind = kind ∧ r.bucket = bucket)
    LedgerRow.amount db.creditLedger

/-- What is left to refund. -/
def left (address : Address) (txRef : Text) (bucket : Bucket) : ℚ :=
  db.bucketSum address txRef .spend bucket - db.bucketSum address txRef .refund bucket

end Db

/-- The part of an amount that goes to a bucket. -/
def Bucket.part (earned paid : ℚ) : Bucket → ℚ
  | .earned => earned
  | .paid => paid

section Sums

variable {lower : Text → Text} {db db' : Db} {a : Address} {t : Text} {k : Kind} {earned paid : ℚ}

theorem ledgerSum_eq (db : Db) (a : Address) (t : Text) (k : Kind) :
    db.ledgerSum a t k = db.bucketSum a t k .earned + db.bucketSum a t k .paid := by
  unfold Db.ledgerSum Db.bucketSum
  rw [tally_split (q := fun r => r.bucket = .earned)]
  congr 1
  · refine tally_congr (fun r _ => ?_) fun _ _ _ => rfl
    simp [Bool.and_assoc]
  · refine tally_congr (fun r _ => ?_) fun _ _ _ => rfl
    cases r.bucket <;> simp

theorem bucketSum_congr (h : db'.creditLedger = db.creditLedger) (b : Bucket) :
    db'.bucketSum a t k b = db.bucketSum a t k b := by
  unfold Db.bucketSum
  rw [h]

/-- Rows for another wallet, reference or kind do not count. -/
theorem bucketSum_splitInsert {x : Address} {y : Option Text} {k' : Kind} (he : 0 ≤ earned)
    (hp : 0 ≤ paid) (b : Bucket) :
    (db.splitInsert x k' earned paid y).bucketSum a t k b = db.bucketSum a t k b +
      if x = a ∧ y = some t ∧ k' = k then b.part earned paid else 0 := by
  have hamount : ∀ r : LedgerRow, r.amount = 0 → r.amount = 0 := fun _ h => h
  unfold Db.bucketSum Db.splitInsert
  rw [tally_append, tally_ledgerSplit hamount _ he hp]
  congr 1
  cases b <;> simp [Bucket.part]

end Sums

/-! ### No more is refunded than was spent -/

def Refundable (address : Address) (txRef : Text) (db : Db) : Prop :=
  ∀ bucket, 0 ≤ db.left address txRef bucket

section Bounds

variable {lower : Text → Text} {db db' : Db} {a : Address} {t amount : Text} {key : Option Text}

theorem left_congr (h : db'.creditLedger = db.creditLedger) (b : Bucket) :
    db'.left a t b = db.left a t b := by
  unfold Db.left
  rw [bucketSum_congr h, bucketSum_congr h]

/-- Only the rows of spends and refunds count. -/
theorem left_splitInsert_other {x : Address} {y : Option Text} {k : Kind} {earned paid : ℚ}
    (he : 0 ≤ earned) (hp : 0 ≤ paid) (hspend : k ≠ .spend) (hrefund : k ≠ .refund) (b : Bucket) :
    (db.splitInsert x k earned paid y).left a t b = db.left a t b := by
  unfold Db.left
  rw [bucketSum_splitInsert he hp, bucketSum_splitInsert he hp]
  simp [hspend, hrefund]

theorem left_splitInsert_spend {x : Address} {y : Text} {earned paid : ℚ} (he : 0 ≤ earned)
    (hp : 0 ≤ paid) (b : Bucket) : (db.splitInsert x .spend earned paid (some y)).left a t b =
      db.left a t b + if x = a ∧ y = t then b.part earned paid else 0 := by
  unfold Db.left
  rw [bucketSum_splitInsert he hp, bucketSum_splitInsert he hp]
  simp
  ring

theorem left_splitInsert_refund {x : Address} {y : Text} {earned paid : ℚ} (he : 0 ≤ earned)
    (hp : 0 ≤ paid) (b : Bucket) : (db.splitInsert x .refund earned paid (some y)).left a t b =
      db.left a t b - if x = a ∧ y = t then b.part earned paid else 0 := by
  unfold Db.left
  rw [bucketSum_splitInsert he hp, bucketSum_splitInsert he hp]
  simp
  ring

/-- The rows of a grant carry no reference. -/
theorem left_grant {x : ℚ} {k : Kind} (hx : 0 < x) {y : Address} (b : Bucket)
    (hl : db'.creditLedger = db.creditLedger ++ [⟨y, k, x, none, .paid⟩]) :
    db'.left a t b = db.left a t b := by
  have hsplit : db'.creditLedger = (db.splitInsert y k 0 x none).creditLedger := by
    rw [hl, Db.splitInsert, ledgerSplit_paid hx]
  unfold Db.left
  rw [bucketSum_congr hsplit, bucketSum_congr hsplit, bucketSum_splitInsert le_rfl hx.le,
    bucketSum_splitInsert le_rfl hx.le]
  simp

theorem refundApplied_eq (h : Refundable a t db) (x : ℚ) :
    db.refundApplied a x t = min x (db.left a t .earned + db.left a t .paid) := by
  have hleft : db.ledgerSum a t .spend - db.ledgerSum a t .refund =
      db.left a t .earned + db.left a t .paid := by
    rw [ledgerSum_eq, ledgerSum_eq]
    unfold Db.left
    ring
  rw [Db.refundApplied, hleft, max_eq_right (add_nonneg (h _) (h _))]

theorem refundEarned_eq (h : Refundable a t db) (x : ℚ) :
    db.refundEarned a x t = min (db.refundApplied a x t) (db.left a t .earned) := by
  have hleft : db.ledgerSumEarned a t .spend - db.ledgerSumEarned a t .refund =
      db.left a t .earned := rfl
  rw [Db.refundEarned, hleft, max_eq_right (h _)]

/-- Each part of a refund is within what is left of its bucket. -/
theorem part_le_left (h : Refundable a t db) (x : ℚ) (b : Bucket) :
    b.part (db.refundEarned a x t) (db.refundApplied a x t - db.refundEarned a x t) ≤
      db.left a t b := by
  cases b with
  | earned =>
    rw [Bucket.part, refundEarned_eq h]
    exact min_le_right _ _
  | paid =>
    have happlied : db.refundApplied a x t ≤ db.left a t .earned + db.left a t .paid := by
      rw [refundApplied_eq h]
      exact min_le_right _ _
    have hpaid : 0 ≤ db.left a t .paid := h .paid
    rw [Bucket.part, refundEarned_eq h]
    rcases min_choice (db.refundApplied a x t) (db.left a t .earned) with hmin | hmin
    · rw [hmin, sub_self]
      exact hpaid
    · rw [hmin]
      linarith

theorem refund_parts_nonneg (db : Db) (a : Address) (t : Text) {x : ℚ} (hx : 0 < x) :
    0 ≤ db.refundEarned a x t ∧ 0 ≤ db.refundApplied a x t - db.refundEarned a x t := by
  have happlied : 0 ≤ db.refundApplied a x t := le_min hx.le (le_max_left _ _)
  exact ⟨le_min happlied (le_max_left _ _), sub_nonneg.mpr (min_le_left _ _)⟩

theorem Refundable.move (h : Refundable a t db) (hmove : Move lower db db') :
    Refundable a t db' := by
  intro b
  cases hmove with
  | idle _ hl _ _ =>
    rw [left_congr hl]
    exact h b
  | spend hok =>
    rcases spendInTx_spec hok with ⟨rfl, -⟩ | ⟨u, earned, paid, row, he, hp, -, -, -, rfl⟩
    · exact h b
    · have hpart : 0 ≤ b.part earned paid := by cases b <;> assumption
      refine (le_add_of_le_of_nonneg (h b) ?_).trans_eq
        (left_splitInsert_spend he hp b).symm
      split
      · exact hpart
      · exact le_rfl
  | refund hok =>
    rename_i address amount txRef key o
    rcases refundInTx_cases hok with ⟨rfl, -⟩ | ⟨u, -, hpos, -, -, -, rfl⟩
    · exact h b
    · obtain ⟨he, hp⟩ := refund_parts_nonneg db address txRef hpos
      refine le_of_le_of_eq ?_ (left_splitInsert_refund he hp b).symm
      split
      · rename_i hsame
        obtain ⟨rfl, rfl⟩ := hsame
        exact sub_nonneg.mpr (part_le_left h _ b)
      · rw [sub_zero]
        exact h b
  | grant hok =>
    rcases grantInTx_spec hok with rfl | ⟨-, u, row, hpos, -, -, rfl⟩
    · exact h b
    · rw [left_grant (x := numeric _) hpos b rfl]
      exact h b
  | revoke hok =>
    rcases revokeInTx_spec hok with rfl | ⟨u, earned, paid, he, hp, -, -, rfl⟩
    · exact h b
    · rw [left_splitInsert_other he hp (by decide) (by decide)]
      exact h b
  | adminRevoke hok =>
    obtain ⟨u, earned, paid, he, hp, -, -, rfl⟩ := adminRevokeInTx_spec hok
    rw [left_splitInsert_other he hp (by decide) (by decide)]
    exact h b

/-- Nothing has happened under the reference yet. -/
theorem refundable_of_fresh (h : ∀ r ∈ db.creditLedger, r.address = a → r.txRef ≠ some t) :
    Refundable a t db := by
  have hzero : ∀ k b, db.bucketSum a t k b = 0 := by
    intro k b
    refine tally_eq_zero fun r hr => decide_eq_false ?_
    rintro ⟨haddr, href, -⟩
    exact h r hr haddr href
  intro b
  rw [Db.left, hzero, hzero, sub_zero]

end Bounds

/-! ### Refunding a spend bit by bit -/

section Restore

variable (lower : Text → Text) (a : Address) (t : Text)

/-- A sequence of refunds under one reference, each with its amount and key: the database at the
end, and how much was asked for by the refunds that were carried out. -/
def refundAll (db : Db) : List (Text × Option Text) → Db × ℚ
  | [] => (db, 0)
  | (amount, key) :: rest =>
    match refund lower db a amount t key with
    | (.ok o, db') =>
      let (last, asked) := refundAll db' rest
      (last, asked + if o.replayed then 0 else numeric amount)
    | (.error _, db') => refundAll db' rest

variable {lower a t} {db db' : Db} {amount : Text} {key : Option Text}

/-- What has left a wallet under the reference is what is left to refund there. -/
structure Conserved (a : Address) (t : Text) (db db' : Db) : Prop where
  available : db'.available a + (db'.left a t .earned + db'.left a t .paid) =
    db.available a + (db.left a t .earned + db.left a t .paid)
  earned : db'.earnedAvailable a + db'.left a t .earned =
    db.earnedAvailable a + db.left a t .earned

theorem Conserved.trans {db'' : Db} (h : Conserved a t db db') (h' : Conserved a t db' db'') :
    Conserved a t db db'' :=
  ⟨h'.available.trans h.available, h'.earned.trans h.earned⟩

/-- What a transaction takes out of the buckets of the wallet is left to refund. -/
theorem Conserved.of_parts {u : UserCredits} {earned paid : ℚ}
    (hcredits : db'.userCredits a = some u)
    (hav : u.available = db.available a - (earned + paid))
    (hea : u.earnedAvailable = db.earnedAvailable a - earned)
    (hleft : ∀ b, db'.left a t b = db.left a t b + b.part earned paid) :
    Conserved a t db db' := by
  obtain ⟨havailable, hearned⟩ := available_of_some hcredits
  refine ⟨?_, ?_⟩
  · rw [havailable, hleft, hleft, hav, Bucket.part, Bucket.part]
    ring
  · rw [hearned, hleft, hea, Bucket.part]
    ring

/-- One refund that is carried out. -/
theorem refund_step (h : Refundable a t db) {o : GrantOutcome} (hreplayed : o.replayed = false)
    (hok : db.refundInTx lower a amount t key = .ok (o, db')) :
    0 < numeric amount ∧ Conserved a t db db' ∧
      db'.left a t .earned + db'.left a t .paid =
        db.left a t .earned + db.left a t .paid -
          min (numeric amount) (db.left a t .earned + db.left a t .paid) := by
  rcases refundInTx_cases hok with ⟨-, k, row, -, -, -, -, rfl⟩ | ⟨u, -, hpos, -, hav, hea, hdb⟩
  · cases hreplayed
  obtain ⟨he, hp⟩ := refund_parts_nonneg db a t hpos
  have hleft : ∀ b, db'.left a t b = db.left a t b +
      b.part (-db.refundEarned a (numeric amount) t)
        (-(db.refundApplied a (numeric amount) t - db.refundEarned a (numeric amount) t)) := by
    intro b
    rw [hdb]
    refine (left_splitInsert_refund he hp b).trans ?_
    rw [if_pos ⟨rfl, rfl⟩]
    cases b
    · exact sub_eq_add_neg _ _
    · exact sub_eq_add_neg _ _
  refine ⟨hpos, Conserved.of_parts (u := u) ?_ ?_ ?_ hleft, ?_⟩
  · rw [hdb]
    exact Function.update_self a _ _
  · rw [hav]
    ring
  · rw [hea]
    ring
  · rw [hleft, hleft, ← refundApplied_eq h, Bucket.part, Bucket.part]
    ring

theorem refundAll_spec (h : Refundable a t db) (calls : List (Text × Option Text)) :
    Conserved a t db (refundAll lower a t db calls).1 ∧
      Refundable a t (refundAll lower a t db calls).1 ∧ 0 ≤ (refundAll lower a t db calls).2 ∧
      (db.left a t .earned + db.left a t .paid ≤ (refundAll lower a t db calls).2 →
        (refundAll lower a t db calls).1.left a t .earned +
          (refundAll lower a t db calls).1.left a t .paid = 0) := by
  induction calls generalizing db with
  | nil =>
    refine ⟨⟨rfl, rfl⟩, h, le_rfl, fun hle => ?_⟩
    exact le_antisymm hle (add_nonneg (h _) (h _))
  | cons call rest ih =>
    obtain ⟨amount, key⟩ := call
    cases hok : db.refundInTx lower a amount t key with
    | error e =>
      have hall : refundAll lower a t db ((amount, key) :: rest) = refundAll lower a t db rest := by
        simp only [refundAll, refund, transact, hok]
      rw [hall]
      exact ih h
    | ok r =>
      obtain ⟨o, db'⟩ := r
      have hall : refundAll lower a t db ((amount, key) :: rest) =
          ((refundAll lower a t db' rest).1, (refundAll lower a t db' rest).2 +
            if o.replayed then 0 else numeric amount) := by
        simp only [refundAll, refund, transact, hok]
      rw [hall]
      have hnext : Refundable a t db' := h.move (.refund hok)
      obtain ⟨hconserved, hrefundable, hasked, hzero⟩ := ih hnext
      cases hreplayed : o.replayed with
      | true =>
        have hsame : db' = db := by
          rcases refundInTx_cases hok with ⟨rfl, -⟩ | ⟨u, -, -, rfl, -⟩
          · rfl
          · cases hreplayed
        subst hsame
        simp only [if_true, add_zero]
        exact ⟨hconserved, hrefundable, hasked, hzero⟩
      | false =>
        obtain ⟨hpos, hstep, htotal⟩ := refund_step h hreplayed hok
        simp only [Bool.false_eq_true, if_false]
        refine ⟨hstep.trans hconserved, hrefundable, add_nonneg hasked hpos.le, fun hle => ?_⟩
        refine hzero ?_
        rw [htotal]
        obtain hmin | hmin :=
          min_choice (numeric amount) (db.left a t .earned + db.left a t .paid)
        · rw [hmin]
          linarith
        · rw [hmin, sub_self]
          exact hasked

/-- A spend under a reference with nothing left to refund. -/
theorem spend_conserved {o : GrantOutcome} (hreplayed : o.replayed = false)
    (hok : db.spendInTx lower a amount t key = .ok (o, db')) :
    Conserved a t db db' ∧ db'.left a t .earned + db'.left a t .paid =
      db.left a t .earned + db.left a t .paid + numeric amount := by
  rcases spendInTx_cases hok with ⟨rfl, hnum, -, -⟩ | ⟨-, -, k, row, -, -, -, -, rfl⟩ |
    ⟨u, -, hpos, -, hav, hea, hdb⟩
  · rw [hnum, add_zero]
    exact ⟨⟨rfl, rfl⟩, rfl⟩
  · cases hreplayed
  have he : 0 ≤ min (db.earnedAvailable a) (numeric amount) :=
    le_min (earned_within db a).1 hpos.le
  have hp : 0 ≤ numeric amount - min (db.earnedAvailable a) (numeric amount) :=
    sub_nonneg.mpr (min_le_right _ _)
  have hleft : ∀ b, db'.left a t b = db.left a t b +
      b.part (min (db.earnedAvailable a) (numeric amount))
        (numeric amount - min (db.earnedAvailable a) (numeric amount)) := by
    intro b
    rw [hdb]
    refine (left_splitInsert_spend he hp b).trans ?_
    rw [if_pos ⟨rfl, rfl⟩]
    rfl
  refine ⟨Conserved.of_parts (u := u) ?_ ?_ hea hleft, ?_⟩
  · rw [hdb]
    exact Function.update_self a _ _
  · rw [hav]
    ring
  · rw [hleft, hleft, Bucket.part, Bucket.part]
    ring

/-- A spend is undone by refunds that ask for as much. -/
theorem refundAll_restores (h : Refundable a t db)
    (hnone : db.ledgerSum a t .spend = db.ledgerSum a t .refund) {o : GrantOutcome}
    (hreplayed : o.replayed = false) (hok : db.spendInTx lower a amount t key = .ok (o, db'))
    {calls : List (Text × Option Text)}
    (hasked : numeric amount ≤ (refundAll lower a t db' calls).2) :
    (refundAll lower a t db' calls).1.available a = db.available a ∧
      (refundAll lower a t db' calls).1.earnedAvailable a = db.earnedAvailable a := by
  have hsum : db.left a t .earned + db.left a t .paid = 0 := by
    rw [ledgerSum_eq, ledgerSum_eq] at hnone
    unfold Db.left
    linarith
  obtain ⟨hspend, htotal⟩ := spend_conserved hreplayed hok
  have hnext : Refundable a t db' := h.move (.spend hok)
  obtain ⟨hrefunds, hrefundable, -, hzero⟩ := refundAll_spec hnext calls
  rw [hsum, zero_add] at htotal
  have hlast := hzero (htotal.trans_le hasked)
  -- both parts vanish with their sum
  have hearned : db.left a t .earned = 0 := by linarith [h .earned, h .paid]
  have hlastEarned : (refundAll lower a t db' calls).1.left a t .earned = 0 := by
    linarith [hrefundable .earned, hrefundable .paid]
  obtain ⟨hav, hea⟩ := hspend.trans hrefunds
  rw [hlast, hsum, add_zero, add_zero] at hav
  rw [hlastEarned, hearned, add_zero, add_zero] at hea
  exact ⟨hav, hea⟩

end Restore

/-! ### Replays -/

section Replays

variable {lower : Text → Text} {db db' : Db} {a a' : Address} {t t' amount amount' k : Text}
  {row : IdempotencyRow}

theorem recordKey_kept {table : IdempotencyTable} {key : Option Text} {new : IdempotencyRow}
    (hkey : key.bind table = none) (h : table k = some row) :
    recordKey table key new k = some row := by
  cases key with
  | none => exact h
  | some k' =>
    have hne : k ≠ k' := by
      rintro rfl
      rw [Option.bind_some, h] at hkey
      cases hkey
    exact (Function.update_of_ne hne _ _).trans h

/-- A row of the keys is never changed. -/
theorem keys_kept (hmove : Move lower db db') :
    (∀ k row, db.spendIdempotency k = some row → db'.spendIdempotency k = some row) ∧
      ∀ k row, db.refundIdempotency k = some row → db'.refundIdempotency k = some row := by
  have hsame : ∀ {table : IdempotencyTable}, ∀ k row, table k = some row → table k = some row :=
    fun _ _ h => h
  cases hmove with
  | idle _ _ hs hr =>
    rw [hs, hr]
    exact ⟨hsame, hsame⟩
  | spend hok =>
    rcases spendInTx_cases hok with ⟨rfl, -⟩ | ⟨rfl, -⟩ | ⟨u, hkey, -, -, -, -, rfl⟩
    · exact ⟨hsame, hsame⟩
    · exact ⟨hsame, hsame⟩
    · exact ⟨fun _ _ h => recordKey_kept hkey h, hsame⟩
  | refund hok =>
    rcases refundInTx_cases hok with ⟨rfl, -⟩ | ⟨u, hkey, -, -, -, -, rfl⟩
    · exact ⟨hsame, hsame⟩
    · exact ⟨hsame, fun _ _ h => recordKey_kept hkey h⟩
  | grant hok =>
    rcases grantInTx_spec hok with rfl | ⟨-, u, _, -, -, -, rfl⟩
    · exact ⟨hsame, hsame⟩
    · exact ⟨hsame, hsame⟩
  | revoke hok =>
    rcases revokeInTx_spec hok with rfl | ⟨u, _, _, -, -, -, -, rfl⟩
    · exact ⟨hsame, hsame⟩
    · exact ⟨hsame, hsame⟩
  | adminRevoke hok =>
    obtain ⟨u, _, _, -, -, -, -, rfl⟩ := adminRevokeInTx_spec hok
    exact ⟨hsame, hsame⟩

theorem claimKey_used {table : IdempotencyTable} (h : table k = some row) (x : ℚ)
    (mismatch : String) : claimKey lower table (some k) a x mismatch =
      if lower row.address = lower a ∧ row.amount = x then
        .ok (some ⟨row.available, row.applied.getD row.amount, true⟩)
      else .error (.conflict mismatch) := by
  rw [claimKey, Option.bind_some, h]

/-- A key that has been used moves nothing again. -/
theorem refund_used (h : db.refundIdempotency k = some row) (a : Address) (amount t : Text) :
    (refund lower db a amount t (some k)).2 = db := by
  unfold refund transact
  split
  · rename_i o db' hok
    rcases refundInTx_cases hok with ⟨rfl, -⟩ | ⟨u, hkey, -⟩
    · rfl
    · rw [Option.bind_some, h] at hkey
      cases hkey
  · rfl

theorem spend_used (h : db.spendIdempotency k = some row) (a : Address) (amount t : Text) :
    (spend lower db a amount t (some k)).2 = db := by
  unfold spend transact
  split
  · rename_i o db' hok
    rcases spendInTx_cases hok with ⟨rfl, -⟩ | ⟨rfl, -⟩ | ⟨u, hkey, -⟩
    · rfl
    · rfl
    · rw [Option.bind_some, h] at hkey
      cases hkey
  · rfl

/-- The call is repeated by the same wallet, under any reference. -/
theorem refund_repeated (h : db.refundIdempotency k = some row)
    (haddr : lower row.address = lower a) (hamount : row.amount = numeric amount)
    {b : CreditAmount} (hparse : CreditAmount.parsePositive amount = .ok b) :
    refund lower db a amount t (some k) =
      (.ok ⟨row.available, row.applied.getD row.amount, true⟩, db) := by
  have hvalue := (parsePositive_spec hparse).1
  unfold refund transact Db.refundInTx
  rw [hparse]
  simp only [Except.bind, claimKey_used h, hvalue, haddr, hamount, and_self, if_true]

theorem spend_repeated (h : db.spendIdempotency k = some row)
    (haddr : lower row.address = lower a) (hamount : row.amount = numeric amount)
    {b : CreditAmount} (hparse : CreditAmount.parseNonNegative amount = .ok b)
    (hzero : b.zero = false) : spend lower db a amount t (some k) =
      (.ok ⟨row.available, row.applied.getD row.amount, true⟩, db) := by
  have hvalue := (parse_spec hparse).1
  unfold spend transact Db.spendInTx
  rw [hparse]
  simp only [Except.bind, claimKey_used h, hvalue, haddr, hamount, hzero, Bool.false_eq_true,
    if_false, and_self, if_true]

theorem transact_of_toOption {α : Type} {r : Except ApiError (α × Db)} {x : α}
    (h : r.toOption = some (x, db')) : transact db r = (.ok x, db') := by
  cases r with
  | error e => cases h
  | ok p =>
    obtain rfl := Option.some.inj h
    rfl

/-- What a refund that is carried out, or replayed, leaves under its key. -/
theorem refund_recorded {o : GrantOutcome}
    (h : refund lower db a amount t (some k) = (.ok o, db')) :
    (∃ b, CreditAmount.parsePositive amount = .ok b) ∧ ∃ row, db'.refundIdempotency k = some row ∧
      lower row.address = lower a ∧ row.amount = numeric amount ∧
      row.applied.getD row.amount = o.applied := by
  have hok := transact_ok h
  obtain ⟨b, hparse, -⟩ := bind_ok.mp hok
  refine ⟨⟨b, hparse⟩, ?_⟩
  rcases refundInTx_cases hok with ⟨rfl, k', row, hkey, hrow, haddr, hamount, rfl⟩ |
    ⟨u, -, -, rfl, -, -, rfl⟩
  · obtain rfl := Option.some.inj hkey
    exact ⟨row, hrow, haddr, hamount, rfl⟩
  · exact ⟨_, Function.update_self k _ _, rfl, rfl, rfl⟩

theorem spend_recorded {o : GrantOutcome} (h : spend lower db a amount t (some k) = (.ok o, db'))
    (hamount : numeric amount ≠ 0) :
    ∃ row, db'.spendIdempotency k = some row ∧ lower row.address = lower a ∧
      row.amount = numeric amount ∧ row.applied.getD row.amount = o.applied := by
  rcases spendInTx_cases (transact_ok h) with ⟨-, hnum, -⟩ |
    ⟨rfl, -, k', row, hkey, hrow, haddr, hsame, rfl⟩ | ⟨u, -, -, rfl, -, -, rfl⟩
  · exact absurd hnum hamount
  · obtain rfl := Option.some.inj hkey
    exact ⟨row, hrow, haddr, hsame, rfl⟩
  · exact ⟨_, Function.update_self k _ _, rfl, rfl, rfl⟩

/-- A spend of nothing is no more than a look at the balance, whatever its key. -/
theorem spend_nothing {b : CreditAmount} (hparse : CreditAmount.parseNonNegative amount = .ok b)
    (hzero : b.zero = true) (key : Option Text) : spend lower db a amount t key =
      (.ok ⟨db.available a, numeric amount, false⟩, db) := by
  have hvalue := (parse_spec hparse).1
  unfold spend transact Db.spendInTx
  rw [hparse]
  simp only [Except.bind, hzero, if_true, hvalue]

end Replays

section Runs

variable (lower : Text → Text) (divide : ℚ → ℤ → ℚ) (maxAttempts : ℤ)

/-- **Refunds restore what was spent.** From any database with nothing under the reference of the
wallet, whatever is called in whatever order: no more is refunded than was spent, in total and
for each bucket; a spend that finds nothing left to refund is undone by refunds that ask for as
much; and a key that has been used moves nothing again, with the amount first applied as the
answer to a call that is repeated. -/
theorem refunds_restore (s₀ s : System) (steps : List LedgerAction) (a : Address) (t : Text)
    (hfresh : ∀ r ∈ s₀.db.creditLedger, r.address = a → r.txRef ≠ some t)
    (hrun : Machine.run (System.step lower divide maxAttempts) s₀ steps = some s) :
    (s.db.ledgerSum a t .refund ≤ s.db.ledgerSum a t .spend ∧
      ∀ b, s.db.bucketSum a t .refund b ≤ s.db.bucketSum a t .spend b) ∧
    (∀ amount key o db' calls, spend lower s.db a amount t key = (.ok o, db') →
      o.replayed = false → s.db.ledgerSum a t .spend = s.db.ledgerSum a t .refund →
      numeric amount ≤ (refundAll lower a t db' calls).2 →
      (refundAll lower a t db' calls).1.available a = s.db.available a ∧
        (refundAll lower a t db' calls).1.earnedAvailable a = s.db.earnedAvailable a) ∧
    (∀ a₁ amount t₁ k o db' later s',
      refund lower s.db a₁ amount t₁ (some k) = (.ok o, db') →
      Machine.run (System.step lower divide maxAttempts) { s with db := db' } later = some s' →
      (∀ a₂ amount₂ t₂, (refund lower s'.db a₂ amount₂ t₂ (some k)).2 = s'.db) ∧
        ∀ a₂ t₂, lower a₂ = lower a₁ →
          ∃ o', refund lower s'.db a₂ amount t₂ (some k) = (.ok o', s'.db) ∧
            o'.applied = o.applied) ∧
    ∀ a₁ amount t₁ k o db' later s', spend lower s.db a₁ amount t₁ (some k) = (.ok o, db') →
      Machine.run (System.step lower divide maxAttempts) { s with db := db' } later = some s' →
      (numeric amount ≠ 0 → ∀ a₂ amount₂ t₂, (spend lower s'.db a₂ amount₂ t₂ (some k)).2 = s'.db) ∧
        ∀ a₂ t₂, lower a₂ = lower a₁ →
          ∃ o', spend lower s'.db a₂ amount t₂ (some k) = (.ok o', s'.db) ∧
            o'.applied = o.applied := by
  have hrefundable : Refundable a t s.db :=
    Moves.preserve_run (fun _ _ h hmove => h.move hmove) hrun (refundable_of_fresh hfresh)
  refine ⟨⟨?_, ?_⟩, ?_, ?_, ?_⟩
  · rw [ledgerSum_eq, ledgerSum_eq]
    have he := hrefundable .earned
    have hp := hrefundable .paid
    unfold Db.left at he hp
    linarith
  · exact fun b => sub_nonneg.mp (hrefundable b)
  · intro amount key o db' calls hspend hreplayed hnone hasked
    exact refundAll_restores hrefundable hnone hreplayed (transact_ok hspend) hasked
  · intro a₁ amount t₁ k o db' later s' hcall hlater
    obtain ⟨⟨b, hparse⟩, row, hrow, haddr, hamount, happlied⟩ := refund_recorded hcall
    have hkept : s'.db.refundIdempotency k = some row :=
      Moves.preserve_run (P := fun db => db.refundIdempotency k = some row)
        (fun _ _ h hmove => (keys_kept hmove).2 k row h) hlater hrow
    refine ⟨refund_used hkept, fun a₂ t₂ hsame => ?_⟩
    exact ⟨_, refund_repeated hkept (haddr.trans hsame.symm) hamount hparse, happlied⟩
  · intro a₁ amount t₁ k o db' later s' hcall hlater
    obtain ⟨b, hparse, -⟩ := bind_ok.mp (transact_ok hcall)
    have hcase := (parse_spec hparse).2
    cases hzero : b.zero with
    | true =>
      rw [spend_nothing hparse hzero] at hcall
      obtain ⟨ho, -⟩ := Prod.mk.inj hcall
      refine ⟨fun hne => ?_, fun a₂ t₂ _ => ⟨_, spend_nothing hparse hzero _, ?_⟩⟩
      · rcases hcase with ⟨-, hnum⟩ | ⟨hnonzero, -⟩
        · exact absurd hnum hne
        · rw [hzero] at hnonzero
          cases hnonzero
      · rw [← Except.ok.inj ho]
    | false =>
      have hne : numeric amount ≠ 0 := by
        rcases hcase with ⟨hyes, -⟩ | ⟨-, hpos⟩
        · rw [hzero] at hyes
          cases hyes
        · exact hpos.ne'
      obtain ⟨row, hrow, haddr, hamount, happlied⟩ := spend_recorded hcall hne
      have hkept : s'.db.spendIdempotency k = some row :=
        Moves.preserve_run (P := fun db => db.spendIdempotency k = some row)
          (fun _ _ h hmove => (keys_kept hmove).1 k row h) hlater hrow
      refine ⟨fun _ => spend_used hkept, fun a₂ t₂ hsame => ?_⟩
      exact ⟨_, spend_repeated hkept (haddr.trans hsame.symm) hamount hparse hzero, happlied⟩

/-- Ten credits, six of them earned. -/
def seeded : System :=
  { System.new with db := Db.new.setCredits ['a'] ⟨10, 6, by norm_num, by norm_num⟩ }

/-- Two spends that are refunded, the last refund asking for too much. -/
def refundedCalls : List LedgerAction :=
  [.spend ['a'] ['8'] ['x'] none, .spend ['a'] ['2'] ['x'] none, .refund ['a'] ['7'] ['x'] none,
    .refund ['a'] ['9'] ['x'] none]

theorem refunds_restore_refundedCalls :
    ∃ s, Machine.run (System.step id (fun q n => q / n) 5) seeded refundedCalls = some s ∧
      s.db.ledgerSum ['a'] ['x'] .refund = 10 ∧
      s.db.ledgerSum ['a'] ['x'] .refund ≤ s.db.ledgerSum ['a'] ['x'] .spend ∧
      ∃ o db', spend id s.db ['a'] ['8'] ['x'] (some ['k']) = (.ok o, db') ∧
        db'.earnedAvailable ['a'] = 0 ∧
        (refundAll id ['a'] ['x'] db' [(['5'], none), (['4'], none)]).1.earnedAvailable ['a'] =
          s.db.earnedAvailable ['a'] := by
  have hrun : (Machine.run (System.step id (fun q n => q / n) 5) seeded refundedCalls).bind
      (fun s => (s.db.spendInTx id ['a'] ['8'] ['x'] (some ['k'])).toOption.map fun r =>
        (r.1.replayed, s.db.ledgerSum ['a'] ['x'] .refund, s.db.ledgerSum ['a'] ['x'] .spend,
          r.2.earnedAvailable ['a'], decide (numeric ['8'] ≤
            (refundAll id ['a'] ['x'] r.2 [(['5'], none), (['4'], none)]).2))) =
      some (false, 10, 10, 0, true) := by decide +kernel
  obtain ⟨s, hs, hmap⟩ := Option.bind_eq_some_iff.mp hrun
  obtain ⟨⟨o, db'⟩, hok, hvalues⟩ := Option.map_eq_some_iff.mp hmap
  simp only [Prod.mk.injEq, decide_eq_true_eq] at hvalues
  obtain ⟨hreplayed, hrefunded, hspent, hearned, hasked⟩ := hvalues
  have hspend : spend id s.db ['a'] ['8'] ['x'] (some ['k']) = (.ok o, db') :=
    transact_of_toOption hok
  obtain ⟨hbound, hrestore, -⟩ := refunds_restore id (fun q n => q / n) 5 seeded s refundedCalls
    ['a'] ['x'] (fun _ h => absurd h List.not_mem_nil) hs
  exact ⟨s, hs, hrefunded, hbound.1, o, db', hspend, hearned,
    (hrestore _ _ o db' _ hspend hreplayed (hspent.trans hrefunded.symm) hasked).2⟩

/-- The second spend takes paid credits, and its refund gives earned ones, of which the first
spend has left some to refund. -/
theorem refund_fills_earlier_spend :
    ∃ s, Machine.run (System.step id (fun q n => q / n) 5) seeded
        [.spend ['a'] ['6'] ['x'] none] = some s ∧
      ∃ o db', spend id s.db ['a'] ['4'] ['x'] none = (.ok o, db') ∧ o.replayed = false ∧
        (refundAll id ['a'] ['x'] db' [(['4'], none)]).2 = numeric ['4'] ∧
        (refundAll id ['a'] ['x'] db' [(['4'], none)]).1.earnedAvailable ['a'] = 4 ∧
        s.db.earnedAvailable ['a'] = 0 := by
  have hrun : (Machine.run (System.step id (fun q n => q / n) 5) seeded
      [.spend ['a'] ['6'] ['x'] none]).bind (fun s =>
        (s.db.spendInTx id ['a'] ['4'] ['x'] none).toOption.map fun r =>
          (r.1.replayed, decide ((refundAll id ['a'] ['x'] r.2 [(['4'], none)]).2 = numeric ['4']),
            (refundAll id ['a'] ['x'] r.2 [(['4'], none)]).1.earnedAvailable ['a'],
            s.db.earnedAvailable ['a'])) = some (false, true, 4, 0) := by decide +kernel
  obtain ⟨s, hs, hmap⟩ := Option.bind_eq_some_iff.mp hrun
  obtain ⟨⟨o, db'⟩, hok, hvalues⟩ := Option.map_eq_some_iff.mp hmap
  simp only [Prod.mk.injEq, decide_eq_true_eq] at hvalues
  exact ⟨s, hs, o, db', transact_of_toOption hok, hvalues⟩

end Runs

end Catalyrst.Credits
