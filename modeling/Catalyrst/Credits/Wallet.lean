import Mathlib
import Catalyrst.Credits.Money
import Catalyrst.Lib.Fallible
import Catalyrst.Lib.Tally

/-!
# Wallets and their ledger

The tables of the credits service, and the transactions that move a balance: spending,
refunding, granting and revoking. Each splits its amount between the earned and the paid
credits by a rule of its own and writes a ledger row for each part that is positive. A
transaction that fails is rolled back as a whole.
-/

namespace Catalyrst.Credits

open Catalyrst.Lib Catalyrst.Lib.Fallible

abbrev Address := Text

/-- A row of `user_credits`, with its constraint `user_credits_earned_bound`. -/
structure UserCredits where
  available : ℚ
  earnedAvailable : ℚ
  earnedBound : 0 ≤ earnedAvailable ∧ earnedAvailable ≤ available

/-- A row is written only if it meets the constraint. -/
def UserCredits.make (available earnedAvailable : ℚ) : Except ApiError UserCredits :=
  if h : 0 ≤ earnedAvailable ∧ earnedAvailable ≤ available then
    .ok ⟨available, earnedAvailable, h⟩
  else .error .internal

inductive Kind where
  | grant
  | claim
  | expire
  | consume
  | spend
  | purchase
  | refund
  deriving DecidableEq

inductive Bucket where
  | earned
  | paid
  deriving DecidableEq

structure LedgerRow where
  address : Address
  kind : Kind
  amount : ℚ
  txRef : Option Text
  bucket : Bucket
  deriving DecidableEq

/-- The `CASE` of reconcile. -/
def LedgerRow.signed (r : LedgerRow) : ℚ :=
  match r.kind with
  | .grant | .refund | .purchase | .claim => r.amount
  | .spend | .consume | .expire => -r.amount

/-- A row of `credit_spend_idempotency`, `credit_refund_idempotency` or
`credit_grant_idempotency`; only refunds have `applied`. -/
structure IdempotencyRow where
  address : Address
  amount : ℚ
  available : ℚ
  applied : Option ℚ

abbrev IdempotencyTable := Text → Option IdempotencyRow

inductive CheckoutStatus where
  | reserving
  | debited
  | fulfilling
  | fulfilled
  | failed
  | reversing
  | reversed
  deriving DecidableEq

structure Checkout where
  id : ℕ
  idempotencyKey : Text
  address : Address
  totalCredits : ℚ
  status : CheckoutStatus
  deriving DecidableEq

inductive LineStatus where
  | pending
  | sent
  | confirmed
  | failed
  deriving DecidableEq

/-- A row of `fulfillment_outbox`. -/
structure OutboxLine where
  id : ℕ
  checkoutId : ℕ
  unitPriceCredits : ℚ
  status : LineStatus
  attempts : ℤ
  deriving DecidableEq

inductive PurchaseStatus where
  | pending
  | paid
  | refunded
  | disputed
  | failed
  | abandoned
  deriving DecidableEq

/-- A row of `credit_purchases`, with its constraint `credit_purchases_revoked_bound`. -/
structure Purchase where
  address : Address
  credits : ℚ
  amountCents : ℤ
  refundedCents : ℤ
  revokedCredits : ℚ
  status : PurchaseStatus
  revokedBound : 0 ≤ revokedCredits ∧ revokedCredits ≤ credits

structure Db where
  userCredits : Address → Option UserCredits
  creditLedger : List LedgerRow
  spendIdempotency : IdempotencyTable
  refundIdempotency : IdempotencyTable
  grantIdempotency : IdempotencyTable
  /-- The addresses with a cart. -/
  carts : Finset Address
  checkouts : List Checkout
  nextCheckout : ℕ
  outbox : List OutboxLine
  nextLine : ℕ
  /-- By `stripe_payment_intent`. -/
  purchases : Text → Option Purchase

structure GrantOutcome where
  available : ℚ
  applied : ℚ
  replayed : Bool
  deriving DecidableEq

namespace Db

def new : Db :=
  ⟨fun _ => none, [], fun _ => none, fun _ => none, fun _ => none, ∅, [], 1, [], 1, fun _ => none⟩

/-- `COALESCE(available, 0)`. -/
def available (db : Db) (address : Address) : ℚ :=
  (db.userCredits address).elim 0 UserCredits.available

def earnedAvailable (db : Db) (address : Address) : ℚ :=
  (db.userCredits address).elim 0 UserCredits.earnedAvailable

def setCredits (db : Db) (address : Address) (u : UserCredits) : Db :=
  { db with userCredits := Function.update db.userCredits address (some u) }

/-- `LEDGER_SPLIT_INSERT`. -/
def ledgerSplit (address : Address) (kind : Kind) (earned paid : ℚ) (txRef : Option Text) :
    List LedgerRow :=
  [⟨address, kind, earned, txRef, .earned⟩, ⟨address, kind, paid, txRef, .paid⟩].filter fun r =>
    0 < r.amount

def splitInsert (db : Db) (address : Address) (kind : Kind) (earned paid : ℚ)
    (txRef : Option Text) : Db :=
  { db with creditLedger := db.creditLedger ++ ledgerSplit address kind earned paid txRef }

end Db

section Idempotency

variable (lower : Text → Text)

/-- The claim of an idempotency key: `none` goes on, the outcome of the first use is replayed. -/
def claimKey (table : IdempotencyTable) (key : Option Text) (address : Address) (amount : ℚ)
    (mismatch : String) : Except ApiError (Option GrantOutcome) :=
  match key.bind table with
  | none => .ok none
  | some prior =>
    if lower prior.address = lower address ∧ prior.amount = amount then
      .ok (some ⟨prior.available, prior.applied.getD prior.amount, true⟩)
    else .error (.conflict mismatch)

/-- What the key stands for afterwards. -/
def recordKey (table : IdempotencyTable) (key : Option Text) (row : IdempotencyRow) :
    IdempotencyTable :=
  match key with
  | none => table
  | some k => Function.update table k (some row)

end Idempotency

namespace Db

variable (lower : Text → Text) (db : Db)

def insufficient : ApiError := .paymentRequired "insufficient credits balance"

def spendMismatch : String :=
  "idempotency key already used for a different spend (address/amount mismatch)"

def refundMismatch : String :=
  "idempotency key already used for a different refund (address/amount mismatch)"

def grantMismatch : String :=
  "idempotency key already used for a different grant (address/amount mismatch)"

/-- The earned credits go first. -/
def debit (address : Address) (amount : ℚ) (txRef : Text) : Except ApiError (ℚ × Db) :=
  match db.userCredits address with
  | none => .error insufficient
  | some u =>
    if amount ≤ u.available then
      let earnedSpent := min u.earnedAvailable amount
      let paidSpent := amount - min u.earnedAvailable amount
      (UserCredits.make (u.available - amount)
        (u.earnedAvailable - min u.earnedAvailable amount)).map fun u' =>
          (u'.available, (db.setCredits address u').splitInsert address .spend earnedSpent paidSpent
            (some txRef))
    else .error insufficient

def spendInTx (address : Address) (amount txRef : Text) (idempotencyKey : Option Text) :
    Except ApiError (GrantOutcome × Db) :=
  (CreditAmount.parseNonNegative amount).bind fun a =>
    -- a zero spend is a no-op and does not use up its key
    if a.zero then .ok (⟨db.available address, a.value, false⟩, db)
    else
      (claimKey lower db.spendIdempotency idempotencyKey address a.value spendMismatch).bind fun
        | some replayed => .ok (replayed, db)
        | none =>
          (db.debit address a.value txRef).map fun (available, db') =>
            (⟨available, a.value, false⟩, { db' with
              spendIdempotency := recordKey db.spendIdempotency idempotencyKey
                ⟨address, a.value, available, none⟩ })

/-- What was spent or refunded under a reference. -/
def ledgerSum (address : Address) (txRef : Text) (kind : Kind) : ℚ :=
  tally (fun r => r.address = address ∧ r.txRef = some txRef ∧ r.kind = kind) LedgerRow.amount
    db.creditLedger

def ledgerSumEarned (address : Address) (txRef : Text) (kind : Kind) : ℚ :=
  tally (fun r => r.address = address ∧ r.txRef = some txRef ∧ r.kind = kind ∧ r.bucket = .earned)
    LedgerRow.amount db.creditLedger

/-- A refund is bounded by what is left of the spends under its reference. -/
def refundApplied (address : Address) (amount : ℚ) (txRef : Text) : ℚ :=
  min amount (max 0 (db.ledgerSum address txRef .spend - db.ledgerSum address txRef .refund))

def refundEarned (address : Address) (amount : ℚ) (txRef : Text) : ℚ :=
  min (db.refundApplied address amount txRef)
    (max 0 (db.ledgerSumEarned address txRef .spend - db.ledgerSumEarned address txRef .refund))

/-- `INSERT … ON CONFLICT (address) DO UPDATE`. -/
def upsertCredits (address : Address) (available earned : ℚ) : Except ApiError UserCredits :=
  match db.userCredits address with
  | none => UserCredits.make available earned
  | some u => UserCredits.make (u.available + available) (u.earnedAvailable + earned)

def refundInTx (address : Address) (amount txRef : Text) (idempotencyKey : Option Text) :
    Except ApiError (GrantOutcome × Db) :=
  (CreditAmount.parsePositive amount).bind fun a =>
    (claimKey lower db.refundIdempotency idempotencyKey address a.value refundMismatch).bind fun
      | some replayed => .ok (replayed, db)
      | none =>
        let applied := db.refundApplied address a.value txRef
        let earnedBack := db.refundEarned address a.value txRef
        (db.upsertCredits address applied earnedBack).map fun u =>
          (⟨u.available, applied, false⟩,
            { (db.setCredits address u).splitInsert address .refund earnedBack (applied - earnedBack)
                (some txRef) with
              refundIdempotency := recordKey db.refundIdempotency idempotencyKey
                ⟨address, a.value, u.available, some applied⟩ })

structure RevokeOutcome where
  available : ℚ
  removed : ℚ
  shortfall : ℚ
  hasShortfall : Bool

/-- The paid credits go first, and the balance stops at zero. -/
def revokeInTx (address : Address) (amount txRef : Text) : Except ApiError (RevokeOutcome × Db) :=
  (CreditAmount.parsePositive amount).bind fun a =>
    match db.userCredits address with
    | none => .ok (⟨0, 0, a.value, true⟩, db)
    | some u =>
      (UserCredits.make (max (u.available - a.value) 0)
        (min u.earnedAvailable (max (u.available - a.value) 0))).map fun u' =>
          let removed := u.available - u'.available
          let earnedRemoved := u.earnedAvailable - u'.earnedAvailable
          (⟨u'.available, removed, max (a.value - removed) 0, decide (removed < a.value)⟩,
            (db.setCredits address u').splitInsert address .consume earnedRemoved
              (removed - earnedRemoved) (some txRef))

/-- The kinds `admin_grant_credits` takes. -/
def grantKinds : List Kind := [.grant, .purchase, .refund]

def grantInTx (address : Address) (amount : Text) (kind : Kind) (idempotencyKey : Option Text) :
    Except ApiError (GrantOutcome × Db) :=
  if kind ∉ grantKinds then
    .error (.badRequest "admin_grant_credits kind must be one of grant|purchase|refund")
  else
    (CreditAmount.parsePositive amount).bind fun a =>
      (claimKey lower db.grantIdempotency idempotencyKey address a.value grantMismatch).bind fun
        | some replayed => .ok (replayed, db)
        | none =>
          (db.upsertCredits address a.value 0).map fun u =>
            let db' := db.setCredits address u
            (⟨u.available, a.value, false⟩,
              { db' with
                creditLedger := db'.creditLedger ++ [⟨address, kind, a.value, none, .paid⟩]
                grantIdempotency := recordKey db.grantIdempotency idempotencyKey
                  ⟨address, a.value, u.available, none⟩ })

def adminRevokeInTx (address : Address) (amount : Text) : Except ApiError (GrantOutcome × Db) :=
  (CreditAmount.parsePositive amount).bind fun a =>
    match db.userCredits address with
    | none => .error (.notFound "user has no credits balance")
    | some u =>
      (UserCredits.make (max (u.available - a.value) 0)
        (min u.earnedAvailable (max (u.available - a.value) 0))).map fun u' =>
          let removed := u.available - max (u.available - a.value) 0
          let earnedRemoved := u.earnedAvailable - u'.earnedAvailable
          (⟨u'.available, removed, false⟩,
            (db.setCredits address u').splitInsert address .consume earnedRemoved
              (max (removed - earnedRemoved) 0) none)

end Db

/-- The end of a call: an error rolls its transaction back. -/
def transact {α : Type} (db : Db) (r : Except ApiError (α × Db)) : Except ApiError α × Db :=
  match r with
  | .ok (a, db') => (.ok a, db')
  | .error e => (.error e, db)

section Calls

variable (lower : Text → Text) (db : Db)

def spend (address : Address) (amount txRef : Text) (idempotencyKey : Option Text) :
    Except ApiError GrantOutcome × Db :=
  transact db (db.spendInTx lower address amount txRef idempotencyKey)

def refund (address : Address) (amount txRef : Text) (idempotencyKey : Option Text) :
    Except ApiError GrantOutcome × Db :=
  transact db (db.refundInTx lower address amount txRef idempotencyKey)

def adminGrantCredits (address : Address) (amount : Text) (kind : Kind)
    (idempotencyKey : Option Text) : Except ApiError GrantOutcome × Db :=
  transact db (db.grantInTx lower address amount kind idempotencyKey)

def adminRevokeCredits (address : Address) (amount : Text) : Except ApiError GrantOutcome × Db :=
  transact db (db.adminRevokeInTx address amount)

end Calls

/-! ### What the transactions do -/

theorem transact_ok {α : Type} {db db' : Db} {r : Except ApiError (α × Db)} {x : α}
    (h : transact db r = (.ok x, db')) : r = .ok (x, db') := by
  unfold transact at h
  split at h
  · obtain ⟨hx, rfl⟩ := Prod.mk.inj h
    rw [Except.ok.inj hx]
  · cases (Prod.mk.inj h).1

theorem make_ok {available earned : ℚ} {u : UserCredits} (h : UserCredits.make available earned = .ok u) :
    u.available = available ∧ u.earnedAvailable = earned := by
  unfold UserCredits.make at h
  split at h
  · obtain rfl := Except.ok.inj h
    exact ⟨rfl, rfl⟩
  · cases h

section Specs

variable {lower : Text → Text} {db db' : Db} {address : Address} {amount txRef : Text}
  {key : Option Text}

theorem available_of_some {u : UserCredits} (h : db.userCredits address = some u) :
    db.available address = u.available ∧ db.earnedAvailable address = u.earnedAvailable := by
  simp [Db.available, Db.earnedAvailable, h]

theorem debit_spec {x available : ℚ} (h : db.debit address x txRef = .ok (available, db')) :
    ∃ u, u.available = available ∧ u.available = db.available address - x ∧
      u.earnedAvailable = db.earnedAvailable address - min (db.earnedAvailable address) x ∧
      db' = (db.setCredits address u).splitInsert address .spend
        (min (db.earnedAvailable address) x) (x - min (db.earnedAvailable address) x)
        (some txRef) := by
  unfold Db.debit at h
  split at h
  · cases h
  rename_i u hu
  obtain ⟨hav, hea⟩ := available_of_some hu
  split at h
  · obtain ⟨u', hmake, heq⟩ := map_ok.mp h
    obtain ⟨hav', hea'⟩ := make_ok hmake
    obtain ⟨rfl, rfl⟩ := Prod.mk.inj heq
    refine ⟨u', rfl, ?_, ?_, ?_⟩
    · rw [hav', hav]
    · rw [hea', hea]
    · rw [hea]
  · cases h

theorem claimKey_none {table : IdempotencyTable} {x : ℚ} {mismatch : String}
    (h : claimKey lower table key address x mismatch = .ok none) : key.bind table = none := by
  unfold claimKey at h
  split at h
  · assumption
  · split at h <;> cases h

theorem claimKey_some {table : IdempotencyTable} {x : ℚ} {mismatch : String} {o : GrantOutcome}
    (h : claimKey lower table key address x mismatch = .ok (some o)) :
    ∃ k row, key = some k ∧ table k = some row ∧ lower row.address = lower address ∧
      row.amount = x ∧ o = ⟨row.available, row.applied.getD row.amount, true⟩ := by
  unfold claimKey at h
  split at h
  · cases h
  · rename_i row hprior
    obtain ⟨k, rfl, hrow⟩ := Option.bind_eq_some_iff.mp hprior
    split at h
    · rename_i hmatch
      obtain rfl := Option.some.inj (Except.ok.inj h)
      exact ⟨k, row, rfl, hrow, hmatch.1, hmatch.2, rfl⟩
    · cases h

/-- A spend is of nothing, it is replayed, or it debits the wallet under its reference. -/
theorem spendInTx_cases {o : GrantOutcome}
    (h : db.spendInTx lower address amount txRef key = .ok (o, db')) :
    (db' = db ∧ numeric amount = 0 ∧ o.applied = 0 ∧ o.replayed = false) ∨
      (db' = db ∧ 0 < numeric amount ∧ ∃ k row, key = some k ∧ db.spendIdempotency k = some row ∧
        lower row.address = lower address ∧ row.amount = numeric amount ∧
        o = ⟨row.available, row.applied.getD row.amount, true⟩) ∨
      ∃ u, key.bind db.spendIdempotency = none ∧ 0 < numeric amount ∧
        o = ⟨u.available, numeric amount, false⟩ ∧
        u.available = db.available address - numeric amount ∧
        u.earnedAvailable =
          db.earnedAvailable address - min (db.earnedAvailable address) (numeric amount) ∧
        db' = { (db.setCredits address u).splitInsert address .spend
            (min (db.earnedAvailable address) (numeric amount))
            (numeric amount - min (db.earnedAvailable address) (numeric amount)) (some txRef) with
          spendIdempotency := recordKey db.spendIdempotency key
            ⟨address, numeric amount, u.available, none⟩ } := by
  obtain ⟨a, ha, h⟩ := bind_ok.mp h
  obtain ⟨hvalue, hcase⟩ := parse_spec ha
  rw [hvalue] at h
  split at h
  · rename_i hzero
    obtain ⟨rfl, rfl⟩ := Prod.mk.inj (Except.ok.inj h)
    rcases hcase with ⟨-, hnum⟩ | ⟨hnonzero, -⟩
    · exact Or.inl ⟨rfl, hnum, hnum, rfl⟩
    · rw [hnonzero] at hzero
      cases hzero
  · rename_i hnonzero
    have hpos : 0 < numeric amount := by
      rcases hcase with ⟨hzero, -⟩ | ⟨-, hpos⟩
      · exact absurd hzero hnonzero
      · exact hpos
    obtain ⟨claimed, hclaim, h⟩ := bind_ok.mp h
    cases claimed with
    | some replayed =>
      obtain ⟨rfl, rfl⟩ := Prod.mk.inj (Except.ok.inj h)
      exact Or.inr (Or.inl ⟨rfl, hpos, claimKey_some hclaim⟩)
    | none =>
      obtain ⟨⟨available, db₁⟩, hdebit, heq⟩ := map_ok.mp h
      obtain ⟨rfl, rfl⟩ := Prod.mk.inj heq
      obtain ⟨u, rfl, hav, hea, rfl⟩ := debit_spec hdebit
      exact Or.inr (Or.inr ⟨u, claimKey_none hclaim, hpos, rfl, hav, hea, rfl⟩)

theorem earned_within (db : Db) (address : Address) :
    0 ≤ db.earnedAvailable address ∧ db.earnedAvailable address ≤ db.available address := by
  unfold Db.earnedAvailable Db.available
  cases db.userCredits address with
  | none => exact ⟨le_rfl, le_rfl⟩
  | some u => exact u.earnedBound

/-- A spend does nothing, or it debits the wallet under its reference. -/
theorem spendInTx_spec {o : GrantOutcome}
    (h : db.spendInTx lower address amount txRef key = .ok (o, db')) :
    (db' = db ∧ (numeric amount = 0 ∨ (key.bind db.spendIdempotency).isSome)) ∨
      ∃ u earned paid row, 0 ≤ earned ∧ 0 ≤ paid ∧ earned + paid = numeric amount ∧
        u.available = db.available address - numeric amount ∧
        u.earnedAvailable = db.earnedAvailable address - earned ∧
        db' = { (db.setCredits address u).splitInsert address .spend earned paid (some txRef) with
          spendIdempotency := recordKey db.spendIdempotency key row } := by
  rcases spendInTx_cases h with ⟨rfl, hzero, -⟩ | ⟨rfl, -, k, row, rfl, hrow, -⟩ |
    ⟨u, -, hpos, -, hav, hea, rfl⟩
  · exact Or.inl ⟨rfl, Or.inl hzero⟩
  · refine Or.inl ⟨rfl, Or.inr ?_⟩
    rw [Option.bind_some, hrow]
    rfl
  · exact Or.inr ⟨u, _, _, _, le_min (earned_within db address).1 hpos.le,
      sub_nonneg.mpr (min_le_right _ _), add_sub_cancel _ _, hav, hea, rfl⟩

theorem upsert_spec {x y : ℚ} {u : UserCredits} (h : db.upsertCredits address x y = .ok u) :
    u.available = db.available address + x ∧
      u.earnedAvailable = db.earnedAvailable address + y := by
  unfold Db.upsertCredits at h
  split at h
  · rename_i hnone
    obtain ⟨hav, hea⟩ := make_ok h
    simp [Db.available, Db.earnedAvailable, hnone, hav, hea]
  · rename_i u₀ hu
    obtain ⟨hav, hea⟩ := make_ok h
    simp [Db.available, Db.earnedAvailable, hu, hav, hea]

/-- A refund is replayed, or it credits what is left to refund, the earned credits first. -/
theorem refundInTx_cases {o : GrantOutcome}
    (h : db.refundInTx lower address amount txRef key = .ok (o, db')) :
    (db' = db ∧ ∃ k row, key = some k ∧ db.refundIdempotency k = some row ∧
        lower row.address = lower address ∧ row.amount = numeric amount ∧
        o = ⟨row.available, row.applied.getD row.amount, true⟩) ∨
      ∃ u, key.bind db.refundIdempotency = none ∧ 0 < numeric amount ∧
        o = ⟨u.available, db.refundApplied address (numeric amount) txRef, false⟩ ∧
        u.available = db.available address + db.refundApplied address (numeric amount) txRef ∧
        u.earnedAvailable =
          db.earnedAvailable address + db.refundEarned address (numeric amount) txRef ∧
        db' = { (db.setCredits address u).splitInsert address .refund
            (db.refundEarned address (numeric amount) txRef)
            (db.refundApplied address (numeric amount) txRef -
              db.refundEarned address (numeric amount) txRef) (some txRef) with
          refundIdempotency := recordKey db.refundIdempotency key ⟨address, numeric amount,
            u.available, some (db.refundApplied address (numeric amount) txRef)⟩ } := by
  obtain ⟨a, ha, h⟩ := bind_ok.mp h
  obtain ⟨hvalue, hpos⟩ := parsePositive_spec ha
  rw [hvalue] at h
  obtain ⟨claimed, hclaim, h⟩ := bind_ok.mp h
  cases claimed with
  | some replayed =>
    obtain ⟨rfl, rfl⟩ := Prod.mk.inj (Except.ok.inj h)
    exact Or.inl ⟨rfl, claimKey_some hclaim⟩
  | none =>
    obtain ⟨u, hupsert, heq⟩ := map_ok.mp h
    obtain ⟨rfl, rfl⟩ := Prod.mk.inj heq
    obtain ⟨hav, hea⟩ := upsert_spec hupsert
    exact Or.inr ⟨u, claimKey_none hclaim, hpos, rfl, hav, hea, rfl⟩

/-- A refund is replayed, or it credits what is left to refund under its reference. -/
theorem refundInTx_spec {o : GrantOutcome}
    (h : db.refundInTx lower address amount txRef key = .ok (o, db')) :
    (db' = db ∧ (key.bind db.refundIdempotency).isSome) ∨
      ∃ u earned paid row, key.bind db.refundIdempotency = none ∧ 0 ≤ earned ∧ 0 ≤ paid ∧
        earned + paid = db.refundApplied address (numeric amount) txRef ∧
        u.available = db.available address + (earned + paid) ∧
        u.earnedAvailable = db.earnedAvailable address + earned ∧
        db' = { (db.setCredits address u).splitInsert address .refund earned paid (some txRef) with
          refundIdempotency := recordKey db.refundIdempotency key row } := by
  rcases refundInTx_cases h with ⟨rfl, k, row, rfl, hrow, -⟩ | ⟨u, hkey, hpos, -, hav, hea, rfl⟩
  · refine Or.inl ⟨rfl, ?_⟩
    rw [Option.bind_some, hrow]
    rfl
  · have happlied : 0 ≤ db.refundApplied address (numeric amount) txRef :=
      le_min hpos.le (le_max_left _ _)
    have hsum : db.refundEarned address (numeric amount) txRef +
        (db.refundApplied address (numeric amount) txRef -
          db.refundEarned address (numeric amount) txRef) =
        db.refundApplied address (numeric amount) txRef := add_sub_cancel _ _
    refine Or.inr ⟨u, db.refundEarned address (numeric amount) txRef, _, _, hkey,
      le_min happlied (le_max_left _ _), ?_, hsum, ?_, hea, rfl⟩
    · exact sub_nonneg.mpr (min_le_left _ _)
    · rw [hsum]
      exact hav

theorem grantInTx_spec {o : GrantOutcome} {kind : Kind}
    (h : db.grantInTx lower address amount kind key = .ok (o, db')) :
    db' = db ∨ (kind ∈ Db.grantKinds ∧ ∃ u row, 0 < numeric amount ∧
      u.available = db.available address + numeric amount ∧
      u.earnedAvailable = db.earnedAvailable address ∧
      db' = { db.setCredits address u with
        creditLedger := db.creditLedger ++ [⟨address, kind, numeric amount, none, .paid⟩]
        grantIdempotency := recordKey db.grantIdempotency key row }) := by
  unfold Db.grantInTx at h
  split at h
  · cases h
  rename_i hkind
  obtain ⟨a, ha, h⟩ := bind_ok.mp h
  obtain ⟨hvalue, hpos⟩ := parsePositive_spec ha
  obtain ⟨claimed, hclaim, h⟩ := bind_ok.mp h
  cases claimed with
  | some replayed =>
    obtain ⟨-, rfl⟩ := Prod.mk.inj (Except.ok.inj h)
    exact Or.inl rfl
  | none =>
    obtain ⟨u, hupsert, heq⟩ := map_ok.mp h
    obtain ⟨-, rfl⟩ := Prod.mk.inj heq
    obtain ⟨hav, hea⟩ := upsert_spec hupsert
    rw [hvalue] at hav ⊢
    exact Or.inr ⟨not_not.mp hkind, u, _, hpos, hav, hea.trans (add_zero _), rfl⟩

/-- How a revocation splits what it removes. -/
theorem revoke_split {u u' : UserCredits} {x : ℚ} (hx : 0 < x)
    (h : UserCredits.make (max (u.available - x) 0)
      (min u.earnedAvailable (max (u.available - x) 0)) = .ok u') :
    u'.available = max (u.available - x) 0 ∧ 0 ≤ u.earnedAvailable - u'.earnedAvailable ∧
      0 ≤ u.available - u'.available - (u.earnedAvailable - u'.earnedAvailable) := by
  obtain ⟨hav, hea⟩ := make_ok h
  have hnonneg : 0 ≤ u.available := u.earnedBound.1.trans u.earnedBound.2
  have hle : max (u.available - x) 0 ≤ u.available := max_le (by linarith) hnonneg
  refine ⟨hav, ?_, ?_⟩
  · rw [hea]
    exact sub_nonneg.mpr (min_le_left _ _)
  · rw [hav, hea]
    rcases min_choice u.earnedAvailable (max (u.available - x) 0) with hmin | hmin <;> rw [hmin]
    · linarith
    · linarith [u.earnedBound.2]

theorem revokeInTx_spec {o : Db.RevokeOutcome}
    (h : db.revokeInTx address amount txRef = .ok (o, db')) :
    db' = db ∨ ∃ u earned paid, 0 ≤ earned ∧ 0 ≤ paid ∧
      u.available = db.available address - (earned + paid) ∧
      u.earnedAvailable = db.earnedAvailable address - earned ∧
      db' = (db.setCredits address u).splitInsert address .consume earned paid (some txRef) := by
  obtain ⟨a, ha, h⟩ := bind_ok.mp h
  obtain ⟨hvalue, hpos⟩ := parsePositive_spec ha
  split at h
  · obtain ⟨-, rfl⟩ := Prod.mk.inj (Except.ok.inj h)
    exact Or.inl rfl
  · rename_i u hu
    obtain ⟨u', hmake, heq⟩ := map_ok.mp h
    obtain ⟨-, rfl⟩ := Prod.mk.inj heq
    obtain ⟨hav, hea⟩ := available_of_some hu
    obtain ⟨-, hearned, hpaid⟩ := revoke_split (hvalue ▸ hpos) hmake
    refine Or.inr ⟨u', _, _, hearned, hpaid, ?_, ?_, rfl⟩
    · rw [hav]
      ring
    · rw [hea]
      ring

theorem adminRevokeInTx_spec {o : GrantOutcome}
    (h : db.adminRevokeInTx address amount = .ok (o, db')) :
    ∃ u earned paid, 0 ≤ earned ∧ 0 ≤ paid ∧
      u.available = db.available address - (earned + paid) ∧
      u.earnedAvailable = db.earnedAvailable address - earned ∧
      db' = (db.setCredits address u).splitInsert address .consume earned paid none := by
  obtain ⟨a, ha, h⟩ := bind_ok.mp h
  obtain ⟨hvalue, hpos⟩ := parsePositive_spec ha
  split at h
  · cases h
  · rename_i u hu
    obtain ⟨u', hmake, heq⟩ := map_ok.mp h
    obtain ⟨-, rfl⟩ := Prod.mk.inj heq
    obtain ⟨hav, hea⟩ := available_of_some hu
    obtain ⟨hnew, hearned, hpaid⟩ := revoke_split (hvalue ▸ hpos) hmake
    rw [hnew] at hpaid
    refine ⟨u', _, _, hearned, le_max_right _ _, ?_, ?_, rfl⟩
    · rw [hav, hnew, max_eq_left hpaid]
      ring
    · rw [hea]
      ring

end Specs

end Catalyrst.Credits
