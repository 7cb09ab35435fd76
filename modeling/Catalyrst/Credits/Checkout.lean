import Mathlib
import Catalyrst.Credits.Wallet

/-!
# Checkouts, their fulfilment, and reversed purchases

A checkout debits the wallet and writes one outbox line for each unit. Workers take the
lines one by one: they lock the row, call the broker and record what came of it, in one
transaction each. A line that fails for good freezes its checkout, and a compensation
refunds what was not delivered, in three transactions: it reads the lines, refunds, and
closes the checkout. Which literal a `NUMERIC` is rendered to depends on the scales of the
values behind it, so the literals are inputs here, bound to their values.
-/

namespace Catalyrst.Credits

open Catalyrst.Lib

structure RepricedLine where
  unitPriceCredits : ℚ
  qty : ℤ
  deriving DecidableEq

structure CheckoutOutcome where
  id : ℕ
  status : CheckoutStatus
  replayed : Bool
  deriving DecidableEq

/-- `checkout:<id>`. -/
def checkoutRef (id : ℕ) : Text := ['c', 'h', 'e', 'c', 'k', 'o', 'u', 't', ':'] ++ Nat.toDigits 10 id

/-- `reversal:<id>`. -/
def reversalKey (id : ℕ) : Text := ['r', 'e', 'v', 'e', 'r', 's', 'a', 'l', ':'] ++ Nat.toDigits 10 id

/-- `admin:refund:<id>`. -/
def manualKey (id : ℕ) : Text :=
  ['a', 'd', 'm', 'i', 'n', ':', 'r', 'e', 'f', 'u', 'n', 'd', ':'] ++ Nat.toDigits 10 id

def stripeRef (eventId : Text) : Text := ['s', 't', 'r', 'i', 'p', 'e', ':'] ++ eventId

/-- `SUM(p::numeric * q)`. -/
def orderTotal (repriced : List RepricedLine) : ℚ :=
  (repriced.map fun l => l.unitPriceCredits * (l.qty : ℚ)).sum

/-- One line for each unit, by `generate_series(1, qty)`. -/
def outboxLines (checkoutId firstLine : ℕ) (repriced : List RepricedLine) : List OutboxLine :=
  (repriced.flatMap fun l => List.replicate l.qty.toNat l.unitPriceCredits).mapIdx fun i price =>
    ⟨firstLine + i, checkoutId, price, .pending, 0⟩

namespace Db

variable (lower : Text → Text) (db : Db)

def findCheckout (id : ℕ) : Option Checkout := db.checkouts.find? fun c => c.id = id

def findLine (id : ℕ) : Option OutboxLine := db.outbox.find? fun l => l.id = id

def setStatus (id : ℕ) (fromStatus toStatus : CheckoutStatus) : Db :=
  { db with checkouts := db.checkouts.map fun c =>
      if c.id = id ∧ c.status = fromStatus then { c with status := toStatus } else c }

def updateLine (id : ℕ) (f : OutboxLine → OutboxLine) : Db :=
  { db with outbox := db.outbox.map fun l => if l.id = id then f l else l }

def addCheckout (address : Address) (key : Text) (total : ℚ) (status : CheckoutStatus) : Db :=
  { db with
    checkouts := db.checkouts ++ [⟨db.nextCheckout, key, address, total, status⟩]
    nextCheckout := db.nextCheckout + 1 }

def addLines (checkoutId : ℕ) (repriced : List RepricedLine) : Db :=
  let lines := outboxLines checkoutId db.nextLine repriced
  { db with outbox := db.outbox ++ lines, nextLine := db.nextLine + lines.length }

/-- `totalText` is `total::text`. -/
def runCheckout (address : Address) (idempotencyKey : Text) (repriced : List RepricedLine)
    (totalText : Text) : Except ApiError CheckoutOutcome × Db :=
  if repriced = [] then (.error (.badRequest "cart is empty"), db)
  else
    match db.checkouts.find? fun c => c.idempotencyKey = idempotencyKey with
    | some prior =>
      if lower prior.address = lower address then (.ok ⟨prior.id, prior.status, true⟩, db)
      else (.error (.conflict "Idempotency-Key already used by a different wallet"), db)
    | none =>
      let id := db.nextCheckout
      if address ∉ db.carts then
        -- these two failures are committed
        (.error (.badRequest "cart is empty"), db.addCheckout address idempotencyKey 0 .failed)
      else
        let total := orderTotal repriced
        let sufficient : Bool :=
          (db.userCredits address).elim (total = 0) fun u => total ≤ u.available
        if !sufficient then
          (.error insufficient, db.addCheckout address idempotencyKey total .failed)
        else
          transact db <|
            ((db.addCheckout address idempotencyKey total .fulfilling).spendInTx lower address
              totalText (checkoutRef id) (some idempotencyKey)).map fun (_, db') =>
                (⟨id, .fulfilling, false⟩, db'.addLines id repriced)

def refundCheckoutManual (id : ℕ) (address : Address) (amount : Text) :
    Except ApiError (GrantOutcome × Bool) × Db :=
  transact db <|
    (db.refundInTx lower address amount (checkoutRef id) (some (manualKey id))).map fun (o, db') =>
      ((o, db'.checkouts.any fun c => c.id = id ∧ c.status = .fulfilling),
        db'.setStatus id .fulfilling .failed)

end Db

/-! ### Reversed purchases -/

inductive ReversalTarget where
  | cumulative (cents : ℤ)
  | full
  deriving DecidableEq

/-- The cents that have gone back after the event. -/
def ReversalTarget.newRefunded (target : ReversalTarget) (p : Purchase) : ℤ :=
  match target with
  | .cumulative c => max p.refundedCents (min c p.amountCents)
  | .full => p.amountCents

inductive ReversalOutcome where
  | reversed (address : Address) (chargedBack removed shortfall : ℚ) (hasShortfall : Bool)
  | nothingToReverse
  | noPaidPurchase

namespace Db

variable (divide : ℚ → ℤ → ℚ) (db : Db)

def setPurchase (paymentIntent : Text) (p : Purchase) : Db :=
  { db with purchases := Function.update db.purchases paymentIntent (some p) }

/-- The credits of a purchase that are charged back once `newRefunded` cents have gone back.
`divide` is the division of `NUMERIC`. -/
def revokedAfter (p : Purchase) (newRefunded : ℤ) : ℚ :=
  min p.credits
    (if p.amountCents ≤ 0 ∨ p.amountCents ≤ newRefunded then p.credits
      else p.revokedCredits + divide (p.credits * ((newRefunded - p.refundedCents : ℤ) : ℚ)) p.amountCents)

/-- `chargedBackText` is `charged_back::text`. -/
def applyReversal (paymentIntent : Text) (target : ReversalTarget)
    (statusLabel : Option PurchaseStatus) (eventId chargedBackText : Text) :
    Except ApiError ReversalOutcome × Db :=
  match db.purchases paymentIntent with
  | none => (.ok .noPaidPurchase, db)
  | some p =>
    if p.status ≠ .paid then (.ok .noPaidPurchase, db)
    -- `clamp` panics when its bounds are the wrong way round
    else if p.amountCents < p.refundedCents ∧ target ≠ .full then (.error .internal, db)
    else
      let newRefunded := target.newRefunded p
      if newRefunded ≤ p.refundedCents then (.ok .nothingToReverse, db)
      else
        let revoked := revokedAfter divide p newRefunded
        if h : 0 ≤ revoked ∧ revoked ≤ p.credits then
          let status := statusLabel.getD (if p.amountCents ≤ newRefunded then .refunded else p.status)
          let db' := db.setPurchase paymentIntent
            { p with refundedCents := newRefunded, revokedCredits := revoked, status := status,
                     revokedBound := h }
          if p.revokedCredits < revoked then
            transact db <|
              (db'.revokeInTx p.address chargedBackText (stripeRef eventId)).map fun (o, db'') =>
                (.reversed p.address (revoked - p.revokedCredits) o.removed o.shortfall
                  o.hasShortfall, db'')
          else (.ok .nothingToReverse, db')
        else (.error .internal, db)

def recordChargeRefund (paymentIntent : Text) (cumulativeRefundedCents : ℤ)
    (eventId chargedBackText : Text) : Except ApiError ReversalOutcome × Db :=
  db.applyReversal divide paymentIntent (.cumulative cumulativeRefundedCents) none eventId
    chargedBackText

def recordFullReversal (paymentIntent : Text) (statusLabel : PurchaseStatus)
    (eventId chargedBackText : Text) : Except ApiError ReversalOutcome × Db :=
  db.applyReversal divide paymentIntent .full (some statusLabel) eventId chargedBackText

end Db

end Catalyrst.Credits
