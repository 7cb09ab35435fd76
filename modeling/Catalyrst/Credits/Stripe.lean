import Mathlib
import Catalyrst.Credits.Checkout
import Catalyrst.Lib.Machine

/-!
# The Stripe webhook

A delivery records its event, carries it out and marks it as processed; only then it is
acknowledged. Marking a purchase as paid, granting its credits and reversing it are
transactions of their own, so deliveries may interleave and be cut short between them, and
what is not acknowledged is delivered again. Purchases made through a payment intent have no
checkout session, and those made through a session no payment intent.
-/

namespace Catalyrst.Credits.Stripe

open Catalyrst.Lib

inductive EventType where
  | paymentIntentSucceeded
  | checkoutSessionCompleted
  | checkoutSessionExpired
  | checkoutSessionAsyncPaymentFailed
  | chargeRefunded
  | chargeDisputeCreated
  | chargeDisputeFundsWithdrawn
  | other
  deriving DecidableEq

/-- The fields of `data.object` that are read. -/
structure EventObject where
  id : Option Text
  amount : Option ℤ
  amountTotal : Option ℤ
  paymentIntent : Option Text
  amountRefunded : Option ℤ

structure StripeEvent where
  type : EventType
  object : EventObject

/-- What a purchase is found by. -/
inductive PurchaseKey where
  | intent (id : Text)
  | session (id : Text)
  deriving DecidableEq

/-- The rows of `credit_purchases` with a payment intent are in `db`. -/
structure Tables where
  db : Db
  /-- By `stripe_checkout_session`. -/
  orders : Text → Option Purchase
  /-- `stripe_event_id`. -/
  paidBy : PurchaseKey → Option Text
  /-- Whether `processed_at` is set. -/
  stripeEvents : Text → Option Bool

inductive MarkPaidOutcome where
  | granted (address : Address) (credits : ℚ)
  | amountMismatch (expectedCents chargedCents : ℤ)
  | noPendingPurchase

namespace Tables

variable (t : Tables)

def find : PurchaseKey → Option Purchase
  | .intent id => t.db.purchases id
  | .session id => t.orders id

def store (p : Purchase) : PurchaseKey → Tables
  | .intent id => { t with db := t.db.setPurchase id p }
  | .session id => { t with orders := Function.update t.orders id (some p) }

/-- `mark_purchase_paid` and `mark_order_paid_by_session`, which differ in the key. -/
def markPaid (key : PurchaseKey) (eventId : Text) (chargedCents : ℤ) : MarkPaidOutcome × Tables :=
  match t.find key with
  | none => (.noPendingPurchase, t)
  | some p =>
    if p.status = .paid ∧ t.paidBy key = some eventId then (.granted p.address p.credits, t)
    else if p.status ≠ .pending then (.noPendingPurchase, t)
    else if p.amountCents ≠ chargedCents then (.amountMismatch p.amountCents chargedCents, t)
    else
      let t' := t.store { p with status := .paid } key
      (.granted p.address p.credits,
        { t' with paidBy := Function.update t'.paidBy key (some eventId) })

def markPurchasePaid (paymentIntent eventId : Text) (chargedCents : ℤ) : MarkPaidOutcome × Tables :=
  t.markPaid (.intent paymentIntent) eventId chargedCents

def markOrderPaidBySession (sessionId eventId : Text) (chargedCents : ℤ) :
    MarkPaidOutcome × Tables :=
  t.markPaid (.session sessionId) eventId chargedCents

/-- Only a pending order becomes abandoned or failed. -/
def markOrderStatusBySession (sessionId : Text) (status : PurchaseStatus) : Tables :=
  match t.orders sessionId with
  | none => t
  | some p => if p.status = .pending then t.store { p with status := status } (.session sessionId) else t

/-- Whether the event needs processing. -/
def recordStripeEvent (eventId : Text) : Bool × Tables :=
  match t.stripeEvents eventId with
  | none => (true, { t with stripeEvents := Function.update t.stripeEvents eventId (some false) })
  | some processed => (!processed, t)

def markStripeEventProcessed (eventId : Text) : Tables :=
  let row := (t.stripeEvents eventId).map fun _ => true
  { t with stripeEvents := Function.update t.stripeEvents eventId row }

end Tables

/-! ### One event -/

/-- What is left to do after the first transaction. -/
inductive Next where
  | grant (key : PurchaseKey) (address : Address) (credits : ℚ)
  | finish

def required {α : Type} (field : Option α) (message : String) : Except ApiError α :=
  field.elim (.error (.badRequest message)) .ok

/-- A purchase that does not match is left as it is, with a warning. -/
def grantNext (key : PurchaseKey) : MarkPaidOutcome × Tables → Next × Tables
  | (.granted address credits, t) => (.grant key address credits, t)
  | (.amountMismatch _ _, t) => (.finish, t)
  | (.noPendingPurchase, t) => (.finish, t)

section Process

variable (divide : ℚ → ℤ → ℚ) (t : Tables)

/-- Whatever a reversal finds is only logged. -/
def reversed (r : Except ApiError ReversalOutcome × Db) : Except ApiError (Next × Tables) :=
  r.1.map fun _ => (.finish, { t with db := r.2 })

def applyPartialRefund (object : EventObject) (eventId chargedBackText : Text) :
    Except ApiError (Next × Tables) :=
  match object.paymentIntent with
  | none => .ok (.finish, t)
  | some intent =>
    (required object.amountRefunded "charge.refunded missing amount_refunded").bind fun cents =>
      reversed t (t.db.recordChargeRefund divide intent cents eventId chargedBackText)

def applyFullReversal (object : EventObject) (eventId chargedBackText : Text) (status : PurchaseStatus) :
    Except ApiError (Next × Tables) :=
  match object.paymentIntent with
  | none => .ok (.finish, t)
  | some intent => reversed t (t.db.recordFullReversal divide intent status eventId chargedBackText)

/-- A terminal event without an id is ignored. -/
def markSessionTerminal (object : EventObject) (status : PurchaseStatus) : Next × Tables :=
  match object.id with
  | none => (.finish, t)
  | some sessionId => (.finish, t.markOrderStatusBySession sessionId status)

/-- The first transaction of an event that needs processing. -/
def process (eventId : Text) (e : StripeEvent) (chargedBackText : Text) :
    Except ApiError (Next × Tables) :=
  match e.type with
  | .paymentIntentSucceeded =>
    (required e.object.id "payment_intent missing id").bind fun id =>
      (required e.object.amount "payment_intent missing amount").bind fun cents =>
        .ok (grantNext (.intent id) (t.markPurchasePaid id eventId cents))
  | .checkoutSessionCompleted =>
    (required e.object.id "checkout.session missing id").bind fun id =>
      (required e.object.amountTotal "checkout.session missing amount_total").bind fun cents =>
        .ok (grantNext (.session id) (t.markOrderPaidBySession id eventId cents))
  | .checkoutSessionExpired => .ok (markSessionTerminal t e.object .abandoned)
  | .checkoutSessionAsyncPaymentFailed => .ok (markSessionTerminal t e.object .failed)
  | .chargeRefunded => applyPartialRefund divide t e.object eventId chargedBackText
  | .chargeDisputeCreated => applyFullReversal divide t e.object eventId chargedBackText .disputed
  | .chargeDisputeFundsWithdrawn =>
    applyFullReversal divide t e.object eventId chargedBackText .disputed
  | .other => .ok (.finish, t)

end Process

/-! ### Deliveries -/

inductive Delivery where
  | received (eventId : Text)
  /-- The event is recorded and needs processing. -/
  | recorded (eventId : Text)
  /-- The purchase is marked as paid. -/
  | granting (eventId : Text) (key : PurchaseKey) (address : Address) (credits : ℚ)
  /-- What is left is to mark the event as processed. -/
  | finishing (eventId : Text)
  | ended

structure System where
  tables : Tables
  deliveries : List Delivery
  /-- The events that have been delivered so far. -/
  delivered : List Text
  /-- The grants that were committed, with the purchase and the amount. -/
  grants : List (PurchaseKey × ℚ)

inductive Event where
  | deliver (eventId : Text)
  /-- The next transaction of a delivery; the literals are `credits::text` and
  `charged_back::text`. -/
  | advance (index : ℕ) (creditsText chargedBackText : Text)
  | crash (index : ℕ)
  /-- Other calls move wallets. -/
  | others (userCredits : Address → Option UserCredits) (creditLedger : List LedgerRow)

section Step

variable (lower : Text → Text) (divide : ℚ → ℤ → ℚ) (content : Text → StripeEvent)

/-- One transaction of a delivery, with what it has granted. -/
def advance (t : Tables) (creditsText chargedBackText : Text) :
    Delivery → Option (Tables × Delivery × List (PurchaseKey × ℚ))
  | .received id =>
    let (needsProcessing, t') := t.recordStripeEvent id
    some (t', if needsProcessing then .recorded id else .ended, [])
  | .recorded id =>
    match process divide t id (content id) chargedBackText with
    | .ok (.grant key address credits, t') => some (t', .granting id key address credits, [])
    | .ok (.finish, t') => some (t', .finishing id, [])
    | .error _ => some (t, .ended, [])
  | .granting id key address credits =>
    if numeric creditsText = credits then
      match adminGrantCredits lower t.db address creditsText .purchase (some id) with
      | (.ok o, db) =>
        some ({ t with db := db }, .finishing id, if o.replayed then [] else [(key, o.applied)])
      | (.error _, _) => some (t, .ended, [])
    else none
  | .finishing id => some (t.markStripeEventProcessed id, .ended, [])
  | .ended => none

def System.step (y : System) : Event → Option System
  | .deliver id =>
    some { y with deliveries := y.deliveries ++ [.received id], delivered := y.delivered ++ [id] }
  | .advance index creditsText chargedBackText => do
    let delivery ← y.deliveries[index]?
    let (tables, next, granted) ←
      advance lower divide content y.tables creditsText chargedBackText delivery
    return ⟨tables, y.deliveries.set index next, y.delivered, y.grants ++ granted⟩
  | .crash index => some { y with deliveries := y.deliveries.set index .ended }
  | .others userCredits creditLedger =>
    let db := { y.tables.db with userCredits := userCredits, creditLedger := creditLedger }
    some { y with tables := { y.tables with db := db } }

end Step

end Catalyrst.Credits.Stripe
