import Mathlib
import Catalyrst.Credits.Checkout
import Catalyrst.Lib.Machine

/-!
# The outbox workers

Any number of workers run over one database. `process_one` locks its line, calls the
broker and finalises; until it has finalised, its line is in flight. A compensation is
under way from the failure that calls for it, or from a sweep, until its checkout is
closed. Both may be cut short at any point.
-/

namespace Catalyrst.Credits

open Catalyrst.Lib

/-- What `process_one` has read of its line. -/
structure OutboxRow where
  id : ℕ
  checkoutId : ℕ
  attempts : ℤ
  buyer : Address
  deriving DecidableEq

inductive BrokerResult where
  | confirmed
  | retryable
  | terminal
  deriving DecidableEq

inductive CompensationStage where
  /-- To read the lines. -/
  | due
  /-- `refund_amt` and `any_confirmed`. -/
  | read (refundAmt : ℚ) (anyConfirmed : Bool)
  /-- To close the checkout. -/
  | closing (anyConfirmed : Bool)
  deriving DecidableEq

structure Compensation where
  checkoutId : ℕ
  buyer : Address
  stage : CompensationStage
  deriving DecidableEq

structure System where
  db : Db
  /-- The lines in flight; their rows are locked. -/
  flights : List OutboxRow
  compensations : List Compensation

namespace Db

variable (db : Db)

/-- The claim of `process_one`; a locked row is skipped. -/
def claimLine (locked : List ℕ) (id : ℕ) : Option OutboxRow :=
  (db.findLine id).bind fun line =>
    (db.findCheckout line.checkoutId).bind fun checkout =>
      if line.status = .pending ∧ checkout.status = .fulfilling ∧ id ∉ locked then
        some ⟨line.id, line.checkoutId, line.attempts, checkout.address⟩
      else none

def confirmLine (row : OutboxRow) : Db :=
  let db := db.updateLine row.id fun l => { l with status := .confirmed }
  if db.outbox.any fun l => l.checkoutId = row.checkoutId ∧ l.status ≠ .confirmed then db
  else db.setStatus row.checkoutId .fulfilling .fulfilled

def failAndFreeze (row : OutboxRow) : Db :=
  (db.updateLine row.id fun l =>
    { l with status := .failed, attempts := l.attempts + 1 }).setStatus row.checkoutId .fulfilling
      .reversing

/-- The prices of the lines of a checkout, by whether they are confirmed. -/
def linePrices (checkoutId : ℕ) (confirmed : Bool) : ℚ :=
  tally (fun l => l.checkoutId = checkoutId ∧ decide (l.status = .confirmed) = confirmed)
    OutboxLine.unitPriceCredits db.outbox

def anyConfirmed (checkoutId : ℕ) : Bool :=
  db.outbox.any fun l => l.checkoutId = checkoutId ∧ l.status = .confirmed

end Db

namespace System

def new : System := ⟨Db.new, [], []⟩

/-- `try_compensate`. -/
def compensate (s : System) (checkoutId : ℕ) (buyer : Address) : System :=
  { s with compensations := s.compensations ++ [⟨checkoutId, buyer, .due⟩] }

def finalise (maxAttempts : ℤ) (s : System) (row : OutboxRow) (result : BrokerResult) : System :=
  match result with
  | .confirmed => { s with db := s.db.confirmLine row }
  | .retryable =>
    if maxAttempts ≤ row.attempts + 1 then
      { s with db := s.db.failAndFreeze row }.compensate row.checkoutId row.buyer
    else { s with db := s.db.updateLine row.id fun l => { l with attempts := row.attempts + 1 } }
  | .terminal => { s with db := s.db.failAndFreeze row }.compensate row.checkoutId row.buyer

/-- The next transaction of a compensation. `refundText` is `refund_amt::text`. -/
def advance (lower : Text → Text) (s : System) (i : ℕ) (c : Compensation) (refundText : Text) :
    Option System :=
  match c.stage with
  | .due =>
    let refundAmt := s.db.linePrices c.checkoutId false
    let confirmed := s.db.anyConfirmed c.checkoutId
    let stage := if 0 < refundAmt then CompensationStage.read refundAmt confirmed else .closing confirmed
    some { s with compensations := s.compensations.set i ⟨c.checkoutId, c.buyer, stage⟩ }
  | .read refundAmt confirmed =>
    if numeric refundText = refundAmt then
      match refund lower s.db c.buyer refundText (checkoutRef c.checkoutId)
          (some (reversalKey c.checkoutId)) with
      | (.ok _, db) =>
        some { s with
          db := db
          compensations := s.compensations.set i ⟨c.checkoutId, c.buyer, .closing confirmed⟩ }
      | (.error _, db) => some { s with db := db, compensations := s.compensations.eraseIdx i }
    else none
  | .closing confirmed =>
    some { s with
      db := s.db.setStatus c.checkoutId .reversing (if confirmed then .failed else .reversed)
      compensations := s.compensations.eraseIdx i }

end System

/-- What the workers, the customers and the administrators do to checkouts. -/
inductive PipelineAction where
  | openCart (address : Address)
  | runCheckout (address : Address) (idempotencyKey : Text) (repriced : List RepricedLine)
      (totalText : Text)
  | claim (line : ℕ)
  | finalise (flight : ℕ) (result : BrokerResult)
  /-- A worker stops: its transaction is rolled back. -/
  | drop (flight : ℕ)
  | sweep (checkoutId : ℕ)
  | advance (compensation : ℕ) (refundText : Text)
  /-- A compensation ends with an error. -/
  | abandon (compensation : ℕ)
  /-- A manual refund of a checkout that is still fulfilling. -/
  | refundManual (checkoutId : ℕ) (totalText : Text)

namespace System

variable (lower : Text → Text) (maxAttempts : ℤ)

def pipeline (s : System) : PipelineAction → Option System
  | .openCart address => some { s with db := { s.db with carts := insert address s.db.carts } }
  | .runCheckout address key repriced totalText =>
    if numeric totalText = orderTotal repriced then
      some { s with db := (s.db.runCheckout lower address key repriced totalText).2 }
    else none
  | .claim line =>
    (s.db.claimLine (s.flights.map OutboxRow.id) line).map fun row =>
      { s with flights := s.flights ++ [row] }
  | .finalise flight result =>
    s.flights[flight]?.map fun row =>
      { s with flights := s.flights.eraseIdx flight }.finalise maxAttempts row result
  | .drop flight => some { s with flights := s.flights.eraseIdx flight }
  | .sweep checkoutId =>
    (s.db.checkouts.find? fun c => c.id = checkoutId ∧ c.status = .reversing).map fun c =>
      s.compensate c.id c.address
  | .advance i refundText => s.compensations[i]?.bind fun c => s.advance lower i c refundText
  | .abandon i => some { s with compensations := s.compensations.eraseIdx i }
  | .refundManual checkoutId totalText =>
    (s.db.checkouts.find? fun c => c.id = checkoutId ∧ c.status = .fulfilling).bind fun c =>
      if numeric totalText = c.totalCredits then
        some { s with db := (s.db.refundCheckoutManual lower c.id c.address totalText).2 }
      else none

end System

end Catalyrst.Credits
