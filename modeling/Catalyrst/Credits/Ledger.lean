import Mathlib
import Catalyrst.Credits.Outbox

/-!
# The ledger and the balances agree

Every transaction that moves a wallet appends ledger rows for exactly what it moved, in
the bucket it moved it in. So the signed sums of the ledger are the balances, whatever is
called in whatever order.
-/

namespace Catalyrst.Credits

open Catalyrst.Lib Catalyrst.Lib.Fallible Catalyrst.Lib.Tally

namespace Db

variable (db : Db)

/-- The sum of `reconcile_ledger_balance`. -/
def signedSum (address : Address) : ℚ :=
  tally (fun r => r.address = address) LedgerRow.signed db.creditLedger

/-- The sum of `reconcile_earned_balance`. -/
def signedEarned (address : Address) : ℚ :=
  tally (fun r => r.address = address ∧ r.bucket = .earned) LedgerRow.signed db.creditLedger

end Db

def Balanced (db : Db) : Prop :=
  ∀ address, db.signedSum address = db.available address ∧
    db.signedEarned address = db.earnedAvailable address

/-- Which way a kind counts. -/
def Kind.sign : Kind → ℚ
  | .grant | .refund | .purchase | .claim => 1
  | .spend | .consume | .expire => -1

theorem signed_eq (r : LedgerRow) : r.signed = r.kind.sign * r.amount := by
  unfold LedgerRow.signed Kind.sign
  cases r.kind <;> simp

section Posting

variable {db db' : Db} {a : Address} {k : Kind} {earned paid : ℚ} {t : Option Text} {u : UserCredits}

/-- A part that is not positive is zero, so that its row would count for nothing. -/
theorem tally_ledgerSplit {f : LedgerRow → ℚ} (hf : ∀ r, r.amount = 0 → f r = 0)
    (p : LedgerRow → Bool) (he : 0 ≤ earned) (hp : 0 ≤ paid) :
    tally p f (Db.ledgerSplit a k earned paid t) =
      (if p ⟨a, k, earned, t, .earned⟩ then f ⟨a, k, earned, t, .earned⟩ else 0) +
        (if p ⟨a, k, paid, t, .paid⟩ then f ⟨a, k, paid, t, .paid⟩ else 0) := by
  have hzero : ∀ b, f ⟨a, k, 0, t, b⟩ = 0 := fun b => hf _ rfl
  unfold Db.ledgerSplit
  rcases he.eq_or_lt with rfl | he <;> rcases hp.eq_or_lt with rfl | hp <;>
    simp [tally_cons, *]

theorem signed_zero (r : LedgerRow) (h : r.amount = 0) : r.signed = 0 := by
  rw [signed_eq, h, mul_zero]

theorem Balanced.congr (h : Balanced db) (hu : db'.userCredits = db.userCredits)
    (hl : db'.creditLedger = db.creditLedger) : Balanced db' := by
  intro address
  simp only [Db.signedSum, Db.signedEarned, Db.available, Db.earnedAvailable, hu, hl]
  exact h address

theorem available_setCredits (x : Address) :
    (db.setCredits a u).available x = if x = a then u.available else db.available x := by
  unfold Db.available Db.setCredits
  split
  · subst x
    simp
  · rename_i hne
    simp [Function.update_of_ne hne]

theorem earnedAvailable_setCredits (x : Address) :
    (db.setCredits a u).earnedAvailable x =
      if x = a then u.earnedAvailable else db.earnedAvailable x := by
  unfold Db.earnedAvailable Db.setCredits
  split
  · subst x
    simp
  · rename_i hne
    simp [Function.update_of_ne hne]

/-- A wallet moves together with the ledger. -/
theorem Balanced.post (h : Balanced db) (he : 0 ≤ earned) (hp : 0 ≤ paid)
    (hav : u.available = db.available a + k.sign * (earned + paid))
    (hea : u.earnedAvailable = db.earnedAvailable a + k.sign * earned) :
    Balanced ((db.setCredits a u).splitInsert a k earned paid t) := by
  intro address
  have hledger : ∀ p : LedgerRow → Bool,
      tally p LedgerRow.signed ((db.setCredits a u).splitInsert a k earned paid t).creditLedger =
        tally p LedgerRow.signed db.creditLedger +
          ((if p ⟨a, k, earned, t, .earned⟩ then k.sign * earned else 0) +
            (if p ⟨a, k, paid, t, .paid⟩ then k.sign * paid else 0)) := by
    intro p
    rw [Db.splitInsert, tally_append, tally_ledgerSplit signed_zero p he hp, signed_eq, signed_eq]
    rfl
  obtain ⟨hsum, hearned⟩ := h address
  constructor
  · calc Db.signedSum _ address = db.signedSum address + _ := hledger _
      _ = (db.setCredits a u).available address := ?_
    rw [hsum, available_setCredits]
    by_cases haddr : address = a
    · subst haddr
      simp [hav, mul_add]
    · simp [haddr, Ne.symm haddr]
  · calc Db.signedEarned _ address = db.signedEarned address + _ := hledger _
      _ = (db.setCredits a u).earnedAvailable address := ?_
    rw [hearned, earnedAvailable_setCredits]
    by_cases haddr : address = a
    · subst haddr
      simp [hea]
    · simp [haddr, Ne.symm haddr]

/-- A grant writes one row by hand: the split of a paid amount. -/
theorem ledgerSplit_paid {x : ℚ} (hx : 0 < x) :
    Db.ledgerSplit a k 0 x t = [⟨a, k, x, t, .paid⟩] := by
  simp [Db.ledgerSplit, hx]

end Posting

/-! ### What a step does to the wallets -/

/-- One transaction that moves a wallet, or a change to the other tables. -/
inductive Move (lower : Text → Text) : Db → Db → Prop
  | idle {db db' : Db} (hu : db'.userCredits = db.userCredits)
      (hl : db'.creditLedger = db.creditLedger) (hs : db'.spendIdempotency = db.spendIdempotency)
      (hr : db'.refundIdempotency = db.refundIdempotency) : Move lower db db'
  | spend {db db' : Db} {address : Address} {amount txRef : Text} {key : Option Text}
      {o : GrantOutcome} (h : db.spendInTx lower address amount txRef key = .ok (o, db')) :
      Move lower db db'
  | refund {db db' : Db} {address : Address} {amount txRef : Text} {key : Option Text}
      {o : GrantOutcome} (h : db.refundInTx lower address amount txRef key = .ok (o, db')) :
      Move lower db db'
  | grant {db db' : Db} {address : Address} {amount : Text} {kind : Kind} {key : Option Text}
      {o : GrantOutcome} (h : db.grantInTx lower address amount kind key = .ok (o, db')) :
      Move lower db db'
  | revoke {db db' : Db} {address : Address} {amount txRef : Text} {o : Db.RevokeOutcome}
      (h : db.revokeInTx address amount txRef = .ok (o, db')) : Move lower db db'
  | adminRevoke {db db' : Db} {address : Address} {amount : Text} {o : GrantOutcome}
      (h : db.adminRevokeInTx address amount = .ok (o, db')) : Move lower db db'

abbrev Moves (lower : Text → Text) : Db → Db → Prop := Relation.ReflTransGen (Move lower)

section Calls

variable {lower : Text → Text} {divide : ℚ → ℤ → ℚ} {maxAttempts : ℤ} {db db' : Db}
  {address : Address} {amount txRef : Text} {key : Option Text}

theorem Balanced.consume {earned paid : ℚ} {u : UserCredits} {t : Option Text} (h : Balanced db)
    (he : 0 ≤ earned) (hp : 0 ≤ paid) (hav : u.available = db.available address - (earned + paid))
    (hea : u.earnedAvailable = db.earnedAvailable address - earned) :
    Balanced ((db.setCredits address u).splitInsert address .consume earned paid t) := by
  refine h.post (k := .consume) he hp ?_ ?_
  · rw [hav]
    simp [Kind.sign, sub_eq_add_neg]
  · rw [hea]
    simp [Kind.sign, sub_eq_add_neg]

theorem Balanced.grantInTx {o : GrantOutcome} {kind : Kind} (h : Balanced db)
    (hok : db.grantInTx lower address amount kind key = .ok (o, db')) : Balanced db' := by
  rcases grantInTx_spec hok with rfl | ⟨hkind, u, row, hpos, hav, hea, rfl⟩
  · exact h
  · have hsign : kind.sign = 1 := by
      simp only [Db.grantKinds, List.mem_cons, List.not_mem_nil, or_false] at hkind
      rcases hkind with rfl | rfl | rfl <;> rfl
    have hpost : Balanced ((db.setCredits address u).splitInsert address kind 0 (numeric amount)
        none) := by
      refine h.post le_rfl hpos.le ?_ ?_
      · rw [hav, hsign]
        ring
      · rw [hea, mul_zero, add_zero]
    refine hpost.congr rfl ?_
    rw [Db.splitInsert, ledgerSplit_paid hpos]
    rfl

theorem Balanced.move (h : Balanced db) (hmove : Move lower db db') : Balanced db' := by
  cases hmove with
  | idle hu hl _ _ => exact h.congr hu hl
  | spend hok =>
    rcases spendInTx_spec hok with ⟨rfl, -⟩ | ⟨u, earned, paid, row, he, hp, hsum, hav, hea, rfl⟩
    · exact h
    · refine (h.post (k := .spend) he hp ?_ ?_).congr rfl rfl
      · rw [hav, hsum]
        simp [Kind.sign, sub_eq_add_neg]
      · rw [hea]
        simp [Kind.sign, sub_eq_add_neg]
  | refund hok =>
    rcases refundInTx_spec hok with ⟨rfl, -⟩ | ⟨u, earned, paid, row, -, he, hp, -, hav, hea, rfl⟩
    · exact h
    · refine (h.post (k := .refund) he hp ?_ ?_).congr rfl rfl
      · rw [hav]
        simp [Kind.sign]
      · rw [hea]
        simp [Kind.sign]
  | grant hok => exact h.grantInTx hok
  | revoke hok =>
    rcases revokeInTx_spec hok with rfl | ⟨u, earned, paid, he, hp, hav, hea, rfl⟩
    · exact h
    · exact h.consume he hp hav hea
  | adminRevoke hok =>
    obtain ⟨u, earned, paid, he, hp, hav, hea, rfl⟩ := adminRevokeInTx_spec hok
    exact h.consume he hp hav hea

/-- What every move preserves, a step preserves. -/
theorem Moves.preserve {P : Db → Prop} (hmove : ∀ db db', P db → Move lower db db' → P db')
    (h : Moves lower db db') (hdb : P db) : P db' := by
  induction h with
  | refl => exact hdb
  | tail _ hlast ih => exact hmove _ _ ih hlast

theorem moves_idle (hu : db'.userCredits = db.userCredits)
    (hl : db'.creditLedger = db.creditLedger) (hs : db'.spendIdempotency = db.spendIdempotency)
    (hr : db'.refundIdempotency = db.refundIdempotency) : Moves lower db db' :=
  .single (.idle hu hl hs hr)

/-- A call moves what its transaction moves, or nothing. -/
theorem moves_transact {α : Type} {r : Except ApiError (α × Db)}
    (hr : ∀ a db', r = .ok (a, db') → Moves lower db db') : Moves lower db (transact db r).2 := by
  unfold Credits.transact
  split
  · exact hr _ _ rfl
  · exact .refl

theorem moves_refund : Moves lower db (refund lower db address amount txRef key).2 :=
  moves_transact fun _ _ hr => .single (.refund hr)

theorem moves_refundCheckoutManual {id : ℕ} :
    Moves lower db (db.refundCheckoutManual lower id address amount).2 := by
  refine moves_transact fun a db' hr => ?_
  obtain ⟨⟨o, db₁⟩, hrefund, heq⟩ := map_ok.mp hr
  obtain ⟨-, rfl⟩ := Prod.mk.inj heq
  exact .tail (.single (.refund hrefund)) (.idle rfl rfl rfl rfl)

theorem moves_runCheckout {key : Text} {repriced : List RepricedLine} {totalText : Text} :
    Moves lower db (db.runCheckout lower address key repriced totalText).2 := by
  have hadd : ∀ total status, Move lower db (db.addCheckout address key total status) :=
    fun _ _ => .idle rfl rfl rfl rfl
  unfold Db.runCheckout
  split
  · exact .refl
  split
  · split <;> exact .refl
  dsimp only
  split
  · exact .single (hadd _ _)
  split
  · exact .single (hadd _ _)
  · refine moves_transact fun a db' hr => ?_
    obtain ⟨⟨o, db₁⟩, hspend, heq⟩ := map_ok.mp hr
    obtain ⟨-, rfl⟩ := Prod.mk.inj heq
    exact .tail (.tail (.single (hadd _ _)) (.spend hspend)) (.idle rfl rfl rfl rfl)

theorem moves_applyReversal {intent eventId chargedBackText : Text} {target : ReversalTarget}
    {label : Option PurchaseStatus} :
    Moves lower db (db.applyReversal divide intent target label eventId chargedBackText).2 := by
  have hset : ∀ p, Move lower db (db.setPurchase intent p) := fun _ => .idle rfl rfl rfl rfl
  unfold Db.applyReversal
  split
  · exact .refl
  split
  · exact .refl
  split
  · exact .refl
  dsimp only
  split
  · exact .refl
  split
  · split
    · refine moves_transact fun a db' hr => ?_
      obtain ⟨⟨o, db₁⟩, hrevoke, heq⟩ := map_ok.mp hr
      obtain ⟨-, rfl⟩ := Prod.mk.inj heq
      exact .tail (.single (hset _)) (.revoke hrevoke)
    · exact .single (hset _)
  · exact .refl

theorem moves_advance {s s' : System} {i : ℕ} {c : Compensation} {refundText : Text}
    (hstep : s.advance lower i c refundText = some s') : Moves lower s.db s'.db := by
  unfold System.advance at hstep
  split at hstep
  · obtain rfl := Option.some.inj hstep
    exact .refl
  · split at hstep
    · have hrefund : Moves lower s.db (Credits.refund lower s.db c.buyer refundText
          (checkoutRef c.checkoutId) (some (reversalKey c.checkoutId))).2 := moves_refund
      split at hstep <;> rename_i heq <;> rw [heq] at hrefund
      · obtain rfl := Option.some.inj hstep
        exact hrefund
      · obtain rfl := Option.some.inj hstep
        exact hrefund
    · cases hstep
  · obtain rfl := Option.some.inj hstep
    exact moves_idle rfl rfl rfl rfl

theorem moves_finalise {s : System} {row : OutboxRow} {result : BrokerResult} :
    Moves lower s.db (s.finalise maxAttempts row result).db := by
  cases result with
  | confirmed =>
    simp only [System.finalise, Db.confirmLine]
    split
    · exact moves_idle rfl rfl rfl rfl
    · exact moves_idle rfl rfl rfl rfl
  | retryable =>
    simp only [System.finalise]
    split
    · exact moves_idle rfl rfl rfl rfl
    · exact moves_idle rfl rfl rfl rfl
  | terminal => exact moves_idle rfl rfl rfl rfl

theorem moves_pipeline {s s' : System} {a : PipelineAction}
    (hstep : s.pipeline lower maxAttempts a = some s') : Moves lower s.db s'.db := by
  cases a with
  | openCart address =>
    obtain rfl := Option.some.inj hstep
    exact moves_idle rfl rfl rfl rfl
  | runCheckout address key repriced totalText =>
    simp only [System.pipeline] at hstep
    split at hstep
    · obtain rfl := Option.some.inj hstep
      exact moves_runCheckout
    · cases hstep
  | claim line =>
    obtain ⟨row, -, rfl⟩ := Option.map_eq_some_iff.mp hstep
    exact .refl
  | finalise flight result =>
    obtain ⟨row, -, rfl⟩ := Option.map_eq_some_iff.mp hstep
    exact moves_finalise (s := { s with flights := s.flights.eraseIdx flight })
  | drop flight =>
    obtain rfl := Option.some.inj hstep
    exact .refl
  | sweep checkoutId =>
    obtain ⟨c, -, rfl⟩ := Option.map_eq_some_iff.mp hstep
    exact .refl
  | advance i refundText =>
    obtain ⟨c, -, hadvance⟩ := Option.bind_eq_some_iff.mp hstep
    exact moves_advance hadvance
  | abandon i =>
    obtain rfl := Option.some.inj hstep
    exact .refl
  | refundManual checkoutId totalText =>
    obtain ⟨c, -, hrefund⟩ := Option.bind_eq_some_iff.mp hstep
    split at hrefund
    · obtain rfl := Option.some.inj hrefund
      exact moves_refundCheckoutManual
    · cases hrefund

end Calls

/-! ### Runs -/

/-- What moves the wallets. -/
inductive LedgerAction where
  | spend (address : Address) (amount txRef : Text) (idempotencyKey : Option Text)
  | refund (address : Address) (amount txRef : Text) (idempotencyKey : Option Text)
  | adminGrantCredits (address : Address) (amount : Text) (kind : Kind) (idempotencyKey : Option Text)
  | adminRevokeCredits (address : Address) (amount : Text)
  | recordChargeRefund (paymentIntent : Text) (cumulativeRefundedCents : ℤ)
      (eventId chargedBackText : Text)
  | recordFullReversal (paymentIntent : Text) (statusLabel : PurchaseStatus)
      (eventId chargedBackText : Text)
  /-- A purchase is recorded, or marked as paid. -/
  | purchase (paymentIntent : Text) (p : Purchase)
  | pipeline (a : PipelineAction)

section Runs

variable (lower : Text → Text) (divide : ℚ → ℤ → ℚ) (maxAttempts : ℤ)

def System.step (s : System) : LedgerAction → Option System
  | .spend address amount txRef key =>
    some { s with db := (spend lower s.db address amount txRef key).2 }
  | .refund address amount txRef key =>
    some { s with db := (refund lower s.db address amount txRef key).2 }
  | .adminGrantCredits address amount kind key =>
    some { s with db := (adminGrantCredits lower s.db address amount kind key).2 }
  | .adminRevokeCredits address amount =>
    some { s with db := (adminRevokeCredits s.db address amount).2 }
  | .recordChargeRefund intent cents eventId text =>
    some { s with db := (s.db.recordChargeRefund divide intent cents eventId text).2 }
  | .recordFullReversal intent label eventId text =>
    some { s with db := (s.db.recordFullReversal divide intent label eventId text).2 }
  | .purchase intent p => some { s with db := s.db.setPurchase intent p }
  | .pipeline a => s.pipeline lower maxAttempts a

variable {lower divide maxAttempts}

theorem moves_step {s s' : System} {a : LedgerAction}
    (hstep : s.step lower divide maxAttempts a = some s') : Moves lower s.db s'.db := by
  cases a with
  | spend address amount txRef key =>
    obtain rfl := Option.some.inj hstep
    exact moves_transact fun _ _ hr => .single (.spend hr)
  | refund address amount txRef key =>
    obtain rfl := Option.some.inj hstep
    exact moves_refund
  | adminGrantCredits address amount kind key =>
    obtain rfl := Option.some.inj hstep
    exact moves_transact fun _ _ hr => .single (.grant hr)
  | adminRevokeCredits address amount =>
    obtain rfl := Option.some.inj hstep
    exact moves_transact fun _ _ hr => .single (.adminRevoke hr)
  | recordChargeRefund intent cents eventId text =>
    obtain rfl := Option.some.inj hstep
    exact moves_applyReversal
  | recordFullReversal intent label eventId text =>
    obtain rfl := Option.some.inj hstep
    exact moves_applyReversal
  | purchase intent p =>
    obtain rfl := Option.some.inj hstep
    exact moves_idle rfl rfl rfl rfl
  | pipeline a => exact moves_pipeline hstep

/-- What every move preserves, a run preserves. -/
theorem Moves.preserve_run {P : Db → Prop} (hmove : ∀ db db', P db → Move lower db db' → P db')
    {s s' : System} {steps : List LedgerAction}
    (hrun : Machine.run (System.step lower divide maxAttempts) s steps = some s') (h : P s.db) :
    P s'.db :=
  Machine.run_invariant (P := fun s => P s.db) _
    (fun _ _ _ hdb hstep => (moves_step hstep).preserve hmove hdb) steps s s' hrun h

theorem balanced_new : Balanced Db.new := fun _ => ⟨rfl, rfl⟩

/-- From any state in which they agree, also one with earned credits of old. -/
theorem Balanced.run {s s' : System} {steps : List LedgerAction} (h : Balanced s.db)
    (hrun : Machine.run (System.step lower divide maxAttempts) s steps = some s') : Balanced s'.db :=
  Moves.preserve_run (fun _ _ hdb hmove => hdb.move hmove) hrun h

/-- **Ledger and balance agree forever.** Whatever calls are made and whatever the workers do, the
signed sums of an address's ledger rows are its balance and its earned balance, and
the earned balance lies within the balance. -/
theorem ledger_agrees (lower : Text → Text) (divide : ℚ → ℤ → ℚ) (maxAttempts : ℤ)
    (steps : List LedgerAction) (s : System)
    (hrun : Machine.run (System.step lower divide maxAttempts) System.new steps = some s)
    (address : Address) :
    0 ≤ s.db.earnedAvailable address ∧ s.db.earnedAvailable address ≤ s.db.available address ∧
      s.db.signedSum address = s.db.available address ∧
      s.db.signedEarned address = s.db.earnedAvailable address := by
  have hbalanced : Balanced s.db := balanced_new.run hrun
  obtain ⟨hnonneg, hle⟩ := earned_within s.db address
  exact ⟨hnonneg, hle, hbalanced address⟩

/-- A purchase, a spend, a refund that asks for more than was spent, and a revocation. -/
def walletCalls : List LedgerAction :=
  [.adminGrantCredits ['a'] ['1', '0'] .purchase (some ['k']),
    .spend ['a'] ['4', '.', '5'] ['x'] none, .refund ['a'] ['9'] ['x'] none,
    .adminRevokeCredits ['a'] ['3']]

theorem ledger_agrees_walletCalls :
    ∃ s, Machine.run (System.step id (fun q n => q / n) 5) System.new walletCalls = some s ∧
      s.db.available ['a'] = 7 ∧ 0 ≤ s.db.earnedAvailable ['a'] ∧
      s.db.earnedAvailable ['a'] ≤ s.db.available ['a'] ∧
      s.db.signedSum ['a'] = s.db.available ['a'] ∧
      s.db.signedEarned ['a'] = s.db.earnedAvailable ['a'] := by
  have hrun : (Machine.run (System.step id (fun q n => q / n) 5) System.new walletCalls).map
      (fun s => s.db.available ['a']) = some 7 := by decide +kernel
  obtain ⟨s, hs, hav⟩ := Option.map_eq_some_iff.mp hrun
  exact ⟨s, hs, hav, ledger_agrees id (fun q n => q / n) 5 walletCalls s hs ['a']⟩

end Runs

end Catalyrst.Credits
