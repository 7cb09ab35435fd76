import Mathlib
import Catalyrst.Credits.Stripe

/-!
# What a purchase comes to

Once every event of a purchase is acknowledged, its credits are granted once and charged back
in the proportion in which the charge was reversed, provided that a reversal finds its purchase
marked as paid, and that the credits of a purchase are granted before it is reversed as a whole
or while the delivery that marked it goes on.
-/

namespace Catalyrst.Credits.Stripe

open Catalyrst.Lib Catalyrst.Lib.Fallible

/-! ### What events are about -/

/-- The purchase that an event pays for and the cents that were charged. -/
def StripeEvent.payment (e : StripeEvent) : Option (PurchaseKey × ℤ) :=
  match e.type with
  | .paymentIntentSucceeded =>
    e.object.id.bind fun id => e.object.amount.map fun cents => (.intent id, cents)
  | .checkoutSessionCompleted =>
    e.object.id.bind fun id => e.object.amountTotal.map fun cents => (.session id, cents)
  | _ => none

/-- The payment intent that an event reverses, and how far. -/
def StripeEvent.reversal (e : StripeEvent) : Option (Text × ReversalTarget) :=
  match e.type with
  | .chargeRefunded =>
    e.object.paymentIntent.bind fun id => e.object.amountRefunded.map fun cents => (id, .cumulative cents)
  | .chargeDisputeCreated | .chargeDisputeFundsWithdrawn =>
    e.object.paymentIntent.map fun id => (id, .full)
  | _ => none

/-- Not one of the events that end a session without a payment. -/
def StripeEvent.settles (e : StripeEvent) : Bool :=
  e.type ≠ .checkoutSessionExpired ∧ e.type ≠ .checkoutSessionAsyncPaymentFailed

theorem reversal_of_payment {e : StripeEvent} {x : PurchaseKey × ℤ} (h : e.payment = some x) :
    e.reversal = none := by
  obtain ⟨type, object⟩ := e
  cases type <;> first | rfl | cases h

/-- The cents of the charge that an event has gone back. -/
def reversedCents (target : ReversalTarget) (amountCents : ℤ) : ℤ :=
  match target with
  | .cumulative cents => min cents amountCents
  | .full => amountCents

/-- The most that any of the events has gone back. -/
def totalReversed (events : List StripeEvent) (intent : Text) (amountCents : ℤ) : ℤ :=
  (events.filterMap StripeEvent.reversal).foldr
    (fun r most => if r.1 = intent then max (reversedCents r.2 amountCents) most else most) 0

theorem le_totalReversed {events : List StripeEvent} {e : StripeEvent} (he : e ∈ events)
    {intent : Text} {target : ReversalTarget} (hr : e.reversal = some (intent, target)) (amount : ℤ) :
    reversedCents target amount ≤ totalReversed events intent amount := by
  have hmem : (intent, target) ∈ events.filterMap StripeEvent.reversal :=
    List.mem_filterMap.mpr ⟨e, he, hr⟩
  unfold totalReversed
  generalize events.filterMap StripeEvent.reversal = rs at hmem
  induction rs with
  | nil => cases hmem
  | cons r rs ih =>
    rw [List.foldr_cons]
    obtain rfl | hrest := List.mem_cons.mp hmem
    · rw [if_pos rfl]
      exact le_max_left _ _
    · split
      · exact (ih hrest).trans (le_max_right _ _)
      · exact ih hrest

theorem totalReversed_le {events : List StripeEvent} {intent : Text} {amount bound : ℤ}
    (hzero : 0 ≤ bound) (hle : ∀ e ∈ events, ∀ target, e.reversal = some (intent, target) →
      reversedCents target amount ≤ bound) : totalReversed events intent amount ≤ bound := by
  have hle' : ∀ r ∈ events.filterMap StripeEvent.reversal, r.1 = intent →
      reversedCents r.2 amount ≤ bound := by
    rintro ⟨id, target⟩ hr rfl
    obtain ⟨e, he, hrev⟩ := List.mem_filterMap.mp hr
    exact hle e he target hrev
  unfold totalReversed
  generalize events.filterMap StripeEvent.reversal = rs at hle'
  induction rs with
  | nil => exact hzero
  | cons r rs ih =>
    have hrest := ih fun x hx => hle' x (List.mem_cons_of_mem r hx)
    rw [List.foldr_cons]
    split
    · rename_i hid
      exact max_le (hle' r List.mem_cons_self hid) hrest
    · exact hrest

theorem totalReversed_nonneg (events : List StripeEvent) (intent : Text) (amount : ℤ) :
    0 ≤ totalReversed events intent amount := by
  unfold totalReversed
  induction events.filterMap StripeEvent.reversal with
  | nil => exact le_refl _
  | cons r rs ih =>
    rw [List.foldr_cons]
    split
    · exact ih.trans (le_max_right _ _)
    · exact ih

/-! ### One transaction -/

section Transactions

variable {t t' : Tables} {key : PurchaseKey} {p : Purchase} {id text : Text} {divide : ℚ → ℤ → ℚ}

theorem find_store (t : Tables) (p : Purchase) (key key' : PurchaseKey) :
    (t.store p key).find key' = if key' = key then some p else t.find key' := by
  cases key with
  | intent k =>
    cases key' with
    | intent k' =>
      by_cases h : k' = k
      · simp [Tables.store, Tables.find, Db.setPurchase, h]
      · simp [Tables.store, Tables.find, Db.setPurchase, h]
    | session k' => simp [Tables.store, Tables.find]
  | session k =>
    cases key' with
    | intent k' => simp [Tables.store, Tables.find]
    | session k' =>
      by_cases h : k' = k
      · simp [Tables.store, Tables.find, h]
      · simp [Tables.store, Tables.find, h]

theorem store_grantIdempotency (t : Tables) (p : Purchase) (key : PurchaseKey) :
    (t.store p key).db.grantIdempotency = t.db.grantIdempotency := by
  cases key <;> rfl

theorem store_paidBy (t : Tables) (p : Purchase) (key : PurchaseKey) :
    (t.store p key).paidBy = t.paidBy := by
  cases key <;> rfl

theorem store_stripeEvents (t : Tables) (p : Purchase) (key : PurchaseKey) :
    (t.store p key).stripeEvents = t.stripeEvents := by
  cases key <;> rfl

theorem required_ok {α : Type} {field : Option α} {message : String} {a : α}
    (h : required field message = .ok a) : field = some a := by
  cases field with
  | none => cases h
  | some b => exact congrArg some (Except.ok.inj h)

theorem reversed_ok {r : Except ApiError ReversalOutcome × Db} {next : Next}
    (h : reversed t r = .ok (next, t')) :
    next = .finish ∧ ∃ o db, r = (.ok o, db) ∧ t' = { t with db := db } := by
  obtain ⟨r, db⟩ := r
  obtain ⟨o, rfl, heq⟩ := map_ok.mp h
  obtain ⟨rfl, rfl⟩ := Prod.mk.inj heq
  exact ⟨rfl, o, db, rfl, rfl⟩

theorem applyFullReversal_ok {object : EventObject} {next : Next}
    (h : applyFullReversal divide t object id text .disputed = .ok (next, t')) :
    (object.paymentIntent = none ∧ next = .finish ∧ t' = t) ∨
      ∃ intent o db, object.paymentIntent = some intent ∧ next = .finish ∧
        t.db.applyReversal divide intent .full (some .disputed) id text = (.ok o, db) ∧
          t' = { t with db := db } := by
  unfold applyFullReversal at h
  split at h
  · rename_i hnone
    obtain ⟨rfl, rfl⟩ := Prod.mk.inj (Except.ok.inj h)
    exact Or.inl ⟨hnone, rfl, rfl⟩
  · rename_i intent hintent
    obtain ⟨hnext, o, db, happly, htables⟩ := reversed_ok h
    exact Or.inr ⟨intent, o, db, hintent, hnext, happly, htables⟩

/-- Every event is one of a payment, one of a reversal, or of no consequence. -/
theorem process_cases {e : StripeEvent} {next : Next} (he : e.settles = true)
    (h : process divide t id e text = .ok (next, t')) :
    (∃ key cents, e.payment = some (key, cents) ∧ e.reversal = none ∧
        grantNext key (t.markPaid key id cents) = (next, t')) ∨
      (∃ intent target label o db, e.payment = none ∧ e.reversal = some (intent, target) ∧
        next = .finish ∧ (label = none ∨ label = some .disputed ∧ target = .full) ∧
          t.db.applyReversal divide intent target label id text = (.ok o, db) ∧
            t' = { t with db := db }) ∨
      e.payment = none ∧ e.reversal = none ∧ next = .finish ∧ t' = t := by
  obtain ⟨type, object⟩ := e
  cases type with
  | paymentIntentSucceeded =>
    obtain ⟨intent, hid, h⟩ := bind_ok.mp h
    obtain ⟨cents, hcents, h⟩ := bind_ok.mp h
    have hid' : object.id = some intent := required_ok hid
    have hcents' : object.amount = some cents := required_ok hcents
    refine Or.inl ⟨.intent intent, cents, ?_, rfl, Except.ok.inj h⟩
    simp [StripeEvent.payment, hid', hcents']
  | checkoutSessionCompleted =>
    obtain ⟨session, hid, h⟩ := bind_ok.mp h
    obtain ⟨cents, hcents, h⟩ := bind_ok.mp h
    have hid' : object.id = some session := required_ok hid
    have hcents' : object.amountTotal = some cents := required_ok hcents
    refine Or.inl ⟨.session session, cents, ?_, rfl, Except.ok.inj h⟩
    simp [StripeEvent.payment, hid', hcents']
  | checkoutSessionExpired => cases he
  | checkoutSessionAsyncPaymentFailed => cases he
  | chargeRefunded =>
    simp only [process, applyPartialRefund] at h
    split at h
    · rename_i hnone
      obtain ⟨rfl, rfl⟩ := Prod.mk.inj (Except.ok.inj h)
      exact Or.inr (Or.inr ⟨rfl, by simp [StripeEvent.reversal, hnone], rfl, rfl⟩)
    · rename_i intent hintent
      obtain ⟨cents, hcents, h⟩ := bind_ok.mp h
      obtain ⟨hnext, o, db, happly, htables⟩ := reversed_ok h
      refine Or.inr (Or.inl ⟨intent, .cumulative cents, none, o, db, rfl, ?_, hnext, Or.inl rfl,
        happly, htables⟩)
      simp [StripeEvent.reversal, hintent, required_ok hcents]
  | chargeDisputeCreated =>
    have hfull : applyFullReversal divide t object id text .disputed = .ok (next, t') := h
    rcases applyFullReversal_ok hfull with
      ⟨hnone, hnext, htables⟩ | ⟨intent, o, db, hintent, hnext, happly, htables⟩
    · exact Or.inr (Or.inr ⟨rfl, by simp [StripeEvent.reversal, hnone], hnext, htables⟩)
    · refine Or.inr (Or.inl ⟨intent, .full, some .disputed, o, db, rfl, ?_, hnext,
        Or.inr ⟨rfl, rfl⟩, happly, htables⟩)
      simp [StripeEvent.reversal, hintent]
  | chargeDisputeFundsWithdrawn =>
    have hfull : applyFullReversal divide t object id text .disputed = .ok (next, t') := h
    rcases applyFullReversal_ok hfull with
      ⟨hnone, hnext, htables⟩ | ⟨intent, o, db, hintent, hnext, happly, htables⟩
    · exact Or.inr (Or.inr ⟨rfl, by simp [StripeEvent.reversal, hnone], hnext, htables⟩)
    · refine Or.inr (Or.inl ⟨intent, .full, some .disputed, o, db, rfl, ?_, hnext,
        Or.inr ⟨rfl, rfl⟩, happly, htables⟩)
      simp [StripeEvent.reversal, hintent]
  | other =>
    obtain ⟨rfl, rfl⟩ := Prod.mk.inj (Except.ok.inj h)
    exact Or.inr (Or.inr ⟨rfl, rfl, rfl, rfl⟩)

/-- A reversal of a purchase that is no longer paid, or that has gone back as far, changes
nothing. -/
theorem applyReversal_cases {db db' : Db} {intent : Text} {target : ReversalTarget}
    {label : Option PurchaseStatus} {o : ReversalOutcome}
    (h : db.applyReversal divide intent target label id text = (.ok o, db')) :
    (db' = db ∧ ∀ p, db.purchases intent = some p →
        p.status ≠ .paid ∨ target.newRefunded p ≤ p.refundedCents) ∨
      ∃ p p', db.purchases intent = some p ∧ p.status = .paid ∧
        p.refundedCents < target.newRefunded p ∧ p'.amountCents = p.amountCents ∧
        p'.credits = p.credits ∧ p'.refundedCents = target.newRefunded p ∧
        p'.revokedCredits = Db.revokedAfter divide p (target.newRefunded p) ∧
        p'.status = label.getD (if p.amountCents ≤ target.newRefunded p then .refunded else p.status) ∧
        db'.purchases = Function.update db.purchases intent (some p') ∧
        db'.grantIdempotency = db.grantIdempotency := by
  unfold Db.applyReversal at h
  split at h
  · rename_i hnone
    obtain ⟨-, rfl⟩ := Prod.mk.inj h
    refine Or.inl ⟨rfl, fun p hp => ?_⟩
    rw [hnone] at hp
    cases hp
  rename_i p hp
  split at h
  · rename_i hstatus
    obtain ⟨-, rfl⟩ := Prod.mk.inj h
    refine Or.inl ⟨rfl, fun q hq => Or.inl ?_⟩
    obtain rfl := Option.some.inj (hp.symm.trans hq)
    exact hstatus
  rename_i hpaid
  split at h
  · cases (Prod.mk.inj h).1
  dsimp only at h
  split at h
  · rename_i hle
    obtain ⟨-, rfl⟩ := Prod.mk.inj h
    refine Or.inl ⟨rfl, fun q hq => Or.inr ?_⟩
    obtain rfl := Option.some.inj (hp.symm.trans hq)
    exact hle
  rename_i hlt
  split at h
  · rename_i hbound
    let p' : Purchase :=
      { p with
        refundedCents := target.newRefunded p
        revokedCredits := Db.revokedAfter divide p (target.newRefunded p)
        status := label.getD (if p.amountCents ≤ target.newRefunded p then .refunded else p.status)
        revokedBound := hbound }
    refine Or.inr ⟨p, p', hp, not_not.mp hpaid, not_le.mp hlt, rfl, rfl, rfl, rfl, rfl, ?_⟩
    split at h
    · -- the revocation only moves the wallet
      cases hrevoke : (db.setPurchase intent p').revokeInTx p.address text (stripeRef id) with
      | error e =>
        rw [hrevoke] at h
        cases (Prod.mk.inj h).1
      | ok r =>
        rw [hrevoke] at h
        obtain ⟨-, rfl⟩ := Prod.mk.inj h
        obtain ⟨o', db''⟩ := r
        obtain heq | ⟨u, earned, paid, -, -, -, -, heq⟩ := revokeInTx_spec hrevoke
        · rw [heq]
          exact ⟨rfl, rfl⟩
        · rw [heq]
          exact ⟨rfl, rfl⟩
    · obtain ⟨-, rfl⟩ := Prod.mk.inj h
      exact ⟨rfl, rfl⟩
  · cases (Prod.mk.inj h).1

theorem markPaid_cases {cents : ℤ} {next : Next}
    (h : grantNext key (t.markPaid key id cents) = (next, t')) :
    (next = .finish ∧ t' = t ∧ ∀ p, t.find key = some p → cents = p.amountCents →
        p.status ≠ .pending ∧ ¬ (p.status = .paid ∧ t.paidBy key = some id)) ∨
      ∃ p, t.find key = some p ∧ next = .grant key p.address p.credits ∧
        (t' = t ∧ t.paidBy key = some id ∨
          p.status = .pending ∧ cents = p.amountCents ∧
            t' = { t.store { p with status := .paid } key with
              paidBy := Function.update t.paidBy key (some id) }) := by
  unfold Tables.markPaid at h
  split at h
  · rename_i hnone
    obtain ⟨rfl, rfl⟩ := Prod.mk.inj h
    refine Or.inl ⟨rfl, rfl, fun p hp => ?_⟩
    rw [hnone] at hp
    cases hp
  rename_i p hp
  split at h
  · rename_i hpaid
    obtain ⟨rfl, rfl⟩ := Prod.mk.inj h
    exact Or.inr ⟨p, hp, rfl, Or.inl ⟨rfl, hpaid.2⟩⟩
  rename_i hunpaid
  split at h
  · rename_i hstatus
    obtain ⟨rfl, rfl⟩ := Prod.mk.inj h
    refine Or.inl ⟨rfl, rfl, fun q hq _ => ?_⟩
    obtain rfl := Option.some.inj (hp.symm.trans hq)
    exact ⟨hstatus, hunpaid⟩
  rename_i hpending
  split at h
  · rename_i hamount
    obtain ⟨rfl, rfl⟩ := Prod.mk.inj h
    refine Or.inl ⟨rfl, rfl, fun q hq hcents => ?_⟩
    obtain rfl := Option.some.inj (hp.symm.trans hq)
    exact absurd hcents.symm hamount
  · rename_i hamount
    obtain ⟨rfl, rfl⟩ := Prod.mk.inj h
    refine Or.inr ⟨p, hp, rfl, Or.inr ⟨not_not.mp hpending, (not_not.mp hamount).symm, ?_⟩⟩
    rw [store_paidBy]

theorem adminGrantCredits_cases {lower : Text → Text} {db db' : Db} {address : Address}
    {o : GrantOutcome}
    (h : adminGrantCredits lower db address text .purchase (some id) = (.ok o, db')) :
    (o.replayed = true ∧ db' = db ∧ (db.grantIdempotency id).isSome = true) ∨
      o.replayed = false ∧ db.grantIdempotency id = none ∧ o.applied = numeric text ∧
        db'.purchases = db.purchases ∧
          ∃ row, db'.grantIdempotency = Function.update db.grantIdempotency id (some row) := by
  unfold adminGrantCredits at h
  cases hgrant : db.grantInTx lower address text .purchase (some id) with
  | error e =>
    rw [hgrant] at h
    cases (Prod.mk.inj h).1
  | ok r =>
    rw [hgrant] at h
    obtain ⟨ho, hdb⟩ := Prod.mk.inj h
    obtain rfl := Except.ok.inj ho
    unfold Db.grantInTx at hgrant
    rw [if_neg (by decide)] at hgrant
    obtain ⟨a, ha, hgrant⟩ := bind_ok.mp hgrant
    obtain ⟨hvalue, -⟩ := parsePositive_spec ha
    obtain ⟨claimed, hclaim, hgrant⟩ := bind_ok.mp hgrant
    cases claimed with
    | some replayed =>
      obtain rfl := Except.ok.inj hgrant
      obtain ⟨k, row, hkey, hrow, -, -, rfl⟩ := claimKey_some hclaim
      obtain rfl := Option.some.inj hkey
      refine Or.inl ⟨rfl, hdb.symm, ?_⟩
      rw [hrow]
      rfl
    | none =>
      obtain ⟨u, -, rfl⟩ := map_ok.mp hgrant
      exact Or.inr ⟨rfl, claimKey_none hclaim, hvalue, by rw [← hdb]; rfl, _, by rw [← hdb]; rfl⟩

end Transactions

/-! ### The books -/

section Books

variable (content : Text → StripeEvent) (sessionIntent : Text → Text)

/-- The payment intent of the charge; that of a session is known to Stripe only. -/
def chargeIntent : PurchaseKey → Text
  | .intent id => id
  | .session id => sessionIntent id

/-- What a purchase shows of the events that were carried out. -/
structure Accounted (t : Tables) (delivered : List Text) (key : PurchaseKey) (p : Purchase) : Prop where
  amount : 0 < p.amountCents
  nonneg : 0 ≤ p.refundedCents
  within : p.refundedCents ≤ p.amountCents
  revoked : p.revokedCredits * p.amountCents = p.credits * p.refundedCents
  unpaid : t.paidBy key = none → p.status = .pending ∧ p.refundedCents = 0
  paid : ∀ id, t.paidBy key = some id → p.status ≠ .pending ∧ id ∈ delivered ∧
    (content id).payment = some (key, p.amountCents)
  closed : p.status ≠ .pending → p.status ≠ .paid → p.refundedCents = p.amountCents
  reversed : p.refundedCents = 0 ∨ ∃ id ∈ delivered, ∃ target,
    (content id).reversal = some (chargeIntent sessionIntent key, target) ∧
      p.refundedCents = reversedCents target p.amountCents

def Tables.granted (t : Tables) (key : PurchaseKey) : Bool :=
  (t.paidBy key).any fun id => (t.db.grantIdempotency id).isSome

def grantsOf (grants : List (PurchaseKey × ℚ)) (key : PurchaseKey) : List ℚ :=
  (grants.filter fun g => g.1 = key).map Prod.snd

structure Books (t : Tables) (delivered : List Text) (grants : List (PurchaseKey × ℚ)) : Prop where
  accounted : ∀ key p, t.find key = some p → Accounted content sessionIntent t delivered key p
  grantKeys : ∀ id key cents, (content id).payment = some (key, cents) →
    (t.db.grantIdempotency id).isSome = true → t.paidBy key = some id
  grants : ∀ key p, t.find key = some p → grantsOf grants key = if t.granted key then [p.credits] else []
  /-- Stripe draws no payment intent twice. -/
  separate : ∀ s intent, (t.orders s).isSome = true → (t.db.purchases intent).isSome = true →
    sessionIntent s ≠ intent

/-- Purchases stay, and what is paid, granted and gone back stays so. -/
structure Leads (t t' : Tables) : Prop where
  back : ∀ key p', t'.find key = some p' → ∃ p, t.find key = some p ∧
    p'.amountCents = p.amountCents ∧ p'.credits = p.credits ∧ p.refundedCents ≤ p'.refundedCents
  forth : ∀ key, (t.find key).isSome = true → (t'.find key).isSome = true
  paidBy : ∀ key id, t.paidBy key = some id → t'.paidBy key = some id
  granted : ∀ id, (t.db.grantIdempotency id).isSome = true → (t'.db.grantIdempotency id).isSome = true

/-- What an event has brought about when it is acknowledged. -/
structure Done (t : Tables) (id : Text) : Prop where
  paid : ∀ key p, (content id).payment = some (key, p.amountCents) → t.find key = some p →
    ∃ id', t.paidBy key = some id' ∧ (id' = id → (t.db.grantIdempotency id).isSome = true)
  reversed : ∀ key p target, (content id).reversal = some (chargeIntent sessionIntent key, target) →
    t.find key = some p → reversedCents target p.amountCents ≤ p.refundedCents

variable {content sessionIntent} {t t' : Tables} {delivered delivered' : List Text}
  {grants : List (PurchaseKey × ℚ)} {key : PurchaseKey} {p : Purchase} {id : Text}

theorem Leads.done (h : Leads t t') (hd : Done content sessionIntent t id) :
    Done content sessionIntent t' id := by
  constructor
  · intro key p' hpay hp'
    obtain ⟨p, hp, hamount, -, -⟩ := h.back key p' hp'
    obtain ⟨id', hpaid, hgranted⟩ := hd.paid key p (hamount ▸ hpay) hp
    exact ⟨id', h.paidBy key id' hpaid, fun heq => h.granted id (hgranted heq)⟩
  · intro key p' target hrev hp'
    obtain ⟨p, hp, hamount, -, hle⟩ := h.back key p' hp'
    rw [hamount]
    exact (hd.reversed key p target hrev hp).trans hle

/-- Only the rows and what is delivered matter. -/
theorem leads_of_eq (hf : ∀ key, t'.find key = t.find key) (hp : t'.paidBy = t.paidBy)
    (hg : t'.db.grantIdempotency = t.db.grantIdempotency) : Leads t t' := by
  refine ⟨fun key p hkey => ⟨p, hf key ▸ hkey, rfl, rfl, le_refl _⟩, fun key hkey => ?_,
    fun key id hkey => ?_, fun id hid => ?_⟩
  · rwa [hf]
  · rwa [hp]
  · rwa [hg]

theorem Accounted.mono (h : Accounted content sessionIntent t delivered key p)
    (hp : t'.paidBy key = t.paidBy key) (hd : ∀ id ∈ delivered, id ∈ delivered') :
    Accounted content sessionIntent t' delivered' key p where
  amount := h.amount
  nonneg := h.nonneg
  within := h.within
  revoked := h.revoked
  unpaid := fun hnone => h.unpaid (hp ▸ hnone)
  paid := by
    intro id hid
    obtain ⟨hstatus, hmem, hpay⟩ := h.paid id (hp ▸ hid)
    exact ⟨hstatus, hd id hmem, hpay⟩
  closed := h.closed
  reversed := h.reversed.imp_right fun ⟨id, hid, hrest⟩ => ⟨id, hd id hid, hrest⟩

theorem Books.of_eq (h : Books content sessionIntent t delivered grants)
    (hf : ∀ key, t'.find key = t.find key) (hp : t'.paidBy = t.paidBy)
    (hg : t'.db.grantIdempotency = t.db.grantIdempotency) (hd : ∀ id ∈ delivered, id ∈ delivered') :
    Books content sessionIntent t' delivered' grants where
  accounted := by
    intro key p hkey
    rw [hf] at hkey
    exact (h.accounted key p hkey).mono (congrFun hp key) hd
  grantKeys := by
    rw [hp, hg]
    exact h.grantKeys
  grants := by
    intro key p hkey
    rw [hf] at hkey
    rw [h.grants key p hkey, Tables.granted, Tables.granted, hp, hg]
  separate := by
    intro s intent hs hintent
    have hs' : (t.find (.session s)).isSome = true := hf (.session s) ▸ hs
    have hintent' : (t.find (.intent intent)).isSome = true := hf (.intent intent) ▸ hintent
    exact h.separate s intent hs' hintent'

/-- The rows of both tables are those that were there. -/
theorem Leads.separate (h : Leads t t')
    (hs : ∀ s intent, (t.orders s).isSome = true → (t.db.purchases intent).isSome = true →
      sessionIntent s ≠ intent) (s intent : Text) (hs' : (t'.orders s).isSome = true)
    (hintent : (t'.db.purchases intent).isSome = true) : sessionIntent s ≠ intent := by
  obtain ⟨p', hp'⟩ := Option.isSome_iff_exists.mp hs'
  obtain ⟨q', hq'⟩ := Option.isSome_iff_exists.mp hintent
  obtain ⟨p, hp, -⟩ := h.back (.session s) p' hp'
  obtain ⟨q, hq, -⟩ := h.back (.intent intent) q' hq'
  exact hs s intent (Option.isSome_iff_exists.mpr ⟨p, hp⟩) (Option.isSome_iff_exists.mpr ⟨q, hq⟩)

/-! #### Marking as paid -/

/-- The tables after a purchase is marked as paid. -/
def Tables.marked (t : Tables) (p : Purchase) (key : PurchaseKey) (id : Text) : Tables :=
  { t.store { p with status := .paid } key with paidBy := Function.update t.paidBy key (some id) }

theorem find_marked (t : Tables) (p : Purchase) (key : PurchaseKey) (id : Text) (key' : PurchaseKey) :
    (t.marked p key id).find key' =
      if key' = key then some { p with status := .paid } else t.find key' := by
  rw [← find_store]
  cases key' <;> rfl

theorem marked_grantIdempotency (t : Tables) (p : Purchase) (key : PurchaseKey) (id : Text) :
    (t.marked p key id).db.grantIdempotency = t.db.grantIdempotency :=
  store_grantIdempotency t _ key

theorem leads_marked (hp : t.find key = some p) (hnone : t.paidBy key = none) :
    Leads t (t.marked p key id) := by
  refine ⟨fun key' p' hp' => ?_, fun key' hkey' => ?_, fun key' id' hid' => ?_, fun id' hid' => ?_⟩
  · rw [find_marked] at hp'
    split at hp'
    · rename_i heq
      obtain rfl := Option.some.inj hp'
      exact ⟨p, heq ▸ hp, rfl, rfl, le_refl _⟩
    · exact ⟨p', hp', rfl, rfl, le_refl _⟩
  · rw [find_marked]
    split
    · rfl
    · exact hkey'
  · have hne : key' ≠ key := by
      rintro rfl
      rw [hnone] at hid'
      cases hid'
    exact (Function.update_of_ne hne _ _).trans hid'
  · rwa [marked_grantIdempotency]

theorem Books.marked (h : Books content sessionIntent t delivered grants) (hp : t.find key = some p)
    (hpending : p.status = .pending) (hpay : (content id).payment = some (key, p.amountCents))
    (hid : id ∈ delivered) : Books content sessionIntent (t.marked p key id) delivered grants := by
  have hacc := h.accounted key p hp
  have hnone : t.paidBy key = none := by
    cases hpaid : t.paidBy key with
    | none => rfl
    | some id' => exact absurd hpending (hacc.paid id' hpaid).1
  have hself : (t.marked p key id).paidBy key = some id := Function.update_self key _ _
  have hother : ∀ key', key' ≠ key → (t.marked p key id).paidBy key' = t.paidBy key' :=
    fun key' hne => Function.update_of_ne hne _ _
  refine ⟨fun key' p' hp' => ?_, fun id' key' cents hpay' hgranted => ?_, fun key' p' hp' => ?_,
    (leads_marked hp hnone).separate h.separate⟩
  · rw [find_marked] at hp'
    split at hp'
    · rename_i heq
      obtain rfl := Option.some.inj hp'
      subst heq
      refine ⟨hacc.amount, hacc.nonneg, hacc.within, hacc.revoked, fun hcon => ?_, fun id' hid' => ?_,
        fun _ hstatus => absurd rfl hstatus, Or.inl (hacc.unpaid hnone).2⟩
      · rw [hself] at hcon
        cases hcon
      · obtain rfl := Option.some.inj (hself.symm.trans hid')
        have hstatus : PurchaseStatus.paid ≠ .pending := by decide
        exact ⟨hstatus, hid, hpay⟩
    · rename_i hne
      exact (h.accounted key' p' hp').mono (hother key' hne) fun _ hmem => hmem
  · rw [marked_grantIdempotency] at hgranted
    have hold := h.grantKeys id' key' cents hpay' hgranted
    by_cases heq : key' = key
    · rw [heq, hnone] at hold
      cases hold
    · rw [hother key' heq]
      exact hold
  · rw [find_marked] at hp'
    by_cases heq : key' = key
    · rw [if_pos heq] at hp'
      obtain rfl := Option.some.inj hp'
      have hold := h.grants key p hp
      have hungranted : (t.marked p key id).granted key = false := by
        rw [Tables.granted, hself, Option.any_some, marked_grantIdempotency]
        refine Bool.eq_false_iff.mpr fun hgranted => ?_
        have hpaid := h.grantKeys id key p.amountCents hpay hgranted
        rw [hnone] at hpaid
        cases hpaid
      rw [Tables.granted, hnone, Option.any_none] at hold
      rw [heq, hungranted]
      exact hold
    · rw [if_neg heq] at hp'
      rw [h.grants key' p' hp', Tables.granted, Tables.granted, hother key' heq,
        marked_grantIdempotency]

/-! #### Granting -/

theorem leads_granted {db' : Db} {row : IdempotencyRow} (hp : db'.purchases = t.db.purchases)
    (hg : db'.grantIdempotency = Function.update t.db.grantIdempotency id (some row)) :
    Leads t { t with db := db' } := by
  have hfind : ∀ key, Tables.find { t with db := db' } key = t.find key := by
    intro key
    cases key with
    | intent intent => exact congrFun hp intent
    | session s => rfl
  refine ⟨fun key p hkey => ⟨p, hfind key ▸ hkey, rfl, rfl, le_refl _⟩, fun key hkey => ?_,
    fun key id' hid' => hid', fun id' hid' => ?_⟩
  · rwa [hfind]
  · by_cases heq : id' = id
    · simp [hg, heq]
    · simpa [hg, Function.update_of_ne heq] using hid'

theorem Books.granted {db' : Db} {row : IdempotencyRow} (h : Books content sessionIntent t delivered grants)
    (hpurchases : db'.purchases = t.db.purchases)
    (hgrant : db'.grantIdempotency = Function.update t.db.grantIdempotency id (some row))
    (hnone : t.db.grantIdempotency id = none) (hp : t.find key = some p)
    (hpaid : t.paidBy key = some id) :
    Books content sessionIntent { t with db := db' } delivered (grants ++ [(key, p.credits)]) := by
  have hfind : ∀ key', Tables.find { t with db := db' } key' = t.find key' := by
    intro key'
    cases key' with
    | intent intent => exact congrFun hpurchases intent
    | session s => rfl
  have hpay := ((h.accounted key p hp).paid id hpaid).2.2
  refine ⟨fun key' p' hp' => ?_, fun id' key' cents hpay' hgranted => ?_, fun key' p' hp' => ?_,
    (leads_granted hpurchases hgrant).separate h.separate⟩
  · rw [hfind] at hp'
    exact (h.accounted key' p' hp').mono rfl fun _ hmem => hmem
  · by_cases heq : id' = id
    · subst heq
      obtain ⟨rfl, -⟩ := Prod.mk.inj (Option.some.inj (hpay.symm.trans hpay'))
      exact hpaid
    · refine h.grantKeys id' key' cents hpay' ?_
      simpa [hgrant, Function.update_of_ne heq] using hgranted
  · rw [hfind] at hp'
    have hold := h.grants key' p' hp'
    by_cases heq : key' = key
    · subst heq
      obtain rfl := Option.some.inj (hp.symm.trans hp')
      rw [Tables.granted, hpaid, Option.any_some, hnone] at hold
      have hnew : Tables.granted { t with db := db' } key' = true := by
        simp [Tables.granted, hpaid, hgrant]
      rw [hnew, if_pos rfl, grantsOf, List.filter_append, List.map_append, ← grantsOf, hold]
      simp
    · have hungranted : grantsOf (grants ++ [(key, p.credits)]) key' = grantsOf grants key' := by
        simp [grantsOf, Ne.symm heq]
      have hsame : Tables.granted { t with db := db' } key' = t.granted key' := by
        unfold Tables.granted
        cases hother : t.paidBy key' with
        | none => simp
        | some id' =>
          -- an event pays for one purchase only
          have hne : id' ≠ id := by
            rintro rfl
            have hpay' := ((h.accounted key' p' hp').paid id' hother).2.2
            exact heq (Prod.mk.inj (Option.some.inj (hpay'.symm.trans hpay))).1
          simp [hgrant, Function.update_of_ne hne]
      rw [hungranted, hsame]
      exact hold

/-! #### Reversing -/

/-- A partial charge-back is not rounded. -/
def ExactPart (divide : ℚ → ℤ → ℚ) (p : Purchase) (n : ℤ) : Prop :=
  divide (p.credits * ((n - p.refundedCents : ℤ) : ℚ)) p.amountCents =
    p.credits * ((n - p.refundedCents : ℤ) : ℚ) / p.amountCents

theorem newRefunded_le (hwithin : p.refundedCents ≤ p.amountCents) (target : ReversalTarget) :
    target.newRefunded p ≤ p.amountCents := by
  cases target with
  | cumulative cents => exact max_le hwithin (min_le_right _ _)
  | full => exact le_refl _

theorem reversedCents_le_newRefunded (p : Purchase) (target : ReversalTarget) :
    reversedCents target p.amountCents ≤ target.newRefunded p := by
  cases target with
  | cumulative cents => exact le_max_right _ _
  | full => exact le_refl _

theorem newRefunded_eq {target : ReversalTarget} (hlt : p.refundedCents < target.newRefunded p) :
    target.newRefunded p = reversedCents target p.amountCents := by
  cases target with
  | cumulative cents =>
    simp only [ReversalTarget.newRefunded, lt_max_iff, lt_self_iff_false, false_or] at hlt
    exact max_eq_right hlt.le
  | full => rfl

/-- The charge-back keeps the proportion. -/
theorem revokedAfter_eq {divide : ℚ → ℤ → ℚ} {n : ℤ} (hamount : 0 < p.amountCents)
    (hrevoked : p.revokedCredits * p.amountCents = p.credits * p.refundedCents)
    (hn : n ≤ p.amountCents) (hexact : n < p.amountCents → ExactPart divide p n) :
    Db.revokedAfter divide p n * p.amountCents = p.credits * n := by
  have hcredits : 0 ≤ p.credits := p.revokedBound.1.trans p.revokedBound.2
  have hpos : (0 : ℚ) < p.amountCents := by exact_mod_cast hamount
  unfold Db.revokedAfter
  split
  · rename_i hfull
    have heq : n = p.amountCents := by
      rcases hfull with hfull | hfull
      · exact absurd hamount hfull.not_gt
      · exact le_antisymm hn hfull
    rw [min_self, heq]
  · rename_i hpart
    have hlt : n < p.amountCents := not_le.mp fun hle => hpart (Or.inr hle)
    rw [hexact hlt]
    have hsum : p.revokedCredits + p.credits * ((n - p.refundedCents : ℤ) : ℚ) / p.amountCents =
        p.credits * n / p.amountCents := by
      rw [eq_div_iff hpos.ne', add_mul, div_mul_cancel₀ _ hpos.ne', hrevoked]
      push_cast
      ring
    have hle : p.credits * n / p.amountCents ≤ p.credits := by
      rw [div_le_iff₀ hpos]
      exact mul_le_mul_of_nonneg_left (by exact_mod_cast hn) hcredits
    rw [hsum, min_eq_right hle, div_mul_cancel₀ _ hpos.ne']

/-- What a reversal makes of a purchase. -/
structure Reversal (divide : ℚ → ℤ → ℚ) (target : ReversalTarget) (p p' : Purchase) : Prop where
  wasPaid : p.status = .paid
  further : p.refundedCents < target.newRefunded p
  amountCents : p'.amountCents = p.amountCents
  credits : p'.credits = p.credits
  refundedCents : p'.refundedCents = target.newRefunded p
  revokedCredits : p'.revokedCredits = Db.revokedAfter divide p (target.newRefunded p)
  pending : p'.status ≠ .pending
  closed : p'.status ≠ .paid → target.newRefunded p = p.amountCents

theorem Accounted.reversal {divide : ℚ → ℤ → ℚ} {target : ReversalTarget} {p' : Purchase}
    {intent : Text} (h : Accounted content sessionIntent t delivered (.intent intent) p)
    (hr : Reversal divide target p p') (hpaidBy : t'.paidBy = t.paidBy) (hid : id ∈ delivered)
    (hrev : (content id).reversal = some (intent, target))
    (hexact : target.newRefunded p < p.amountCents → ExactPart divide p (target.newRefunded p)) :
    Accounted content sessionIntent t' delivered (.intent intent) p' where
  amount := hr.amountCents ▸ h.amount
  nonneg := by
    rw [hr.refundedCents]
    exact h.nonneg.trans hr.further.le
  within := by
    rw [hr.refundedCents, hr.amountCents]
    exact newRefunded_le h.within target
  revoked := by
    rw [hr.revokedCredits, hr.amountCents, hr.credits, hr.refundedCents]
    exact revokedAfter_eq h.amount h.revoked (newRefunded_le h.within target) hexact
  unpaid := by
    intro hnone
    rw [hpaidBy] at hnone
    have hpending := (h.unpaid hnone).1
    rw [hr.wasPaid] at hpending
    cases hpending
  paid := by
    intro id' hid'
    obtain ⟨-, hmem, hpay⟩ := h.paid id' (hpaidBy ▸ hid')
    exact ⟨hr.pending, hmem, hr.amountCents ▸ hpay⟩
  closed := by
    intro _ hstatus
    rw [hr.refundedCents, hr.amountCents]
    exact hr.closed hstatus
  reversed := by
    right
    refine ⟨id, hid, target, hrev, ?_⟩
    rw [hr.refundedCents, hr.amountCents, newRefunded_eq hr.further]

theorem find_reversal {db : Db} {intent : Text} {p' : Purchase}
    (hdb : db.purchases = Function.update t.db.purchases intent (some p')) (key : PurchaseKey) :
    Tables.find { t with db := db } key = if key = .intent intent then some p' else t.find key := by
  cases key with
  | session s => rfl
  | intent intent' =>
    by_cases heq : intent' = intent
    · simp [Tables.find, hdb, heq]
    · simp [Tables.find, hdb, heq]

theorem leads_reversal {divide : ℚ → ℤ → ℚ} {target : ReversalTarget} {p' : Purchase} {db : Db}
    {intent : Text} (hp : t.db.purchases intent = some p) (hr : Reversal divide target p p')
    (hdb : db.purchases = Function.update t.db.purchases intent (some p'))
    (hgrants : db.grantIdempotency = t.db.grantIdempotency) : Leads t { t with db := db } := by
  refine ⟨fun key q hq => ?_, fun key hkey => ?_, fun _ _ hid => hid, fun id hid => ?_⟩
  · rw [find_reversal hdb] at hq
    split at hq
    · rename_i heq
      subst heq
      obtain rfl := Option.some.inj hq
      exact ⟨p, hp, hr.amountCents, hr.credits, hr.refundedCents ▸ hr.further.le⟩
    · exact ⟨q, hq, rfl, rfl, le_refl _⟩
  · rw [find_reversal hdb]
    split
    · rfl
    · exact hkey
  · exact hgrants ▸ hid

theorem Books.reversal {divide : ℚ → ℤ → ℚ} {target : ReversalTarget} {p' : Purchase} {db : Db}
    {intent : Text} (h : Books content sessionIntent t delivered grants)
    (hp : t.db.purchases intent = some p) (hr : Reversal divide target p p')
    (hdb : db.purchases = Function.update t.db.purchases intent (some p'))
    (hgrants : db.grantIdempotency = t.db.grantIdempotency) (hid : id ∈ delivered)
    (hrev : (content id).reversal = some (intent, target))
    (hexact : target.newRefunded p < p.amountCents → ExactPart divide p (target.newRefunded p)) :
    Books content sessionIntent { t with db := db } delivered grants := by
  refine ⟨fun key q hq => ?_, ?_, fun key q hq => ?_,
    (leads_reversal hp hr hdb hgrants).separate h.separate⟩
  · rw [find_reversal hdb] at hq
    split at hq
    · rename_i heq
      subst heq
      obtain rfl := Option.some.inj hq
      exact (h.accounted (.intent intent) p hp).reversal hr rfl hid hrev hexact
    · exact (h.accounted key q hq).mono rfl fun _ hmem => hmem
  · intro id' key cents hpay hgranted
    rw [hgrants] at hgranted
    exact h.grantKeys id' key cents hpay hgranted
  · have hgranted : Tables.granted { t with db := db } key = t.granted key := by
      simp only [Tables.granted, hgrants]
    rw [find_reversal hdb] at hq
    split at hq
    · rename_i heq
      subst heq
      obtain rfl := Option.some.inj hq
      rw [hgranted, hr.credits]
      exact h.grants (.intent intent) p hp
    · rw [hgranted]
      exact h.grants key q hq

/-! #### An event -/

/-- A payment that is delivered again finds its purchase still paid, unless the credits are
granted; a reversal finds a purchase that is marked as paid, and charges back an exact part. -/
def Delivery.Undisturbed (divide : ℚ → ℤ → ℚ) (content : Text → StripeEvent) (t : Tables) :
    Delivery → Prop
  | .recorded id =>
    (∀ x ∈ (content id).payment, ∀ p ∈ t.find x.1, t.paidBy x.1 = some id →
      (t.db.grantIdempotency id).isSome = true ∨ p.status = .paid) ∧
    ∀ x ∈ (content id).reversal, ∃ p ∈ t.db.purchases x.1, p.status ≠ .pending ∧
      (p.status = .paid → p.refundedCents < x.2.newRefunded p → x.2.newRefunded p < p.amountCents →
        ExactPart divide p (x.2.newRefunded p))
  | _ => True

/-- What a delivery knows. -/
def Delivery.Held (content : Text → StripeEvent) (sessionIntent : Text → Text) (t : Tables)
    (delivered : List Text) : Delivery → Prop
  | .received id => id ∈ delivered
  | .recorded id => id ∈ delivered
  | .granting id key _ credits =>
    t.paidBy key = some id ∧ ∃ p, t.find key = some p ∧ p.credits = credits
  | .finishing id => Done content sessionIntent t id
  | .ended => True

theorem held_mono (h : Leads t t') (hd : ∀ id ∈ delivered, id ∈ delivered') {d : Delivery}
    (hheld : d.Held content sessionIntent t delivered) :
    d.Held content sessionIntent t' delivered' := by
  cases d with
  | received id => exact hd id hheld
  | recorded id => exact hd id hheld
  | granting id key address credits =>
    obtain ⟨hpaid, p, hp, hcredits⟩ := hheld
    obtain ⟨p', hp'⟩ := Option.isSome_iff_exists.mp (h.forth key (Option.isSome_iff_exists.mpr ⟨p, hp⟩))
    obtain ⟨q, hq, -, hsame, -⟩ := h.back key p' hp'
    obtain rfl := Option.some.inj (hp.symm.trans hq)
    exact ⟨h.paidBy key id hpaid, p', hp', hsame.trans hcredits⟩
  | finishing id => exact h.done hheld
  | ended => trivial

/-- What is known after the first transaction. -/
def Next.Held (content : Text → StripeEvent) (sessionIntent : Text → Text) (t : Tables) (id : Text) :
    Next → Prop
  | .grant key _ credits => t.paidBy key = some id ∧ ∃ p, t.find key = some p ∧ p.credits = credits
  | .finish => Done content sessionIntent t id

variable {divide : ℚ → ℤ → ℚ} {text : Text} {next : Next}

theorem books_payment {cents : ℤ} (h : Books content sessionIntent t delivered grants)
    (hid : id ∈ delivered) (hpay : (content id).payment = some (key, cents))
    (hrev : (content id).reversal = none)
    (hok : ∀ p ∈ t.find key, t.paidBy key = some id →
      (t.db.grantIdempotency id).isSome = true ∨ p.status = .paid)
    (hmark : grantNext key (t.markPaid key id cents) = (next, t')) :
    Books content sessionIntent t' delivered grants ∧ Leads t t' ∧
      t'.stripeEvents = t.stripeEvents ∧ next.Held content sessionIntent t' id := by
  have hleads : Leads t t := leads_of_eq (fun _ => rfl) rfl rfl
  obtain ⟨rfl, rfl, hskip⟩ | ⟨p, hp, rfl, ⟨rfl, hpaid⟩ | ⟨hpending, rfl, rfl⟩⟩ := markPaid_cases hmark
  · refine ⟨h, hleads, rfl, ⟨fun key' p hpay' hp => ?_, fun key' p target hrev' => ?_⟩⟩
    · obtain ⟨rfl, rfl⟩ := Prod.mk.inj (Option.some.inj (hpay.symm.trans hpay'))
      obtain ⟨hstatus, hother⟩ := hskip p hp rfl
      cases hpaid : t'.paidBy key with
      | none => exact absurd ((h.accounted key p hp).unpaid hpaid).1 hstatus
      | some id' =>
        refine ⟨id', rfl, ?_⟩
        rintro rfl
        exact (hok p hp hpaid).resolve_right fun hstill => hother ⟨hstill, hpaid⟩
    · rw [hrev] at hrev'
      cases hrev'
  · exact ⟨h, hleads, rfl, hpaid, p, hp, rfl⟩
  · have hnone : t.paidBy key = none := by
      cases hpaid : t.paidBy key with
      | none => rfl
      | some id' => exact absurd hpending ((h.accounted key p hp).paid id' hpaid).1
    refine ⟨h.marked hp hpending hpay hid, leads_marked hp hnone, store_stripeEvents t _ key,
      Function.update_self key _ _, { p with status := .paid }, ?_, rfl⟩
    exact (find_marked t p key id key).trans (if_pos rfl)

theorem done_reversal {target : ReversalTarget} {intent : Text}
    (h : Books content sessionIntent t delivered grants) (hpay : (content id).payment = none)
    (hrev : (content id).reversal = some (intent, target)) (hp : t.db.purchases intent = some p)
    (hle : reversedCents target p.amountCents ≤ p.refundedCents) :
    Done content sessionIntent t id := by
  refine ⟨fun key q hpay' => ?_, fun key q target' hrev' hq => ?_⟩
  · rw [hpay] at hpay'
    cases hpay'
  · obtain ⟨hintent, rfl⟩ := Prod.mk.inj (Option.some.inj (hrev.symm.trans hrev'))
    cases key with
    | intent intent' =>
      obtain rfl : intent = intent' := hintent
      obtain rfl := Option.some.inj (hp.symm.trans hq)
      exact hle
    | session s =>
      have hsome : (t.orders s).isSome = true := Option.isSome_iff_exists.mpr ⟨q, hq⟩
      have hknown : (t.db.purchases intent).isSome = true := Option.isSome_iff_exists.mpr ⟨p, hp⟩
      exact absurd hintent.symm (h.separate s intent hsome hknown)

theorem books_reversal {target : ReversalTarget} {intent : Text} {label : Option PurchaseStatus}
    {o : ReversalOutcome} {db : Db} (h : Books content sessionIntent t delivered grants)
    (hid : id ∈ delivered) (hpay : (content id).payment = none)
    (hrev : (content id).reversal = some (intent, target))
    (hlabel : label = none ∨ label = some .disputed ∧ target = .full)
    (hok : ∃ p ∈ t.db.purchases intent, p.status ≠ .pending ∧
      (p.status = .paid → p.refundedCents < target.newRefunded p →
        target.newRefunded p < p.amountCents → ExactPart divide p (target.newRefunded p)))
    (happly : t.db.applyReversal divide intent target label id text = (.ok o, db)) :
    Books content sessionIntent { t with db := db } delivered grants ∧ Leads t { t with db := db } ∧
      Done content sessionIntent { t with db := db } id := by
  obtain ⟨p, hp, hpending, hexact⟩ := hok
  have hp : t.db.purchases intent = some p := hp
  have hacc := h.accounted (.intent intent) p hp
  obtain ⟨rfl, hskip⟩ |
      ⟨q, p', hq, hpaid, hlt, hamount, hcredits, hrefunded, hrevoked, hstatus, hdb, hgrants⟩ :=
    applyReversal_cases happly
  · refine ⟨h, leads_of_eq (fun _ => rfl) rfl rfl, done_reversal h hpay hrev hp ?_⟩
    obtain hclosed | hle := hskip p hp
    · -- what is no longer paid has gone back as a whole
      rw [hacc.closed hpending hclosed]
      exact (reversedCents_le_newRefunded p target).trans (newRefunded_le hacc.within target)
    · exact (reversedCents_le_newRefunded p target).trans hle
  · obtain rfl := Option.some.inj (hp.symm.trans hq)
    have hfull : p'.status ≠ .paid → target.newRefunded p = p.amountCents := by
      intro hne
      obtain rfl | ⟨rfl, rfl⟩ := hlabel
      · rw [Option.getD_none] at hstatus
        split at hstatus
        · rename_i hle
          exact le_antisymm (newRefunded_le hacc.within target) hle
        · exact absurd (hstatus.trans hpaid) hne
      · rfl
    have hnotpending : p'.status ≠ .pending := by
      intro hcon
      rw [hcon] at hstatus
      obtain rfl | ⟨rfl, rfl⟩ := hlabel
      · rw [Option.getD_none, hpaid] at hstatus
        split at hstatus <;> cases hstatus
      · cases hstatus
    have hr : Reversal divide target p p' :=
      ⟨hpaid, hlt, hamount, hcredits, hrefunded, hrevoked, hnotpending, hfull⟩
    have hbooks := h.reversal hp hr hdb hgrants hid hrev (hexact hpaid hlt)
    refine ⟨hbooks, leads_reversal hp hr hdb hgrants, done_reversal hbooks hpay hrev
      (p := p') (by rw [hdb, Function.update_self]) ?_⟩
    rw [hrefunded, hamount]
    exact reversedCents_le_newRefunded p target

theorem books_process (h : Books content sessionIntent t delivered grants) (hid : id ∈ delivered)
    (hkind : (content id).settles = true)
    (hok : (Delivery.recorded id).Undisturbed divide content t)
    (hprocess : process divide t id (content id) text = .ok (next, t')) :
    Books content sessionIntent t' delivered grants ∧ Leads t t' ∧
      t'.stripeEvents = t.stripeEvents ∧ next.Held content sessionIntent t' id := by
  obtain ⟨key, cents, hpay, hrev, hmark⟩ | ⟨intent, target, label, o, db, hpay, hrev, rfl, hlabel,
    happly, rfl⟩ | ⟨hpay, hrev, rfl, rfl⟩ := process_cases hkind hprocess
  · exact books_payment h hid hpay hrev (hok.1 (key, cents) hpay) hmark
  · obtain ⟨hbooks, hleads, hdone⟩ :=
      books_reversal h hid hpay hrev hlabel (hok.2 (intent, target) hrev) happly
    exact ⟨hbooks, hleads, rfl, hdone⟩
  · refine ⟨h, leads_of_eq (fun _ => rfl) rfl rfl, rfl, ⟨fun key p hpay' => ?_, fun key p target hrev' => ?_⟩⟩
    · rw [hpay] at hpay'
      cases hpay'
    · rw [hrev] at hrev'
      cases hrev'

end Books

end Catalyrst.Credits.Stripe
