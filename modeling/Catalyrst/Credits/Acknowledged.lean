import Mathlib
import Catalyrst.Credits.Settled

/-!
# Once every event is acknowledged

Deliveries of any events, in any order, again and at once, each cut short anywhere.
-/

namespace Catalyrst.Credits.Stripe

open Catalyrst.Lib

section Runs

variable (lower : Text → Text) (divide : ℚ → ℤ → ℚ) (content : Text → StripeEvent)
  (sessionIntent : Text → Text)

structure System.Sound (y : System) : Prop where
  books : Books content sessionIntent y.tables y.delivered y.grants
  held : ∀ d ∈ y.deliveries, d.Held content sessionIntent y.tables y.delivered
  done : ∀ id, y.tables.stripeEvents id = some true → Done content sessionIntent y.tables id
  kinds : ∀ id ∈ y.delivered, (content id).settles = true

/-- The condition under which a step is taken. -/
def Undisturbed (y : System) : Event → Prop
  | .deliver id => (content id).settles = true
  | .advance index _ _ => ∀ d ∈ y.deliveries[index]?, d.Undisturbed divide content y.tables
  | .crash _ => True
  | .others _ _ => True

variable {lower divide content sessionIntent}
variable {y z : System} {creditsText chargedBackText : Text}

/-- What a transaction of a delivery leaves behind. -/
structure Advanced (content : Text → StripeEvent) (sessionIntent : Text → Text) (y : System)
    (d : Delivery) (t : Tables) (next : Delivery) (granted : List (PurchaseKey × ℚ)) : Prop where
  books : Books content sessionIntent t y.delivered (y.grants ++ granted)
  leads : Leads y.tables t
  held : next.Held content sessionIntent t y.delivered
  processed : ∀ id, t.stripeEvents id = some true →
    y.tables.stripeEvents id = some true ∨ d = .finishing id

section Transactions

variable {d next : Delivery} {t : Tables} {granted : List (PurchaseKey × ℚ)} {id : Text}

/-- Neither the purchases nor the grants are touched. -/
theorem System.Sound.advanced (hy : y.Sound content sessionIntent)
    (hfind : ∀ key, t.find key = y.tables.find key) (hpaid : t.paidBy = y.tables.paidBy)
    (hgrants : t.db.grantIdempotency = y.tables.db.grantIdempotency)
    (hnext : next.Held content sessionIntent t y.delivered)
    (hevents : ∀ id, t.stripeEvents id = some true →
      y.tables.stripeEvents id = some true ∨ d = .finishing id) :
    Advanced content sessionIntent y d t next [] where
  books := by
    rw [List.append_nil]
    exact hy.books.of_eq hfind hpaid hgrants fun _ hmem => hmem
  leads := leads_of_eq hfind hpaid hgrants
  held := hnext
  processed := hevents

theorem advanced_received (hy : y.Sound content sessionIntent) (hd : .received id ∈ y.deliveries)
    (h : advance lower divide content y.tables creditsText chargedBackText (.received id) =
      some (t, next, granted)) :
    Advanced content sessionIntent y (.received id) t next granted := by
  have hheld := hy.held _ hd
  cases hrow : y.tables.stripeEvents id with
  | none =>
    have hnew : y.tables.recordStripeEvent id = (true, { y.tables with
        stripeEvents := Function.update y.tables.stripeEvents id (some false) }) := by
      simp [Tables.recordStripeEvent, hrow]
    simp only [advance, hnew] at h
    obtain ⟨rfl, rfl, rfl⟩ := Option.some.inj h
    refine hy.advanced (fun key => by cases key <;> rfl) rfl rfl hheld fun id' hid' => Or.inl ?_
    by_cases heq : id' = id
    · simp [heq] at hid'
    · simpa [Function.update_of_ne heq] using hid'
  | some processed =>
    have hold : y.tables.recordStripeEvent id = (!processed, y.tables) := by
      simp [Tables.recordStripeEvent, hrow]
    simp only [advance, hold] at h
    obtain ⟨rfl, rfl, rfl⟩ := Option.some.inj h
    refine hy.advanced (fun _ => rfl) rfl rfl ?_ fun _ hid' => Or.inl hid'
    split
    · exact hheld
    · trivial

theorem advanced_recorded (hy : y.Sound content sessionIntent) (hd : .recorded id ∈ y.deliveries)
    (hok : (Delivery.recorded id).Undisturbed divide content y.tables)
    (h : advance lower divide content y.tables creditsText chargedBackText (.recorded id) =
      some (t, next, granted)) :
    Advanced content sessionIntent y (.recorded id) t next granted := by
  have hheld := hy.held _ hd
  simp only [advance] at h
  cases hprocess : process divide y.tables id (content id) chargedBackText with
  | error e =>
    rw [hprocess] at h
    obtain ⟨rfl, rfl, rfl⟩ := Option.some.inj h
    exact hy.advanced (fun _ => rfl) rfl rfl trivial fun _ hid' => Or.inl hid'
  | ok r =>
    obtain ⟨n, t'⟩ := r
    obtain ⟨hbooks, hleads, hevents, hnext⟩ :=
      books_process hy.books hheld (hy.kinds id hheld) hok hprocess
    rw [hprocess] at h
    cases n with
    | grant key address credits =>
      obtain ⟨rfl, rfl, rfl⟩ := Option.some.inj h
      rw [← List.append_nil y.grants] at hbooks
      exact ⟨hbooks, hleads, hnext, fun _ hid' => Or.inl (hevents ▸ hid')⟩
    | finish =>
      obtain ⟨rfl, rfl, rfl⟩ := Option.some.inj h
      rw [← List.append_nil y.grants] at hbooks
      exact ⟨hbooks, hleads, hnext, fun _ hid' => Or.inl (hevents ▸ hid')⟩

/-- A payment that is granted is done with. -/
theorem done_of_granted {key : PurchaseKey} {cents : ℤ} {t' : Tables}
    (hpay : (content id).payment = some (key, cents)) (hpaid : y.tables.paidBy key = some id)
    (hleads : Leads y.tables t') (hgranted : (t'.db.grantIdempotency id).isSome = true) :
    Done content sessionIntent t' id := by
  refine ⟨fun key' p' hpay' hp' => ⟨id, ?_, fun _ => hgranted⟩, fun key' p' target hrev => ?_⟩
  · obtain ⟨rfl, -⟩ := Prod.mk.inj (Option.some.inj (hpay.symm.trans hpay'))
    exact hleads.paidBy key id hpaid
  · have hnone : (content id).reversal = none := reversal_of_payment hpay
    rw [hnone] at hrev
    cases hrev

theorem advanced_granting {key : PurchaseKey} {address : Address} {credits : ℚ}
    (hy : y.Sound content sessionIntent) (hd : .granting id key address credits ∈ y.deliveries)
    (h : advance lower divide content y.tables creditsText chargedBackText
      (.granting id key address credits) = some (t, next, granted)) :
    Advanced content sessionIntent y (.granting id key address credits) t next granted := by
  obtain ⟨hpaid, p, hp, rfl⟩ := hy.held _ hd
  have hpay := ((hy.books.accounted key p hp).paid id hpaid).2.2
  simp only [advance] at h
  split at h
  · rename_i hnumeric
    split at h
    · rename_i o db hgrant
      obtain ⟨rfl, rfl, rfl⟩ := Option.some.inj h
      obtain ⟨hreplayed, rfl, hsome⟩ | ⟨hfresh, hnone, happlied, hpurchases, row, hrow⟩ :=
        adminGrantCredits_cases hgrant
      · rw [hreplayed, if_pos rfl]
        refine hy.advanced (fun _ => rfl) rfl rfl ?_ fun _ hid' => Or.inl hid'
        exact done_of_granted hpay hpaid (leads_of_eq (fun _ => rfl) rfl rfl) hsome
      · have hleads : Leads y.tables { y.tables with db := db } := leads_granted hpurchases hrow
        rw [hfresh, happlied, hnumeric]
        refine ⟨hy.books.granted hpurchases hrow hnone hp hpaid, hleads,
          done_of_granted hpay hpaid hleads ?_, fun _ hid' => Or.inl hid'⟩
        rw [hrow, Function.update_self]
        rfl
    · obtain ⟨rfl, rfl, rfl⟩ := Option.some.inj h
      exact hy.advanced (fun _ => rfl) rfl rfl trivial fun _ hid' => Or.inl hid'
  · cases h

theorem advanced_finishing (hy : y.Sound content sessionIntent)
    (h : advance lower divide content y.tables creditsText chargedBackText (.finishing id) =
      some (t, next, granted)) :
    Advanced content sessionIntent y (.finishing id) t next granted := by
  obtain ⟨rfl, rfl, rfl⟩ := Option.some.inj h
  refine hy.advanced (fun key => by cases key <;> rfl) rfl rfl trivial fun id' hid' => ?_
  by_cases heq : id' = id
  · exact Or.inr (heq ▸ rfl)
  · simp only [Tables.markStripeEventProcessed, Function.update_of_ne heq] at hid'
    exact Or.inl hid'

/-- One transaction of a delivery. -/
theorem advanced_of_advance (hy : y.Sound content sessionIntent) (hd : d ∈ y.deliveries)
    (hok : d.Undisturbed divide content y.tables)
    (h : advance lower divide content y.tables creditsText chargedBackText d =
      some (t, next, granted)) : Advanced content sessionIntent y d t next granted := by
  cases d with
  | received id => exact advanced_received hy hd h
  | recorded id => exact advanced_recorded hy hd hok h
  | granting id key address credits => exact advanced_granting hy hd h
  | finishing id => exact advanced_finishing hy h
  | ended => cases h

end Transactions

theorem sound_step (y : System) (e : Event) (z : System) (hy : y.Sound content sessionIntent)
    (hok : Undisturbed divide content y e) (h : y.step lower divide content e = some z) :
    z.Sound content sessionIntent := by
  cases e with
  | deliver id =>
    obtain rfl := Option.some.inj h
    have hmem : ∀ x ∈ y.delivered, x ∈ y.delivered ++ [id] := fun x hx => List.mem_append_left _ hx
    have hleads : Leads y.tables y.tables := leads_of_eq (fun _ => rfl) rfl rfl
    refine ⟨hy.books.of_eq (fun _ => rfl) rfl rfl hmem, fun d hd => ?_, hy.done, fun x hx => ?_⟩
    · obtain hd | hd := List.mem_append.mp hd
      · exact held_mono hleads hmem (hy.held d hd)
      · obtain rfl := List.mem_singleton.mp hd
        exact List.mem_append_right _ (List.mem_singleton_self id)
    · obtain hx | hx := List.mem_append.mp hx
      · exact hy.kinds x hx
      · obtain rfl := List.mem_singleton.mp hx
        exact hok
  | advance i creditsText chargedBackText =>
    obtain ⟨d, hd, hrest⟩ := Option.bind_eq_some_iff.mp h
    obtain ⟨⟨t, next, granted⟩, hadv, hz⟩ := Option.bind_eq_some_iff.mp hrest
    obtain rfl := Option.some.inj hz
    have hmem := List.mem_of_getElem? hd
    obtain ⟨hbooks, hleads, hnext, hevents⟩ := advanced_of_advance hy hmem (hok d hd) hadv
    refine ⟨hbooks, fun d' hd' => ?_, fun id hid => ?_, hy.kinds⟩
    · obtain hd' | rfl := List.mem_or_eq_of_mem_set hd'
      · exact held_mono hleads (fun _ hx => hx) (hy.held d' hd')
      · exact hnext
    · obtain hold | rfl := hevents id hid
      · exact hleads.done (hy.done id hold)
      · exact hleads.done (hy.held _ hmem)
  | crash i =>
    obtain rfl := Option.some.inj h
    refine ⟨hy.books, fun d hd => ?_, hy.done, hy.kinds⟩
    obtain hd | rfl := List.mem_or_eq_of_mem_set hd
    · exact hy.held d hd
    · trivial
  | others userCredits creditLedger =>
    obtain rfl := Option.some.inj h
    let t : Tables := { y.tables with
      db := { y.tables.db with userCredits := userCredits, creditLedger := creditLedger } }
    have hfind : ∀ key, t.find key = y.tables.find key := fun key => by cases key <;> rfl
    have hleads : Leads y.tables t := leads_of_eq hfind rfl rfl
    exact ⟨hy.books.of_eq hfind rfl rfl fun _ hx => hx,
      fun d hd => held_mono hleads (fun _ hx => hx) (hy.held d hd),
      fun id hid => hleads.done (hy.done id hid), hy.kinds⟩

/-- Purchases that nothing has happened to yet, and keys that are not drawn. -/
structure System.Fresh (content : Text → StripeEvent) (sessionIntent : Text → Text) (y : System) :
    Prop where
  pending : ∀ key p, y.tables.find key = some p →
    p.status = .pending ∧ p.refundedCents = 0 ∧ p.revokedCredits = 0 ∧ 0 < p.amountCents
  unpaid : ∀ key, y.tables.paidBy key = none
  unrecorded : ∀ id, y.tables.stripeEvents id = none
  ungranted : ∀ id, (content id).payment ≠ none → y.tables.db.grantIdempotency id = none
  separate : ∀ s intent, (y.tables.orders s).isSome = true →
    (y.tables.db.purchases intent).isSome = true → sessionIntent s ≠ intent
  idle : y.deliveries = [] ∧ y.delivered = [] ∧ y.grants = []

theorem sound_fresh (hy : y.Fresh content sessionIntent) : y.Sound content sessionIntent := by
  obtain ⟨hdeliveries, hdelivered, hgrants⟩ := hy.idle
  refine ⟨⟨fun key p hp => ?_, fun id key cents hpay hgranted => ?_, fun key p hp => ?_, hy.separate⟩,
    fun d hd => ?_, fun id hid => ?_, fun id hid => ?_⟩
  · obtain ⟨hstatus, hrefunded, hrevoked, hamount⟩ := hy.pending key p hp
    refine ⟨hamount, hrefunded.ge, hrefunded ▸ hamount.le, ?_, fun _ => ⟨hstatus, hrefunded⟩,
      fun id hid => ?_, fun hne => absurd hstatus hne, Or.inl hrefunded⟩
    · rw [hrefunded, hrevoked]
      simp
    · rw [hy.unpaid] at hid
      cases hid
  · rw [hy.ungranted id (by simp [hpay])] at hgranted
    cases hgranted
  · rw [hgrants, Tables.granted, hy.unpaid]
    rfl
  · rw [hdeliveries] at hd
    cases hd
  · rw [hy.unrecorded] at hid
    cases hid
  · rw [hdelivered] at hid
    cases hid

/-- The charge of a purchase that was paid for, the part of it that went back, and the credits
that stay. -/
theorem purchase_settles {key : PurchaseKey} {p : Purchase} (hy : y.Sound content sessionIntent)
    (hacked : ∀ id ∈ y.delivered, y.tables.stripeEvents id = some true)
    (hp : y.tables.find key = some p)
    (hpaid : ∃ id ∈ y.delivered, (content id).payment = some (key, p.amountCents)) :
    grantsOf y.grants key = [p.credits] ∧ p.credits - p.revokedCredits = p.credits *
      (1 - (totalReversed (y.delivered.map content) (chargeIntent sessionIntent key) p.amountCents : ℚ) /
        p.amountCents) := by
  have hacc := hy.books.accounted key p hp
  constructor
  · obtain ⟨id, hid, hpay⟩ := hpaid
    obtain ⟨id', hmark, -⟩ := (hy.done id (hacked id hid)).paid key p hpay hp
    -- the event that marked the purchase is acknowledged as well
    obtain ⟨-, hid', hpay'⟩ := hacc.paid id' hmark
    obtain ⟨id'', hmark', hgranted⟩ := (hy.done id' (hacked id' hid')).paid key p hpay' hp
    obtain rfl := Option.some.inj (hmark.symm.trans hmark')
    rw [hy.books.grants key p hp, Tables.granted, hmark, Option.any_some, hgranted rfl]
    rfl
  · have htotal : totalReversed (y.delivered.map content) (chargeIntent sessionIntent key) p.amountCents =
        p.refundedCents := by
      refine le_antisymm (totalReversed_le hacc.nonneg fun e he target hrev => ?_) ?_
      · obtain ⟨id, hid, rfl⟩ := List.mem_map.mp he
        exact (hy.done id (hacked id hid)).reversed key p target hrev hp
      · obtain hzero | ⟨id, hid, target, hrev, heq⟩ := hacc.reversed
        · rw [hzero]
          exact totalReversed_nonneg _ _ _
        · rw [heq]
          exact le_totalReversed (List.mem_map_of_mem hid) hrev _
    have hpos : (0 : ℚ) < p.amountCents := by exact_mod_cast hacc.amount
    have hrevoked : p.revokedCredits = p.credits * p.refundedCents / p.amountCents := by
      rw [eq_div_iff hpos.ne']
      exact hacc.revoked
    rw [htotal, hrevoked]
    ring

theorem purchase_unpaid {key : PurchaseKey} {p : Purchase} (hy : y.Sound content sessionIntent)
    (hp : y.tables.find key = some p)
    (hunpaid : ¬ ∃ id ∈ y.delivered, (content id).payment = some (key, p.amountCents)) :
    grantsOf y.grants key = [] ∧ p.revokedCredits = 0 := by
  have hacc := hy.books.accounted key p hp
  have hnone : y.tables.paidBy key = none := by
    cases hpaid : y.tables.paidBy key with
    | none => rfl
    | some id =>
      obtain ⟨-, hid, hpay⟩ := hacc.paid id hpaid
      exact absurd ⟨id, hid, hpay⟩ hunpaid
  constructor
  · rw [hy.books.grants key p hp, Tables.granted, hnone]
    rfl
  · have hzero := hacc.revoked
    have hpos : (p.amountCents : ℚ) ≠ 0 := by exact_mod_cast hacc.amount.ne'
    rw [(hacc.unpaid hnone).2, Int.cast_zero, mul_zero] at hzero
    exact (mul_eq_zero.mp hzero).resolve_right hpos

/-- What holds of a purchase when the events delivered so far are acknowledged. -/
def Settled (content : Text → StripeEvent) (sessionIntent : Text → Text) (y : System) : Prop :=
  ∀ key p, y.tables.find key = some p →
    ((∃ id ∈ y.delivered, (content id).payment = some (key, p.amountCents)) →
      grantsOf y.grants key = [p.credits] ∧ p.credits - p.revokedCredits = p.credits *
        (1 - (totalReversed (y.delivered.map content) (chargeIntent sessionIntent key) p.amountCents : ℚ) /
          p.amountCents)) ∧
    ((¬ ∃ id ∈ y.delivered, (content id).payment = some (key, p.amountCents)) →
      grantsOf y.grants key = [] ∧ p.revokedCredits = 0)

theorem events_settle (lower : Text → Text) (divide : ℚ → ℤ → ℚ) (content : Text → StripeEvent)
    (sessionIntent : Text → Text) (y z : System) (events : List Event)
    (hy : y.Fresh content sessionIntent)
    (hmeets : Machine.Meets (System.step lower divide content) (Undisturbed divide content) y events)
    (hrun : Machine.run (System.step lower divide content) y events = some z)
    (hacked : ∀ id ∈ z.delivered, z.tables.stripeEvents id = some true) :
    Settled content sessionIntent z := by
  have hz : z.Sound content sessionIntent :=
    Machine.run_invariant_of_meets _ sound_step events y z hmeets hrun (sound_fresh hy)
  intro key p hp
  exact ⟨purchase_settles hz hacked hp, purchase_unpaid hz hp⟩

end Runs

/-! ### Runs of one purchase -/

instance decidableDeliveryUndisturbed (divide : ℚ → ℤ → ℚ) (content : Text → StripeEvent)
    (t : Tables) : (d : Delivery) → Decidable (d.Undisturbed divide content t)
  | .recorded id =>
    have : ∀ p n, Decidable (ExactPart divide p n) := fun _ _ => inferInstanceAs (Decidable (_ = _))
    inferInstanceAs (Decidable (
      (∀ x ∈ (content id).payment, ∀ p ∈ t.find x.1, t.paidBy x.1 = some id →
        (t.db.grantIdempotency id).isSome = true ∨ p.status = .paid) ∧
      ∀ x ∈ (content id).reversal, ∃ p ∈ t.db.purchases x.1, p.status ≠ .pending ∧
        (p.status = .paid → p.refundedCents < x.2.newRefunded p →
          x.2.newRefunded p < p.amountCents → ExactPart divide p (x.2.newRefunded p))))
  | .received _ => inferInstanceAs (Decidable True)
  | .granting _ _ _ _ => inferInstanceAs (Decidable True)
  | .finishing _ => inferInstanceAs (Decidable True)
  | .ended => inferInstanceAs (Decidable True)

instance decidableUndisturbed (divide : ℚ → ℤ → ℚ) (content : Text → StripeEvent) (y : System) :
    (e : Event) → Decidable (Undisturbed divide content y e)
  | .deliver id => inferInstanceAs (Decidable ((content id).settles = true))
  | .advance index _ _ =>
    inferInstanceAs (Decidable (∀ d ∈ y.deliveries[index]?, d.Undisturbed divide content y.tables))
  | .crash _ => inferInstanceAs (Decidable True)
  | .others _ _ => inferInstanceAs (Decidable True)

/-- Payments of the intent `i` and of the session `s`, whose intent is `j`, and what reverses them. -/
def sampleContent : Text → StripeEvent
  | ['p'] => ⟨.paymentIntentSucceeded, ⟨some ['i'], some 100, none, none, none⟩⟩
  | ['s'] => ⟨.checkoutSessionCompleted, ⟨some ['s'], none, some 100, none, none⟩⟩
  | ['r'] => ⟨.chargeRefunded, ⟨none, none, none, some ['i'], some 50⟩⟩
  | ['d'] => ⟨.chargeDisputeCreated, ⟨none, none, none, some ['i'], none⟩⟩
  | ['j'] => ⟨.chargeDisputeCreated, ⟨none, none, none, some ['j'], none⟩⟩
  | _ => ⟨.other, ⟨none, none, none, none, none⟩⟩

def samplePurchase : Purchase := ⟨['a'], 10, 100, 0, 0, .pending, by norm_num⟩

def shop : System :=
  let purchases := Function.update (fun _ => none) ['i'] (some samplePurchase)
  let orders := Function.update (fun _ => none) ['s'] (some samplePurchase)
  ⟨⟨{ Db.new with purchases := purchases }, orders, fun _ => none, fun _ => none⟩, [], [], []⟩

/-- The transactions of a delivery from the first to the last. -/
def advances (index n : ℕ) (chargedBackText : Text) : List Event :=
  List.replicate n (.advance index ['1', '0'] chargedBackText)

theorem shop_fresh : shop.Fresh sampleContent fun _ => ['j'] := by
  have hrow : ∀ {k k' : Text} {p : Purchase},
      Function.update (fun _ => none) k (some samplePurchase) k' = some p → k' = k ∧ p = samplePurchase := by
    intro k k' p hp
    by_cases heq : k' = k
    · rw [heq, Function.update_self] at hp
      exact ⟨heq, (Option.some.inj hp).symm⟩
    · rw [Function.update_of_ne heq] at hp
      cases hp
  refine ⟨fun key p hp => ?_, fun _ => rfl, fun _ => rfl, fun _ _ => rfl, fun s intent _ hintent => ?_,
    rfl, rfl, rfl⟩
  · have hsample : p = samplePurchase := by
      cases key with
      | intent intent => exact (hrow hp).2
      | session s => exact (hrow hp).2
    rw [hsample]
    exact ⟨rfl, rfl, rfl, by decide⟩
  · obtain ⟨p, hp⟩ := Option.isSome_iff_exists.mp hintent
    rw [(hrow hp).1]
    decide

/-- The credits, the charge, what is charged back and what is granted of a purchase. -/
def summary (z : System) (key : PurchaseKey) : Option (ℚ × ℤ × ℚ) × List ℚ × List Text × Bool :=
  ((z.tables.find key).map fun p => (p.credits, p.amountCents, p.revokedCredits),
    grantsOf z.grants key, z.delivered, z.delivered.all fun id => z.tables.stripeEvents id = some true)

/-- A payment that is cut short and delivered again, and half of it refunded in between. -/
def repeated : List Event :=
  [.deliver ['p'], .deliver ['r']] ++ advances 0 2 [] ++ [.crash 0, .deliver ['p']] ++
    advances 1 3 ['5'] ++ advances 2 4 []

theorem events_settle_chain :
    ∃ z, Machine.run (System.step id (fun x n => x / n) sampleContent) shop repeated = some z ∧
      summary z (.intent ['i']) = (some (10, 100, 5), [10], [['p'], ['r'], ['p']], true) ∧
        Settled sampleContent (fun _ => ['j']) z := by
  have hmap : (Machine.run (System.step id (fun x n => x / n) sampleContent) shop repeated).map
      (fun z => summary z (.intent ['i'])) =
        some (some (10, 100, 5), [10], [['p'], ['r'], ['p']], true) := by decide +kernel
  obtain ⟨z, hrun, hsummary⟩ := Option.map_eq_some_iff.mp hmap
  have hmeets : Machine.Meets (System.step id (fun x n => x / n) sampleContent)
      (Undisturbed (fun x n => x / n) sampleContent) shop repeated := by decide +kernel
  have hacked : ∀ id ∈ z.delivered, z.tables.stripeEvents id = some true := by
    have hall := congrArg (fun x => x.2.2.2) hsummary
    simpa [summary] using hall
  exact ⟨z, hrun, hsummary, events_settle id _ sampleContent _ shop z repeated shop_fresh hmeets hrun hacked⟩

/-- A run at the end of which every event is acknowledged and a purchase is not settled. -/
def Unsettled (events : List Event) : Prop :=
  ∃ z, Machine.run (System.step id (fun x n => x / n) sampleContent) shop events = some z ∧
    (∀ id ∈ z.delivered, z.tables.stripeEvents id = some true) ∧
      ¬ Settled sampleContent (fun _ => ['j']) z

theorem unsettled_of_summary {events : List Event} {key : PurchaseKey} {credits revoked : ℚ}
    {amount : ℤ} {granted : List ℚ} {delivered : List Text}
    (h : (Machine.run (System.step id (fun x n => x / n) sampleContent) shop events).map
      (fun z => summary z key) = some (some (credits, amount, revoked), granted, delivered, true))
    (hpaid : ∃ id ∈ delivered, (sampleContent id).payment = some (key, amount))
    (hne : ¬ (granted = [credits] ∧ credits - revoked = credits *
      (1 - (totalReversed (delivered.map sampleContent) (chargeIntent (fun _ => ['j']) key) amount : ℚ) /
        amount))) : Unsettled events := by
  obtain ⟨z, hrun, hsummary⟩ := Option.map_eq_some_iff.mp h
  simp only [summary, Prod.mk.injEq, List.all_eq_true, decide_eq_true_eq] at hsummary
  obtain ⟨hrow, rfl, rfl, hacked⟩ := hsummary
  obtain ⟨p, hp, hvalues⟩ := Option.map_eq_some_iff.mp hrow
  simp only [Prod.mk.injEq] at hvalues
  obtain ⟨rfl, rfl, rfl⟩ := hvalues
  exact ⟨z, hrun, hacked, fun hsettled => hne ((hsettled key p hp).1 hpaid)⟩

/-- A session's charge is disputed; a dispute comes before the payment; a payment is cut short
after it marked the purchase, and delivered again after a dispute. -/
theorem late_and_early_events_unsettle :
    Unsettled ([.deliver ['s'], .deliver ['j']] ++ advances 0 4 [] ++ advances 1 3 []) ∧
      Unsettled ([.deliver ['d'], .deliver ['p']] ++ advances 0 3 [] ++ advances 1 4 []) ∧
      Unsettled ([.deliver ['p'], .deliver ['d']] ++ advances 0 2 [] ++ [.crash 0] ++
        advances 1 3 ['1', '0'] ++ [.deliver ['p']] ++ advances 2 3 []) := by
  refine ⟨?session, ?early, ?late⟩
  case session =>
    exact @unsettled_of_summary _ (.session ['s']) 10 0 100 [10] [['s'], ['j']] (by decide)
      ⟨['s'], by simp, rfl⟩ (by decide +kernel)
  case early =>
    exact @unsettled_of_summary _ (.intent ['i']) 10 0 100 [10] [['d'], ['p']] (by decide)
      ⟨['p'], by simp, rfl⟩ (by decide +kernel)
  case late =>
    exact @unsettled_of_summary _ (.intent ['i']) 10 10 100 [] [['p'], ['d'], ['p']]
      (by decide) ⟨['p'], by simp, rfl⟩ (by decide)

end Catalyrst.Credits.Stripe
