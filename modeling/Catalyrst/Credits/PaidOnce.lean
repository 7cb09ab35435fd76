import Mathlib
import Catalyrst.Credits.Ledger

/-!
# No checkout pays twice

A checkout pays back what it does not deliver. A compensation refunds the lines that are
not confirmed when it reads them, but a line in flight may still be confirmed afterwards,
and a manual refund pays back the whole checkout whatever was delivered. Where neither
happens, refunds and confirmed lines together stay within what the checkout spent.
-/

namespace Catalyrst.Credits

open Catalyrst.Lib Catalyrst.Lib.Fallible Catalyrst.Lib.Tally

/-! ### References and keys -/

theorem toDigits_injective : Function.Injective (Nat.toDigits 10) := by
  intro m n h
  rw [← Nat.ofDigitChars_ten_toDigits (n := m), h, Nat.ofDigitChars_ten_toDigits]

theorem checkoutRef_injective : Function.Injective checkoutRef :=
  fun _ _ h => toDigits_injective (List.append_cancel_left h)

/-! ### What a checkout spent, refunded and delivered -/

namespace Db

variable (db : Db)

/-- The amounts of one kind under a checkout's reference. -/
def refSum (checkoutId : ℕ) (kind : Kind) : ℚ :=
  tally (fun r => r.txRef = some (checkoutRef checkoutId) ∧ r.kind = kind) LedgerRow.amount
    db.creditLedger

def spentBy (checkoutId : ℕ) : ℚ := db.refSum checkoutId .spend

def refundedTo (checkoutId : ℕ) : ℚ := db.refSum checkoutId .refund

def linesTotal (checkoutId : ℕ) : ℚ :=
  tally (fun l => l.checkoutId = checkoutId) OutboxLine.unitPriceCredits db.outbox

def Owns (checkoutId : ℕ) (address : Address) : Prop :=
  ∃ c ∈ db.checkouts, c.id = checkoutId ∧ c.address = address

end Db

section Sums

variable {db db' : Db} {c : ℕ}

theorem linesTotal_eq (db : Db) (c : ℕ) :
    db.linesTotal c = db.linePrices c true + db.linePrices c false := by
  unfold Db.linesTotal Db.linePrices
  rw [tally_split (q := fun l => decide (l.status = .confirmed))]
  congr 1
  · refine tally_congr (fun l _ => ?_) fun _ _ _ => rfl
    simp
  · refine tally_congr (fun l _ => ?_) fun _ _ _ => rfl
    simp

/-- Of an owner's point of view the sums of a refund are those of the reference. -/
theorem ledgerSum_owner {address : Address} {kind : Kind}
    (h : ∀ r ∈ db.creditLedger, r.txRef = some (checkoutRef c) → r.address = address) :
    db.ledgerSum address (checkoutRef c) kind = db.refSum c kind := by
  refine tally_congr (fun r hr => ?_) fun _ _ _ => rfl
  refine decide_eq_decide.mpr ⟨fun hrow => hrow.2, fun hrow => ⟨h r hr hrow.1, hrow⟩⟩

theorem refSum_split {a : Address} {k kind : Kind} {earned paid : ℚ} {c' : ℕ} (he : 0 ≤ earned)
    (hp : 0 ≤ paid)
    (hl : db'.creditLedger = db.creditLedger ++
      Db.ledgerSplit a k earned paid (some (checkoutRef c))) :
    db'.refSum c' kind = db.refSum c' kind + if c = c' ∧ k = kind then earned + paid else 0 := by
  unfold Db.refSum
  rw [hl, tally_append, tally_ledgerSplit (fun _ h => h) _ he hp]
  by_cases hc : c = c' ∧ k = kind
  · obtain ⟨rfl, rfl⟩ := hc
    simp
  · have hne : ¬ (checkoutRef c = checkoutRef c' ∧ k = kind) :=
      fun h => hc ⟨checkoutRef_injective h.1, h.2⟩
    simp [hne, hc]

end Sums

/-! ### Invariants -/

/-- Whose the rows are, and that new ids are new. -/
structure Tidy (db : Db) : Prop where
  priced : ∀ l ∈ db.outbox, 0 ≤ l.unitPriceCredits
  amounts : ∀ r ∈ db.creditLedger, 0 ≤ r.amount
  checkoutIds : ∀ c ∈ db.checkouts, c.id < db.nextCheckout
  lineIds : ∀ l ∈ db.outbox, l.id < db.nextLine
  lines : ∀ l ∈ db.outbox, ∀ l' ∈ db.outbox, l.id = l'.id → l.checkoutId = l'.checkoutId
  owners : ∀ c ∈ db.checkouts, ∀ c' ∈ db.checkouts, c.id = c'.id → c.address = c'.address
  refs : ∀ r ∈ db.creditLedger, ∀ c, r.txRef = some (checkoutRef c) → db.Owns c r.address
  spendKeys : ∀ k, (db.spendIdempotency k).isSome → ∃ c ∈ db.checkouts, c.idempotencyKey = k

/-- What a checkout spent covers its lines, and what is refunded of it was not delivered. -/
structure Bounded (db : Db) : Prop where
  backed : ∀ c, db.linesTotal c ≤ db.spentBy c
  within : ∀ c, db.refundedTo c + db.linePrices c true ≤ db.spentBy c
  /-- Once something is refunded of a checkout with a delivered line, its compensation is done. -/
  settled : ∀ c, db.refundedTo c = 0 ∨ (db.refundIdempotency (reversalKey c)).isSome ∨
    db.linePrices c true = 0

section Db

variable {db db' : Db} {c : ℕ} {address : Address}

theorem Tidy.nonneg (h : Tidy db) (c : ℕ) (b : Bool) : 0 ≤ db.linePrices c b :=
  tally_nonneg h.priced

theorem Tidy.owner (h : Tidy db) (ho : db.Owns c address) {address' : Address}
    (ho' : db.Owns c address') : address' = address := by
  obtain ⟨k, hk, hid, rfl⟩ := ho
  obtain ⟨k', hk', hid', rfl⟩ := ho'
  exact h.owners k' hk' k hk (hid'.trans hid.symm)

theorem Tidy.confirmed_le (h : Tidy db) (c : ℕ) : db.linePrices c true ≤ db.linesTotal c := by
  rw [linesTotal_eq]
  exact le_add_of_nonneg_right (h.nonneg c false)

/-- A wallet moves under the reference of a checkout of its own. -/
theorem Tidy.post {u : UserCredits} {earned paid : ℚ} {spends refunds : IdempotencyTable}
    (h : Tidy db) (ho : db.Owns c address) (k : Kind)
    (hkeys : ∀ key, (spends key).isSome → ∃ c ∈ db.checkouts, c.idempotencyKey = key) :
    Tidy { (db.setCredits address u).splitInsert address k earned paid (some (checkoutRef c)) with
      spendIdempotency := spends
      refundIdempotency := refunds } := by
  refine ⟨h.priced, ?_, h.checkoutIds, h.lineIds, h.lines, h.owners, ?_, hkeys⟩
  · intro r hr
    rcases List.mem_append.mp hr with hr | hr
    · exact h.amounts r hr
    · exact (of_decide_eq_true (List.mem_filter.mp hr).2).le
  · intro r hr c' href
    rcases List.mem_append.mp hr with hr | hr
    · exact h.refs r hr c' href
    · have hrow := (List.mem_filter.mp hr).1
      simp only [List.mem_cons, List.not_mem_nil, or_false] at hrow
      rcases hrow with rfl | rfl
      · obtain rfl := checkoutRef_injective (Option.some.inj href)
        exact ho
      · obtain rfl := checkoutRef_injective (Option.some.inj href)
        exact ho

end Db

/-! ### Steps of the database -/

/-- What the workers rely on from one step to the next. Of the checkouts in `live` no line is
delivered. -/
structure Carries (live : ℕ → Prop) (db db' : Db) : Prop where
  tidy : Tidy db'
  bounded : Bounded db'
  owns : ∀ c address, db.Owns c address → db'.Owns c address
  lines : ∀ l ∈ db.outbox, ∃ l' ∈ db'.outbox, l'.id = l.id ∧ l'.checkoutId = l.checkoutId
  undelivered : ∀ c, live c → db.linePrices c false ≤ db'.linePrices c false

section Steps

variable {lower : Text → Text} {db db' db'' : Db} {c : ℕ} {address : Address} {live : ℕ → Prop}

theorem Carries.refl (ht : Tidy db) (hb : Bounded db) : Carries live db db :=
  ⟨ht, hb, fun _ _ h => h, fun l hl => ⟨l, hl, rfl, rfl⟩, fun _ _ => le_rfl⟩

theorem Carries.trans (h : Carries live db db') (h' : Carries live db' db'') :
    Carries live db db'' := by
  refine ⟨h'.tidy, h'.bounded, fun c a ho => h'.owns c a (h.owns c a ho), ?_,
    fun c hc => (h.undelivered c hc).trans (h'.undelivered c hc)⟩
  intro l hl
  obtain ⟨l', hl', hid, hco⟩ := h.lines l hl
  obtain ⟨l'', hl'', hid', hco'⟩ := h'.lines l' hl'
  exact ⟨l'', hl'', hid'.trans hid, hco'.trans hco⟩

theorem Bounded.congr (h : Bounded db) (hl : db'.creditLedger = db.creditLedger)
    (ho : db'.outbox = db.outbox) (hr : db'.refundIdempotency = db.refundIdempotency) :
    Bounded db' := by
  obtain ⟨hbacked, hwithin, hsettled⟩ := h
  constructor <;>
    simp only [Db.linesTotal, Db.linePrices, Db.spentBy, Db.refundedTo, Db.refSum, hl, ho, hr] at *
  · exact hbacked
  · exact hwithin
  · exact hsettled

/-! #### Refunds -/

theorem recordKey_mono {table : IdempotencyTable} {k : Text} (h : (table k).isSome)
    (key : Option Text) (row : IdempotencyRow) : (recordKey table key row k).isSome := by
  cases key with
  | none => exact h
  | some k' =>
    by_cases hk : k = k'
    · subst hk
      simp [recordKey]
    · simpa [recordKey, Function.update_of_ne hk] using h

/-- A refund of a checkout to its owner. -/
theorem refundInTx_checkout {amount key : Text} {o : GrantOutcome} (ht : Tidy db)
    (ho : db.Owns c address)
    (h : db.refundInTx lower address amount (checkoutRef c) (some key) = .ok (o, db')) :
    db' = db ∨ ∃ applied row, db.refundIdempotency key = none ∧ applied ≤ numeric amount ∧
      applied ≤ max 0 (db.spentBy c - db.refundedTo c) ∧ Tidy db' ∧
      (∀ c', db'.spentBy c' = db.spentBy c') ∧
      (∀ c', db'.refundedTo c' = db.refundedTo c' + if c = c' then applied else 0) ∧
      db'.outbox = db.outbox ∧ db'.checkouts = db.checkouts ∧
      db'.refundIdempotency = recordKey db.refundIdempotency (some key) row := by
  rcases refundInTx_spec h with ⟨rfl, -⟩ | ⟨u, earned, paid, row, hkey, he, hp, hsum, -, -, hdb⟩
  · exact Or.inl rfl
  have howner : ∀ kind, db.ledgerSum address (checkoutRef c) kind = db.refSum c kind :=
    fun kind => ledgerSum_owner fun r hr href => ht.owner ho (ht.refs r hr c href)
  have hledger : db'.creditLedger = db.creditLedger ++
      Db.ledgerSplit address .refund earned paid (some (checkoutRef c)) := by
    rw [hdb]
    rfl
  have hsums : ∀ c' kind, db'.refSum c' kind =
      db.refSum c' kind + if c = c' ∧ .refund = kind then earned + paid else 0 :=
    fun _ _ => refSum_split he hp hledger
  have happlied : earned + paid ≤ numeric amount ∧
      earned + paid ≤ max 0 (db.spentBy c - db.refundedTo c) := by
    rw [hsum, Db.refundApplied, howner, howner]
    exact ⟨min_le_left _ _, min_le_right _ _⟩
  refine Or.inr ⟨earned + paid, row, hkey, happlied.1, happlied.2, ?_, fun c' => ?_, fun c' => ?_, ?_⟩
  · rw [hdb]
    exact ht.post ho .refund ht.spendKeys
  · simpa [Db.spentBy] using hsums c' .spend
  · simpa [Db.refundedTo] using hsums c' .refund
  · rw [hdb]
    exact ⟨rfl, rfl, rfl⟩

/-- Either nothing is delivered, or the refund is the one compensation and what it refunds is not
delivered. -/
theorem Carries.refundInTx {amount key : Text} {o : GrantOutcome} (ht : Tidy db) (hb : Bounded db)
    (ho : db.Owns c address)
    (hcase : db.linePrices c true = 0 ∨
      key = reversalKey c ∧ numeric amount ≤ db.linePrices c false)
    (h : db.refundInTx lower address amount (checkoutRef c) (some key) = .ok (o, db')) :
    Carries live db db' := by
  rcases refundInTx_checkout ht ho h with rfl |
    ⟨applied, row, hunused, hamount, hleft, htidy, hspent, hrefunded, hout, hcheckouts, hkeys⟩
  · exact Carries.refl ht hb
  have htotal : ∀ c', db'.linesTotal c' = db.linesTotal c' := fun c' => by
    rw [Db.linesTotal, hout]
    rfl
  have hprices : ∀ c' b, db'.linePrices c' b = db.linePrices c' b := fun c' b => by
    rw [Db.linePrices, hout]
    rfl
  -- the clamp alone is enough where nothing is delivered
  have hclamped : db.linePrices c true = 0 →
      db.refundedTo c + applied + db.linePrices c true ≤ db.spentBy c := by
    intro hzero
    have hwithin := hb.within c
    rw [max_eq_right (by linarith)] at hleft
    linarith
  refine ⟨htidy, ⟨?_, ?_, ?_⟩, ?_, ?_, ?_⟩
  · intro c'
    rw [htotal, hspent]
    exact hb.backed c'
  · intro c'
    rw [hrefunded, hprices, hspent]
    by_cases hc : c = c'
    · subst hc
      rw [if_pos rfl]
      rcases hcase with hzero | ⟨rfl, hundelivered⟩
      · exact hclamped hzero
      · rcases hb.settled c with hnone | hdone | hzero
        · linarith [hb.backed c, linesTotal_eq db c]
        · rw [hunused] at hdone
          cases hdone
        · exact hclamped hzero
    · rw [if_neg hc, add_zero]
      exact hb.within c'
  · intro c'
    rw [hrefunded, hprices, hkeys]
    by_cases hc : c = c'
    · subst hc
      rcases hcase with hzero | ⟨rfl, -⟩
      · exact Or.inr (Or.inr hzero)
      · exact Or.inr (Or.inl (by simp [recordKey]))
    · rw [if_neg hc, add_zero]
      exact (hb.settled c').imp_right (Or.imp_left fun hdone => recordKey_mono hdone _ _)
  · intro c' a hown
    rw [Db.Owns, hcheckouts]
    exact hown
  · intro l hl
    exact ⟨l, hout ▸ hl, rfl, rfl⟩
  · intro c' _
    exact (hprices c' false).ge

/-! #### Lines and statuses -/

theorem owns_setStatus {id : ℕ} {st st' : CheckoutStatus} :
    (db.setStatus id st st').Owns c address ↔ db.Owns c address := by
  unfold Db.Owns Db.setStatus
  simp only [List.mem_map, exists_exists_and_eq_and]
  refine exists_congr fun k => and_congr_right fun _ => ?_
  split <;> rfl

theorem Carries.setStatus {id : ℕ} {st st' : CheckoutStatus} (ht : Tidy db) (hb : Bounded db) :
    Carries live db (db.setStatus id st st') := by
  -- a checkout keeps its id, its owner and its key
  have hkept : ∀ k ∈ (db.setStatus id st st').checkouts, ∃ k₀ ∈ db.checkouts, k.id = k₀.id ∧
      k.address = k₀.address ∧ k.idempotencyKey = k₀.idempotencyKey := by
    intro k hk
    obtain ⟨k₀, hk₀, rfl⟩ := List.mem_map.mp hk
    refine ⟨k₀, hk₀, ?_⟩
    split <;> exact ⟨rfl, rfl, rfl⟩
  refine ⟨⟨ht.priced, ht.amounts, ?_, ht.lineIds, ht.lines, ?_, ?_, ?_⟩,
    hb.congr rfl rfl rfl, fun c a ho => owns_setStatus.mpr ho, fun l hl => ⟨l, hl, rfl, rfl⟩,
    fun _ _ => le_rfl⟩
  · intro k hk
    obtain ⟨k₀, hk₀, hid, -⟩ := hkept k hk
    rw [hid]
    exact ht.checkoutIds k₀ hk₀
  · intro k hk k' hk' hid
    obtain ⟨k₀, hk₀, hid₀, haddr, -⟩ := hkept k hk
    obtain ⟨k₁, hk₁, hid₁, haddr', -⟩ := hkept k' hk'
    rw [haddr, haddr']
    exact ht.owners k₀ hk₀ k₁ hk₁ (hid₀.symm.trans (hid.trans hid₁))
  · exact fun r hr c href => owns_setStatus.mpr (ht.refs r hr c href)
  · intro k hk
    obtain ⟨c, hc, hkey⟩ := ht.spendKeys k hk
    refine ⟨_, List.mem_map.mpr ⟨c, hc, rfl⟩, ?_⟩
    split <;> exact hkey

/-- Only what happens to a line changes. -/
def OutboxLine.Kept (f : OutboxLine → OutboxLine) : Prop :=
  ∀ l, (f l).id = l.id ∧ (f l).checkoutId = l.checkoutId ∧
    (f l).unitPriceCredits = l.unitPriceCredits

section Lines

variable {id : ℕ} {f : OutboxLine → OutboxLine}

theorem mem_updateLine (hf : OutboxLine.Kept f) {l' : OutboxLine}
    (h : l' ∈ (db.updateLine id f).outbox) : ∃ l ∈ db.outbox, l'.id = l.id ∧
      l'.checkoutId = l.checkoutId ∧ l'.unitPriceCredits = l.unitPriceCredits := by
  obtain ⟨l, hl, rfl⟩ := List.mem_map.mp h
  refine ⟨l, hl, ?_⟩
  split
  · exact hf l
  · exact ⟨rfl, rfl, rfl⟩

theorem Tidy.updateLine (h : Tidy db) (hf : OutboxLine.Kept f) : Tidy (db.updateLine id f) := by
  refine ⟨?_, h.amounts, h.checkoutIds, ?_, ?_, h.owners, h.refs, h.spendKeys⟩
  · intro l' hl'
    obtain ⟨l, hl, -, -, hprice⟩ := mem_updateLine hf hl'
    exact hprice ▸ h.priced l hl
  · intro l' hl'
    obtain ⟨l, hl, hid, -⟩ := mem_updateLine hf hl'
    exact hid ▸ h.lineIds l hl
  · intro l' hl' m' hm' hid
    obtain ⟨l, hl, hl₁, hl₂, -⟩ := mem_updateLine hf hl'
    obtain ⟨m, hm, hm₁, hm₂, -⟩ := mem_updateLine hf hm'
    rw [hl₂, hm₂]
    exact h.lines l hl m hm (hl₁.symm.trans (hid.trans hm₁))

theorem tally_updateLine (hf : OutboxLine.Kept f) (p : OutboxLine → Bool) :
    tally p OutboxLine.unitPriceCredits (db.updateLine id f).outbox =
      tally (fun l => p (if l.id = id then f l else l)) OutboxLine.unitPriceCredits db.outbox := by
  refine (tally_map _).trans (tally_congr (fun _ _ => rfl) fun l _ _ => ?_)
  show OutboxLine.unitPriceCredits (if l.id = id then f l else l) = l.unitPriceCredits
  split
  · exact (hf l).2.2
  · rfl

theorem linesTotal_updateLine (hf : OutboxLine.Kept f) (c : ℕ) :
    (db.updateLine id f).linesTotal c = db.linesTotal c := by
  refine (tally_updateLine hf _).trans (tally_congr (fun l _ => ?_) fun _ _ _ => rfl)
  split
  · rw [(hf l).2.1]
  · rfl

/-- A line that is not confirmed may lose its chance, but no other is delivered. -/
theorem Carries.updateLine (ht : Tidy db) (hb : Bounded db) (hf : OutboxLine.Kept f)
    (hst : ∀ l, (f l).status = .confirmed → l.status = .confirmed) :
    Carries live db (db.updateLine id f) := by
  have hle : ∀ c, (db.updateLine id f).linePrices c true ≤ db.linePrices c true := by
    intro c
    refine (tally_updateLine hf _).trans_le (tally_mono ht.priced fun l _ hl => ?_)
    simp only [decide_eq_true_eq] at hl ⊢
    split at hl
    · exact ⟨(hf l).2.1 ▸ hl.1, hst l hl.2⟩
    · exact hl
  have htidy : Tidy (db.updateLine id f) := ht.updateLine hf
  refine ⟨htidy, ⟨?_, ?_, ?_⟩, fun c a ho => ho, ?_, ?_⟩
  · intro c
    rw [linesTotal_updateLine hf]
    exact hb.backed c
  · intro c
    exact (add_le_add_right (hle c) _).trans (hb.within c)
  · intro c
    refine (hb.settled c).imp_right (Or.imp_right fun hzero => ?_)
    exact le_antisymm (hzero ▸ hle c) (htidy.nonneg c true)
  · intro l hl
    refine ⟨_, List.mem_map.mpr ⟨l, hl, rfl⟩, ?_⟩
    split
    · exact ⟨(hf l).1, (hf l).2.1⟩
    · exact ⟨rfl, rfl⟩
  · intro c _
    have hsum : (db.updateLine id f).linesTotal c = db.linesTotal c := linesTotal_updateLine hf c
    rw [linesTotal_eq, linesTotal_eq] at hsum
    linarith [hle c]

/-- A line of a checkout of which nothing is refunded is delivered. -/
theorem Carries.confirmLine {row : OutboxRow} (ht : Tidy db) (hb : Bounded db)
    (hline : ∃ l ∈ db.outbox, l.id = row.id ∧ l.checkoutId = row.checkoutId)
    (hnone : db.refundedTo row.checkoutId = 0) :
    Carries (· ≠ row.checkoutId) db (db.confirmLine row) := by
  have hf : OutboxLine.Kept fun l => { l with status := .confirmed } := fun _ => ⟨rfl, rfl, rfl⟩
  have htidy : Tidy (db.updateLine row.id fun l => { l with status := .confirmed }) :=
    ht.updateLine hf
  have hother : ∀ c, c ≠ row.checkoutId → ∀ b,
      (db.updateLine row.id fun l => { l with status := .confirmed }).linePrices c b =
        db.linePrices c b := by
    intro c hc b
    refine (tally_updateLine hf _).trans (tally_congr (fun l hl => ?_) fun _ _ _ => rfl)
    split
    · rename_i hid
      obtain ⟨m, hm, hmid, hmco⟩ := hline
      have hco : l.checkoutId ≠ c := by
        rw [ht.lines l hl m hm (hid.trans hmid.symm), hmco]
        exact hc.symm
      simp [hco]
    · rfl
  have hstep : Carries (· ≠ row.checkoutId) db
      (db.updateLine row.id fun l => { l with status := .confirmed }) := by
    refine ⟨htidy, ⟨?_, ?_, ?_⟩, fun c a ho => ho, ?_, fun c hc => (hother c hc false).ge⟩
    · intro c
      rw [linesTotal_updateLine hf]
      exact hb.backed c
    · intro c
      by_cases hc : c = row.checkoutId
      · subst hc
        calc db.refundedTo row.checkoutId + _ = _ := by rw [hnone, zero_add]
          _ ≤ _ := htidy.confirmed_le row.checkoutId
          _ = db.linesTotal row.checkoutId := linesTotal_updateLine hf _
          _ ≤ db.spentBy row.checkoutId := hb.backed _
      · rw [hother c hc]
        exact hb.within c
    · intro c
      by_cases hc : c = row.checkoutId
      · subst hc
        exact Or.inl hnone
      · rw [hother c hc]
        exact hb.settled c
    · intro l hl
      refine ⟨_, List.mem_map.mpr ⟨l, hl, rfl⟩, ?_⟩
      split <;> exact ⟨rfl, rfl⟩
  unfold Db.confirmLine
  dsimp only
  split
  · exact hstep
  · exact hstep.trans (Carries.setStatus hstep.tidy hstep.bounded)

theorem Carries.failAndFreeze {row : OutboxRow} (ht : Tidy db) (hb : Bounded db) :
    Carries live db (db.failAndFreeze row) := by
  have hfail : Carries live db (db.updateLine row.id fun l =>
      { l with status := .failed, attempts := l.attempts + 1 }) :=
    Carries.updateLine ht hb (fun _ => ⟨rfl, rfl, rfl⟩) fun _ h => nomatch h
  exact hfail.trans (Carries.setStatus hfail.tidy hfail.bounded)

end Lines

/-! #### New checkouts -/

theorem Carries.addCheckout {key : Text} {total : ℚ} {st : CheckoutStatus} (ht : Tidy db)
    (hb : Bounded db) : Carries live db (db.addCheckout address key total st) := by
  have howns : ∀ c a, db.Owns c a → (db.addCheckout address key total st).Owns c a := by
    rintro c a ⟨k, hk, hkey⟩
    exact ⟨k, List.mem_append_left _ hk, hkey⟩
  refine ⟨⟨ht.priced, ht.amounts, ?_, ht.lineIds, ht.lines, ?_,
    fun r hr c href => howns c _ (ht.refs r hr c href), ?_⟩, hb.congr rfl rfl rfl, howns,
    fun l hl => ⟨l, hl, rfl, rfl⟩, fun _ _ => le_rfl⟩
  · intro k hk
    rcases List.mem_append.mp hk with hk | hk
    · exact Nat.lt_succ_of_lt (ht.checkoutIds k hk)
    · obtain rfl := List.mem_singleton.mp hk
      exact Nat.lt_succ_self _
  · intro k hk k' hk' hid
    rcases List.mem_append.mp hk with hk | hk <;> rcases List.mem_append.mp hk' with hk' | hk'
    · exact ht.owners k hk k' hk' hid
    · obtain rfl := List.mem_singleton.mp hk'
      exact absurd hid (ht.checkoutIds k hk).ne
    · obtain rfl := List.mem_singleton.mp hk
      exact absurd hid.symm (ht.checkoutIds k' hk').ne
    · rw [List.mem_singleton.mp hk, List.mem_singleton.mp hk']
  · intro k hk
    obtain ⟨c, hc, hkey⟩ := ht.spendKeys k hk
    exact ⟨c, List.mem_append_left _ hc, hkey⟩

/-- What a customer may order: the carts hold positive quantities, and no price is negative. -/
def RepricedLine.Priced (l : RepricedLine) : Prop := 0 ≤ l.unitPriceCredits ∧ 0 < l.qty

instance (l : RepricedLine) : Decidable l.Priced := instDecidableAnd

section Lines

variable {first : ℕ} {repriced : List RepricedLine}

theorem mem_outboxLines {l : OutboxLine} (h : l ∈ outboxLines c first repriced) :
    l.checkoutId = c ∧ first ≤ l.id ∧ l.id < first + (outboxLines c first repriced).length ∧
      l.status = .pending ∧ ∃ r ∈ repriced, l.unitPriceCredits = r.unitPriceCredits := by
  obtain ⟨i, hi, rfl⟩ := List.mem_mapIdx.mp h
  obtain ⟨r, hr, hprice⟩ := List.mem_flatMap.mp (List.getElem_mem hi)
  refine ⟨rfl, Nat.le_add_right _ _, ?_, rfl, r, hr, List.eq_of_mem_replicate hprice⟩
  rw [outboxLines, List.length_mapIdx]
  exact Nat.add_lt_add_left hi _

theorem outboxLines_prices : (outboxLines c first repriced).map OutboxLine.unitPriceCredits =
    repriced.flatMap fun l => List.replicate l.qty.toNat l.unitPriceCredits := by
  refine List.ext_getElem (by simp [outboxLines]) fun i _ _ => ?_
  simp [outboxLines]

/-- The units are priced as the order is. -/
theorem units_sum (h : ∀ r ∈ repriced, r.Priced) :
    (repriced.flatMap fun l => List.replicate l.qty.toNat l.unitPriceCredits).sum =
      orderTotal repriced := by
  induction repriced with
  | nil => rfl
  | cons r repriced ih =>
    have hqty : ((r.qty.toNat : ℕ) : ℚ) = (r.qty : ℚ) := by
      have hint : ((r.qty.toNat : ℕ) : ℤ) = r.qty := Int.toNat_of_nonneg (h r List.mem_cons_self).2.le
      exact_mod_cast congrArg (Int.cast : ℤ → ℚ) hint
    rw [List.flatMap_cons, List.sum_append, List.sum_replicate, nsmul_eq_mul, hqty, mul_comm,
      ih (fun x hx => h x (List.mem_cons_of_mem _ hx))]
    rfl

theorem Tidy.addLines (h : Tidy db) (hp : ∀ r ∈ repriced, r.Priced) :
    Tidy (db.addLines c repriced) := by
  have hnew : ∀ l ∈ outboxLines c db.nextLine repriced, l.checkoutId = c ∧ db.nextLine ≤ l.id :=
    fun l hl => ⟨(mem_outboxLines hl).1, (mem_outboxLines hl).2.1⟩
  refine ⟨?_, h.amounts, h.checkoutIds, ?_, ?_, h.owners, h.refs, h.spendKeys⟩
  · intro l hl
    rcases List.mem_append.mp hl with hl | hl
    · exact h.priced l hl
    · obtain ⟨-, -, -, -, r, hr, hprice⟩ := mem_outboxLines hl
      exact hprice ▸ (hp r hr).1
  · intro l hl
    rcases List.mem_append.mp hl with hl | hl
    · exact (h.lineIds l hl).trans_le (Nat.le_add_right _ _)
    · exact (mem_outboxLines hl).2.2.1
  · intro l hl l' hl' hid
    rcases List.mem_append.mp hl with hl | hl <;> rcases List.mem_append.mp hl' with hl' | hl'
    · exact h.lines l hl l' hl' hid
    · exact absurd hid ((h.lineIds l hl).trans_le (hnew l' hl').2).ne
    · exact absurd hid.symm ((h.lineIds l' hl').trans_le (hnew l hl).2).ne
    · rw [(hnew l hl).1, (hnew l' hl').1]

theorem linesTotal_addLines (hp : ∀ r ∈ repriced, r.Priced) (c' : ℕ) :
    (db.addLines c repriced).linesTotal c' =
      db.linesTotal c' + if c = c' then orderTotal repriced else 0 := by
  refine tally_append.trans (congrArg (db.linesTotal c' + ·) ?_)
  split
  · rename_i hc
    have hall : (outboxLines c db.nextLine repriced).filter (fun l => l.checkoutId = c') =
        outboxLines c db.nextLine repriced :=
      List.filter_eq_self.mpr fun l hl => decide_eq_true ((mem_outboxLines hl).1.trans hc)
    rw [tally, hall, outboxLines_prices, units_sum hp]
  · rename_i hc
    refine tally_eq_zero fun l hl => decide_eq_false fun hl' => ?_
    exact hc ((mem_outboxLines hl).1.symm.trans hl')

theorem linePrices_addLines (hp : ∀ r ∈ repriced, r.Priced) (c' : ℕ) :
    (db.addLines c repriced).linePrices c' true = db.linePrices c' true ∧
      db.linePrices c' false ≤ (db.addLines c repriced).linePrices c' false := by
  constructor
  · refine tally_append.trans ((congrArg (db.linePrices c' true + ·) ?_).trans (add_zero _))
    refine tally_eq_zero fun l hl => ?_
    simp [(mem_outboxLines hl).2.2.2.1]
  · refine (le_add_of_nonneg_right ?_).trans_eq tally_append.symm
    refine tally_nonneg fun l hl => ?_
    obtain ⟨-, -, -, -, r, hr, hprice⟩ := mem_outboxLines hl
    exact hprice ▸ (hp r hr).1

theorem orderTotal_nonneg (hp : ∀ r ∈ repriced, r.Priced) : 0 ≤ orderTotal repriced := by
  refine List.sum_nonneg fun x hx => ?_
  obtain ⟨r, hr, rfl⟩ := List.mem_map.mp hx
  exact mul_nonneg (hp r hr).1 (Int.cast_nonneg (hp r hr).2.le)

end Lines

/-- The spend of a checkout by its owner, under a key that is not used up. -/
theorem spendInTx_checkout {amount key : Text} {o : GrantOutcome} (ht : Tidy db)
    (ho : db.Owns c address) (hkey : ∃ k ∈ db.checkouts, k.idempotencyKey = key)
    (hunused : db.spendIdempotency key = none)
    (h : db.spendInTx lower address amount (checkoutRef c) (some key) = .ok (o, db')) :
    Tidy db' ∧ (∀ c' kind, db'.refSum c' kind =
        db.refSum c' kind + if c = c' ∧ .spend = kind then numeric amount else 0) ∧
      ∃ credits ledger keys, db' = { db with
        userCredits := credits, creditLedger := ledger, spendIdempotency := keys } := by
  rcases spendInTx_spec h with ⟨rfl, hzero | hused⟩ | ⟨u, earned, paid, row, he, hp, hsum, -, -, hdb⟩
  · exact ⟨ht, fun c' kind => by simp [hzero], _, _, _, rfl⟩
  · rw [Option.bind_some, hunused] at hused
    cases hused
  · refine ⟨?_, fun c' kind => ?_, _, _, _, hdb⟩
    · rw [hdb]
      refine ht.post ho .spend fun k hk => ?_
      by_cases hk' : k = key
      · exact hk' ▸ hkey
      · rw [recordKey, Function.update_of_ne hk'] at hk
        exact ht.spendKeys k hk
    · have hledger : db'.creditLedger = db.creditLedger ++
          Db.ledgerSplit address .spend earned paid (some (checkoutRef c)) := by
        rw [hdb]
        rfl
      rw [refSum_split he hp hledger, hsum]

/-- An order is paid for as its units are priced. -/
theorem Carries.order {key totalText : Text} {total : ℚ} {st : CheckoutStatus} {o : GrantOutcome}
    {repriced : List RepricedLine} (ht : Tidy db) (hb : Bounded db)
    (hp : ∀ r ∈ repriced, r.Priced) (hkey : ∀ k ∈ db.checkouts, k.idempotencyKey ≠ key)
    (hnum : numeric totalText = orderTotal repriced)
    (h : (db.addCheckout address key total st).spendInTx lower address totalText
      (checkoutRef db.nextCheckout) (some key) = .ok (o, db')) :
    Carries live db (db'.addLines db.nextCheckout repriced) := by
  have hadd : Carries live db (db.addCheckout address key total st) := Carries.addCheckout ht hb
  have hunused : db.spendIdempotency key = none := by
    by_contra hused
    obtain ⟨k, hk, heq⟩ := ht.spendKeys key (Option.isSome_iff_ne_none.mpr hused)
    exact hkey k hk heq
  have hlast : (⟨db.nextCheckout, key, address, total, st⟩ : Checkout) ∈
      (db.addCheckout address key total st).checkouts := List.mem_append_right _ List.mem_cons_self
  obtain ⟨htidy, hsums, credits, ledger, keys, hdb⟩ := spendInTx_checkout hadd.tidy
    ⟨_, hlast, rfl, rfl⟩ ⟨_, hlast, rfl⟩ hunused h
  have hout : db'.outbox = db.outbox := by rw [hdb]; rfl
  have hprices : ∀ c b, db'.linePrices c b = db.linePrices c b := fun c b => by
    rw [Db.linePrices, hout]
    rfl
  have hspent : ∀ c, (db'.addLines db.nextCheckout repriced).spentBy c =
      db.spentBy c + if db.nextCheckout = c then orderTotal repriced else 0 := by
    intro c
    have hsum := hsums c .spend
    simp only [and_true, hnum] at hsum
    exact hsum
  have hrefunded : ∀ c, (db'.addLines db.nextCheckout repriced).refundedTo c = db.refundedTo c := by
    intro c
    have hsum := hsums c .refund
    simp only [reduceCtorEq, and_false, if_false, add_zero] at hsum
    exact hsum
  refine ⟨htidy.addLines hp, ⟨?_, ?_, ?_⟩, ?_, ?_, ?_⟩
  · intro c
    have htotal : db'.linesTotal c = db.linesTotal c := by
      rw [Db.linesTotal, hout]
      rfl
    rw [linesTotal_addLines hp, hspent, htotal]
    exact add_le_add_left (hb.backed c) _
  · intro c
    rw [hrefunded, hspent, (linePrices_addLines hp c).1, hprices]
    refine (hb.within c).trans (le_add_of_nonneg_right ?_)
    split
    · exact orderTotal_nonneg hp
    · exact le_rfl
  · intro c
    rw [hrefunded, (linePrices_addLines hp c).1, hprices, hdb]
    exact hb.settled c
  · intro c a ho
    have hmore := hadd.owns c a ho
    rw [hdb]
    exact hmore
  · intro l hl
    exact ⟨l, List.mem_append_left _ (hout ▸ hl), rfl, rfl⟩
  · intro c _
    exact (hprices c false).ge.trans (linePrices_addLines hp c).2

theorem Carries.runCheckout {key totalText : Text} {repriced : List RepricedLine} (ht : Tidy db)
    (hb : Bounded db) (hp : ∀ r ∈ repriced, r.Priced)
    (hnum : numeric totalText = orderTotal repriced) :
    Carries live db (db.runCheckout lower address key repriced totalText).2 := by
  unfold Db.runCheckout
  split
  · exact Carries.refl ht hb
  split
  · split <;> exact Carries.refl ht hb
  rename_i hfind
  dsimp only
  split
  · exact Carries.addCheckout ht hb
  split
  · exact Carries.addCheckout ht hb
  · unfold transact
    split
    · rename_i heq
      obtain ⟨⟨o, db₁⟩, hspend, hmap⟩ := map_ok.mp heq
      obtain ⟨-, rfl⟩ := Prod.mk.inj hmap
      refine Carries.order ht hb hp (fun k hk => ?_) hnum hspend
      simpa using List.find?_eq_none.mp hfind k hk
    · exact Carries.refl ht hb

theorem Carries.grant {amount : Text} {kind : Kind} {key : Option Text} (ht : Tidy db)
    (hb : Bounded db) : Carries live db (adminGrantCredits lower db address amount kind key).2 := by
  unfold adminGrantCredits transact
  split
  · rename_i heq
    rcases grantInTx_spec heq with rfl | ⟨-, u, row, hpos, -, -, hdb⟩
    · exact Carries.refl ht hb
    · -- a grant has no reference
      rw [hdb]
      refine ⟨⟨ht.priced, ?_, ht.checkoutIds, ht.lineIds, ht.lines, ht.owners, ?_, ht.spendKeys⟩,
        ?_, fun _ _ ho => ho, fun l hl => ⟨l, hl, rfl, rfl⟩, fun _ _ => le_rfl⟩
      · intro r hr
        rcases List.mem_append.mp hr with hr | hr
        · exact ht.amounts r hr
        · obtain rfl := List.mem_singleton.mp hr
          exact hpos.le
      · intro r hr c href
        rcases List.mem_append.mp hr with hr | hr
        · exact ht.refs r hr c href
        · obtain rfl := List.mem_singleton.mp hr
          cases href
      · have hsums : ∀ c k, Db.refSum { db.setCredits address u with
            creditLedger := db.creditLedger ++ [⟨address, kind, numeric amount, none, .paid⟩]
            grantIdempotency := recordKey db.grantIdempotency key row } c k = db.refSum c k := by
          intro c k
          refine tally_append.trans ?_
          simp [tally_cons, Db.refSum]
        refine ⟨fun c => ?_, fun c => ?_, fun c => ?_⟩
        · rw [Db.spentBy, hsums]
          exact hb.backed c
        · rw [Db.spentBy, Db.refundedTo, hsums, hsums]
          exact hb.within c
        · rw [Db.refundedTo, hsums]
          exact hb.settled c
  · exact Carries.refl ht hb

end Steps

/-! ### The system -/

def Flying (db : Db) (row : OutboxRow) : Prop :=
  (∃ l ∈ db.outbox, l.id = row.id ∧ l.checkoutId = row.checkoutId) ∧
    db.Owns row.checkoutId row.buyer

/-- What a compensation has read is still not delivered. -/
def Compensating (db : Db) (k : Compensation) : Prop :=
  db.Owns k.checkoutId k.buyer ∧
    ∀ v b, k.stage = .read v b → v ≤ db.linePrices k.checkoutId false

structure Sound (s : System) : Prop where
  tidy : Tidy s.db
  bounded : Bounded s.db
  flying : ∀ row ∈ s.flights, Flying s.db row
  compensating : ∀ k ∈ s.compensations, Compensating s.db k

def CompensationStage.hasRead : CompensationStage → Bool
  | .read _ _ => true
  | .due | .closing _ => false

/-- A refund of the checkout is paid, or about to be paid. -/
def System.refunding (s : System) (checkoutId : ℕ) : Bool :=
  decide (s.db.refundedTo checkoutId ≠ 0) ||
    s.compensations.any fun k => k.checkoutId = checkoutId && k.stage.hasRead

section System

variable {lower : Text → Text} {maxAttempts : ℤ} {s s' : System} {db' : Db} {live : ℕ → Prop}

theorem Sound.carry (h : Sound s) (hc : Carries live s.db db')
    (hlive : ∀ k ∈ s.compensations, k.stage.hasRead = true → live k.checkoutId) :
    Sound { s with db := db' } := by
  refine ⟨hc.tidy, hc.bounded, ?_, ?_⟩
  · intro row hrow
    obtain ⟨⟨l, hl, hid, hco⟩, ho⟩ := h.flying row hrow
    obtain ⟨l', hl', hid', hco'⟩ := hc.lines l hl
    exact ⟨⟨l', hl', hid'.trans hid, hco'.trans hco⟩, hc.owns _ _ ho⟩
  · intro k hk
    obtain ⟨ho, hread⟩ := h.compensating k hk
    refine ⟨hc.owns _ _ ho, fun v b hstage => ?_⟩
    exact (hread v b hstage).trans (hc.undelivered _ (hlive k hk (by rw [hstage]; rfl)))

/-- Where no line is delivered. -/
theorem Sound.carry_all (h : Sound s) (hc : Carries (fun _ => True) s.db db') :
    Sound { s with db := db' } :=
  h.carry hc fun _ _ _ => trivial

theorem Sound.eraseFlight (h : Sound s) (i : ℕ) :
    Sound { s with flights := s.flights.eraseIdx i } :=
  ⟨h.tidy, h.bounded, fun row hrow => h.flying row (List.mem_of_mem_eraseIdx hrow),
    h.compensating⟩

theorem Sound.eraseCompensation (h : Sound s) (i : ℕ) :
    Sound { s with compensations := s.compensations.eraseIdx i } :=
  ⟨h.tidy, h.bounded, h.flying, fun k hk => h.compensating k (List.mem_of_mem_eraseIdx hk)⟩

theorem Sound.setCompensation (h : Sound s) (i : ℕ) {k : Compensation}
    (hk : Compensating s.db k) :
    Sound { s with compensations := s.compensations.set i k } := by
  refine ⟨h.tidy, h.bounded, h.flying, fun k' hk' => ?_⟩
  rcases List.mem_or_eq_of_mem_set hk' with hk' | rfl
  · exact h.compensating k' hk'
  · exact hk

theorem Sound.compensate (h : Sound s) {c : ℕ} {buyer : Address} (ho : s.db.Owns c buyer) :
    Sound (s.compensate c buyer) := by
  refine ⟨h.tidy, h.bounded, h.flying, fun k hk => ?_⟩
  rcases List.mem_append.mp hk with hk | hk
  · exact h.compensating k hk
  · obtain rfl := List.mem_singleton.mp hk
    exact ⟨ho, fun _ _ hstage => nomatch hstage⟩

theorem Sound.claim (h : Sound s) {line : ℕ} {locked : List ℕ} {row : OutboxRow}
    (hclaim : s.db.claimLine locked line = some row) :
    Sound { s with flights := s.flights ++ [row] } := by
  refine ⟨h.tidy, h.bounded, fun row' hrow => ?_, h.compensating⟩
  rcases List.mem_append.mp hrow with hrow | hrow
  · exact h.flying row' hrow
  obtain rfl := List.mem_singleton.mp hrow
  obtain ⟨l, hl, hclaim⟩ := Option.bind_eq_some_iff.mp hclaim
  obtain ⟨k, hk, hclaim⟩ := Option.bind_eq_some_iff.mp hclaim
  split at hclaim
  · obtain rfl := Option.some.inj hclaim
    exact ⟨⟨l, List.mem_of_find?_eq_some hl, rfl, rfl⟩, k, List.mem_of_find?_eq_some hk,
      by simpa using List.find?_some hk, rfl⟩
  · cases hclaim

theorem Sound.finalise (h : Sound s) {row : OutboxRow} {result : BrokerResult}
    (hrow : Flying s.db row)
    (hcareful : result = .confirmed → s.refunding row.checkoutId = false) :
    Sound (s.finalise maxAttempts row result) := by
  have hfreeze : Sound ({ s with db := s.db.failAndFreeze row }.compensate row.checkoutId
      row.buyer) := by
    have hcarry : Carries (fun _ => True) s.db (s.db.failAndFreeze row) :=
      Carries.failAndFreeze h.tidy h.bounded
    exact (h.carry_all hcarry).compensate (hcarry.owns _ _ hrow.2)
  cases result with
  | confirmed =>
    have hnot := hcareful rfl
    simp only [System.refunding, Bool.or_eq_false_iff, decide_eq_false_iff_not, not_not] at hnot
    refine h.carry (Carries.confirmLine h.tidy h.bounded hrow.1 hnot.1) fun k hk hread heq => ?_
    have hany := List.any_eq_false.mp hnot.2 k hk
    simp [heq, hread] at hany
  | retryable =>
    simp only [System.finalise]
    split
    · exact hfreeze
    · exact h.carry_all (Carries.updateLine h.tidy h.bounded (fun _ => ⟨rfl, rfl, rfl⟩)
        fun _ hst => hst)
  | terminal => exact hfreeze

theorem Sound.advance (h : Sound s) {i : ℕ} {k : Compensation} {refundText : Text}
    (hk : Compensating s.db k) (hstep : s.advance lower i k refundText = some s') : Sound s' := by
  unfold System.advance at hstep
  split at hstep
  · obtain rfl := Option.some.inj hstep
    refine h.setCompensation i ⟨hk.1, fun v b hstage => ?_⟩
    dsimp only at hstage
    split at hstage
    · obtain ⟨rfl, -⟩ := CompensationStage.read.inj hstage
      exact le_rfl
    · cases hstage
  · rename_i refundAmt confirmed hstage
    split at hstep
    · rename_i hnum
      split at hstep
      · rename_i db heq
        obtain rfl := Option.some.inj hstep
        have hcarry : Carries (fun _ => True) s.db db := by
          unfold Credits.refund transact at heq
          split at heq
          · rename_i hrefund
            obtain ⟨-, rfl⟩ := Prod.mk.inj heq
            exact Carries.refundInTx h.tidy h.bounded hk.1
              (Or.inr ⟨rfl, hnum ▸ hk.2 refundAmt confirmed hstage⟩) hrefund
          · cases heq
        exact (h.carry_all hcarry).setCompensation i
          ⟨hcarry.owns _ _ hk.1, fun _ _ hstage' => nomatch hstage'⟩
      · rename_i heq
        obtain rfl := Option.some.inj hstep
        unfold Credits.refund transact at heq
        split at heq
        · cases heq
        · obtain ⟨-, rfl⟩ := Prod.mk.inj heq
          exact h.eraseCompensation i
    · cases hstep
  · obtain rfl := Option.some.inj hstep
    exact (h.carry_all (Carries.setStatus h.tidy h.bounded)).eraseCompensation i

theorem anyConfirmed_false {db : Db} {c : ℕ} (h : db.anyConfirmed c = false) :
    db.linePrices c true = 0 := by
  refine tally_eq_zero fun l hl => ?_
  have hline := List.any_eq_false.mp h l hl
  simpa using hline

theorem Sound.refundManual (h : Sound s) {c : ℕ} {buyer : Address} {totalText : Text}
    (ho : s.db.Owns c buyer) (hnone : s.db.anyConfirmed c = false) :
    Sound { s with db := (s.db.refundCheckoutManual lower c buyer totalText).2 } := by
  refine h.carry_all ?_
  unfold Db.refundCheckoutManual transact
  split
  · rename_i heq
    obtain ⟨⟨o, db₁⟩, hrefund, hmap⟩ := map_ok.mp heq
    obtain ⟨-, rfl⟩ := Prod.mk.inj hmap
    have hcarry : Carries (fun _ => True) s.db db₁ :=
      Carries.refundInTx h.tidy h.bounded ho (Or.inl (anyConfirmed_false hnone)) hrefund
    exact hcarry.trans (Carries.setStatus hcarry.tidy hcarry.bounded)
  · exact Carries.refl h.tidy h.bounded

end System

/-! ### Runs -/

/-- Wallets are filled, and what they buy is delivered or paid back. -/
inductive CheckoutAction where
  | grant (address : Address) (amount : Text) (kind : Kind) (idempotencyKey : Option Text)
  | pipeline (a : PipelineAction)

namespace System

variable (lower : Text → Text) (maxAttempts : ℤ)

/-- A customer orders only what is priced. -/
def stepCheckout (s : System) : CheckoutAction → Option System
  | .grant address amount kind key =>
    some { s with db := (adminGrantCredits lower s.db address amount kind key).2 }
  | .pipeline (.runCheckout address key repriced totalText) =>
    if ∀ r ∈ repriced, r.Priced then
      s.pipeline lower maxAttempts (.runCheckout address key repriced totalText)
    else none
  | .pipeline a => s.pipeline lower maxAttempts a

/-- No line is confirmed of a checkout that is being refunded, and a checkout is refunded by hand
only while none of its lines is confirmed. -/
def careful (s : System) : CheckoutAction → Bool
  | .pipeline (.finalise flight .confirmed) =>
    s.flights[flight]?.all fun row => !s.refunding row.checkoutId
  | .pipeline (.refundManual checkoutId _) => !s.db.anyConfirmed checkoutId
  | _ => true

end System

section Runs

variable {lower : Text → Text} {maxAttempts : ℤ} {s s' : System}

theorem Sound.pipeline {a : PipelineAction} (h : Sound s)
    (hcareful : s.careful (.pipeline a) = true)
    (hstep : s.stepCheckout lower maxAttempts (.pipeline a) = some s') : Sound s' := by
  cases a with
  | openCart address =>
    obtain rfl := Option.some.inj hstep
    exact h.carry_all ⟨⟨h.tidy.priced, h.tidy.amounts, h.tidy.checkoutIds, h.tidy.lineIds,
      h.tidy.lines, h.tidy.owners, h.tidy.refs, h.tidy.spendKeys⟩, h.bounded.congr rfl rfl rfl,
      fun _ _ ho => ho, fun l hl => ⟨l, hl, rfl, rfl⟩, fun _ _ => le_rfl⟩
  | runCheckout address key repriced totalText =>
    simp only [System.stepCheckout] at hstep
    split at hstep
    · rename_i hpriced
      simp only [System.pipeline] at hstep
      split at hstep
      · rename_i hnum
        obtain rfl := Option.some.inj hstep
        exact h.carry_all (Carries.runCheckout h.tidy h.bounded hpriced hnum)
      · cases hstep
    · cases hstep
  | claim line =>
    obtain ⟨row, hclaim, rfl⟩ := Option.map_eq_some_iff.mp hstep
    exact h.claim hclaim
  | finalise flight result =>
    obtain ⟨row, hrow, rfl⟩ := Option.map_eq_some_iff.mp hstep
    refine (h.eraseFlight flight).finalise (h.flying row (List.mem_of_getElem? hrow)) ?_
    rintro rfl
    have hnot : s.refunding row.checkoutId = false := by
      simpa [System.careful, hrow] using hcareful
    exact hnot
  | drop flight =>
    obtain rfl := Option.some.inj hstep
    exact h.eraseFlight flight
  | sweep checkoutId =>
    obtain ⟨c, hc, rfl⟩ := Option.map_eq_some_iff.mp hstep
    exact h.compensate ⟨c, List.mem_of_find?_eq_some hc, rfl, rfl⟩
  | advance i refundText =>
    obtain ⟨k, hk, hadvance⟩ := Option.bind_eq_some_iff.mp hstep
    exact h.advance (h.compensating k (List.mem_of_getElem? hk)) hadvance
  | abandon i =>
    obtain rfl := Option.some.inj hstep
    exact h.eraseCompensation i
  | refundManual checkoutId totalText =>
    obtain ⟨c, hc, hrefund⟩ := Option.bind_eq_some_iff.mp hstep
    split at hrefund
    · obtain rfl := Option.some.inj hrefund
      have hid := List.find?_some hc
      simp only [Bool.decide_and, Bool.and_eq_true, decide_eq_true_eq] at hid
      refine h.refundManual ⟨c, List.mem_of_find?_eq_some hc, rfl, rfl⟩ ?_
      rw [hid.1]
      simpa [System.careful] using hcareful
    · cases hrefund

theorem Sound.step {a : CheckoutAction} (h : Sound s) (hcareful : s.careful a = true)
    (hstep : s.stepCheckout lower maxAttempts a = some s') : Sound s' := by
  cases a with
  | grant address amount kind key =>
    obtain rfl := Option.some.inj hstep
    exact h.carry_all (Carries.grant h.tidy h.bounded)
  | pipeline a => exact h.pipeline hcareful hstep

theorem sound_new : Sound System.new := by
  refine ⟨⟨?_, ?_, ?_, ?_, ?_, ?_, ?_, ?_⟩, ⟨?_, ?_, ?_⟩, ?_, ?_⟩ <;>
    simp [System.new, Db.new, Db.linesTotal, Db.linePrices, Db.spentBy, Db.refundedTo, Db.refSum]

/-- **No checkout pays twice.** Whatever the workers, the compensations and the administrators do, in
whatever order: where they are careful, the refunds of a checkout and the prices of its
confirmed lines stay within what it spent. -/
theorem refunds_within_spends (lower : Text → Text) (maxAttempts : ℤ) (steps : List CheckoutAction)
    (s : System)
    (hcareful : Machine.Meets (System.stepCheckout lower maxAttempts)
      (fun s a => s.careful a = true) System.new steps)
    (hrun : Machine.run (System.stepCheckout lower maxAttempts) System.new steps = some s) (c : ℕ) :
    s.db.refundedTo c + s.db.linePrices c true ≤ s.db.spentBy c := by
  have hsound : Sound s := Machine.run_invariant_of_meets (P := Sound) _
    (fun _ _ _ h hok hstep => h.step hok hstep) steps _ s hcareful hrun sound_new
  exact hsound.bounded.within c

/-- A wallet of ten credits buys two units at five. -/
def twoUnits : List CheckoutAction :=
  [.grant ['a'] ['1', '0'] .purchase none, .pipeline (.openCart ['a']),
    .pipeline (.runCheckout ['a'] ['k'] [⟨5, 2⟩] ['1', '0'])]

/-- One is delivered and the other is not. -/
def partialDelivery : List CheckoutAction :=
  twoUnits ++ [.pipeline (.claim 1), .pipeline (.finalise 0 .confirmed), .pipeline (.claim 2),
    .pipeline (.finalise 0 .terminal), .pipeline (.advance 0 []), .pipeline (.advance 0 ['5']),
    .pipeline (.advance 0 [])]

theorem refunds_within_spends_partialDelivery :
    ∃ s, Machine.run (System.stepCheckout id 5) System.new partialDelivery = some s ∧
      s.db.refundedTo 1 = 5 ∧ s.db.linePrices 1 true = 5 ∧
      s.db.refundedTo 1 + s.db.linePrices 1 true ≤ s.db.spentBy 1 := by
  have hrun : (Machine.run (System.stepCheckout id 5) System.new partialDelivery).map
      (fun s => (s.db.refundedTo 1, s.db.linePrices 1 true)) = some (5, 5) := by decide +kernel
  obtain ⟨s, hs, heq⟩ := Option.map_eq_some_iff.mp hrun
  obtain ⟨hrefunded, hconfirmed⟩ := Prod.mk.inj heq
  exact ⟨s, hs, hrefunded, hconfirmed,
    refunds_within_spends id 5 partialDelivery s (by decide +kernel) hs 1⟩

/-- Both are in flight when one of them fails; the other is refunded and then confirmed. -/
def confirmedLate : List CheckoutAction :=
  twoUnits ++ [.pipeline (.claim 1), .pipeline (.claim 2), .pipeline (.finalise 1 .terminal),
    .pipeline (.advance 0 []), .pipeline (.advance 0 ['1', '0']), .pipeline (.advance 0 []),
    .pipeline (.finalise 0 .confirmed)]

theorem refunded_and_delivered :
    ∃ s, Machine.run (System.stepCheckout id 5) System.new confirmedLate = some s ∧
      ¬ s.db.refundedTo 1 + s.db.linePrices 1 true ≤ s.db.spentBy 1 := by
  have hrun : (Machine.run (System.stepCheckout id 5) System.new confirmedLate).map
      (fun s => (s.db.refundedTo 1 + s.db.linePrices 1 true, s.db.spentBy 1)) = some (15, 10) := by
    decide +kernel
  obtain ⟨s, hs, heq⟩ := Option.map_eq_some_iff.mp hrun
  obtain ⟨hpaid, hspent⟩ := Prod.mk.inj heq
  refine ⟨s, hs, ?_⟩
  rw [hpaid, hspent]
  norm_num

end Runs

end Catalyrst.Credits
