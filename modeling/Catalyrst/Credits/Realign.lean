import Mathlib
import Catalyrst.Credits.Ledger
import Catalyrst.Lib.Keyset

/-!
# Realigning the ledger (`realign_ledger_to_balances_in_batches`)

The walk goes through the wallets in pages along the primary key. For each page it writes
adjustment rows, first for the earned credits and then for what is still missing of the
total, so that the sums of the ledger are the balances again.
-/

namespace Catalyrst.Credits

open Catalyrst.Lib Catalyrst.Lib.Tally Catalyrst.Lib.Keyset

/-- An order of texts, in which the empty one comes first. -/
structure Collation where
  lt : Text → Text → Prop
  [decidable : DecidableRel lt]
  [strict : IsStrictTotalOrder Text lt]
  nil_lt : ∀ s, s ≠ [] → lt [] s

attribute [instance] Collation.decidable Collation.strict

/-- The database, with the primary key of `user_credits` in order. -/
structure Wallets (c : Collation) where
  db : Db
  index : List Address
  sorted : index.Pairwise c.lt
  complete : ∀ a, a ∈ index ↔ (db.userCredits a).isSome

/-- `migration:0018-ledger-realign`. -/
def realignTxRef : Text :=
  ['m', 'i', 'g', 'r', 'a', 't', 'i', 'o', 'n', ':', '0', '0', '1', '8', '-', 'l', 'e', 'd', 'g',
    'e', 'r', '-', 'r', 'e', 'a', 'l', 'i', 'g', 'n']

structure LedgerRealignment where
  address : Address
  bucket : Bucket
  kind : Kind
  amount : ℚ
  deriving DecidableEq

def LedgerRow.realignment (r : LedgerRow) : LedgerRealignment := ⟨r.address, r.bucket, r.kind, r.amount⟩

/-- The adjustment for one wallet, if there is something to adjust. -/
def adjustment (bucket : Bucket) (address : Address) (delta : ℚ) : Option LedgerRow :=
  if delta ≠ 0 then
    some ⟨address, if 0 < delta then .grant else .consume, |delta|, some realignTxRef, bucket⟩
  else none

namespace Db

variable (db : Db) (addresses : List Address)

def earnedRows : List LedgerRow :=
  addresses.filterMap fun a => adjustment .earned a (db.earnedAvailable a - db.signedEarned a)

def totalRows : List LedgerRow :=
  addresses.filterMap fun a => adjustment .paid a (db.available a - db.signedSum a)

def addRows (rows : List LedgerRow) : Db := { db with creditLedger := db.creditLedger ++ rows }

/-- The two statements for a page; the second sees the rows of the first. -/
def realignPage : List LedgerRow :=
  db.earnedRows addresses ++ (db.addRows (db.earnedRows addresses)).totalRows addresses

end Db

section Walk

variable {c : Collation}

def Wallets.addRows (w : Wallets c) (rows : List LedgerRow) : Wallets c :=
  { w with db := w.db.addRows rows }

/-- `WHERE address > cursor ORDER BY address LIMIT batch`. -/
def Wallets.select (w : Wallets c) (cursor : Address) (batch : ℤ) : List Address :=
  (above c.lt cursor w.index).take batch.toNat

structure Realigned (c : Collation) where
  wallets : Wallets c
  out : List LedgerRealignment
  /-- The wallets that were scanned. -/
  visited : List Address

/-- The loop; it runs out of `fuel` if it does not end. -/
def realignFrom (batch : ℤ) : ℕ → Wallets c → Address → Option (Realigned c)
  | 0, _, _ => none
  | fuel + 1, w, cursor =>
    let addresses := w.select cursor batch
    match addresses.getLast? with
    | none => some ⟨w, [], []⟩
    | some last =>
      let rows := w.db.realignPage addresses
      let w' := w.addRows rows
      if (addresses.length : ℤ) < batch then some ⟨w', rows.map LedgerRow.realignment, addresses⟩
      else
        (realignFrom batch fuel w' last).map fun rest =>
          ⟨rest.wallets, rows.map LedgerRow.realignment ++ rest.out, addresses ++ rest.visited⟩

def realignLedgerToBalancesInBatches (w : Wallets c) (batch : ℤ) (fuel : ℕ) :
    Option (Realigned c) :=
  realignFrom (max batch 1) fuel w []

end Walk

/-! ### One page -/

/-- What `reconcile` compares for a wallet. -/
def Reconciled (db : Db) (a : Address) : Prop :=
  db.signedSum a = db.available a ∧ db.signedEarned a = db.earnedAvailable a

section Page

variable {db : Db} {addresses : List Address} {a : Address}

theorem adjustment_some {bucket : Bucket} {delta : ℚ} {row : LedgerRow}
    (h : adjustment bucket a delta = some row) :
    row.address = a ∧ row.bucket = bucket ∧ row.signed = delta := by
  unfold adjustment at h
  split at h
  · obtain rfl := Option.some.inj h
    refine ⟨rfl, rfl, ?_⟩
    unfold LedgerRow.signed
    split_ifs with hpos
    · exact abs_of_pos hpos
    · show -|delta| = delta
      rw [abs_of_nonpos (not_lt.mp hpos), neg_neg]
  · cases h

theorem adjustment_zero (bucket : Bucket) (a : Address) : adjustment bucket a 0 = none := by
  rw [adjustment, if_neg (not_not.mpr rfl)]

/-- The rows of a page count once for each of its wallets. -/
theorem tally_adjustments {bucket : Bucket} {f : Address → ℚ} {p : LedgerRow → Bool}
    (hp : ∀ r, r.bucket = bucket → (p r = true ↔ r.address = a)) (hnodup : addresses.Nodup) :
    tally p LedgerRow.signed (addresses.filterMap fun x => adjustment bucket x (f x)) =
      if a ∈ addresses then f a else 0 := by
  induction addresses with
  | nil => rfl
  | cons x rest ih =>
    obtain ⟨hx, hrest⟩ := List.nodup_cons.mp hnodup
    have hhead : tally p LedgerRow.signed ((adjustment bucket x (f x)).toList) =
        if x = a then f a else 0 := by
      cases hadj : adjustment bucket x (f x) with
      | none =>
        have hzero : f x = 0 := by
          by_contra hne
          rw [adjustment, if_pos hne] at hadj
          cases hadj
        split
        · rename_i hsame
          rw [← hsame, hzero]
          rfl
        · rfl
      | some row =>
        obtain ⟨haddr, hbucket, hsigned⟩ := adjustment_some hadj
        have hrow := hp row hbucket
        rw [haddr] at hrow
        rw [Option.toList_some, tally_cons, tally_nil, add_zero, hsigned]
        by_cases hsame : x = a
        · rw [if_pos (hrow.mpr hsame), if_pos hsame, hsame]
        · rw [if_neg fun h => hsame (hrow.mp h), if_neg hsame]
    have hcons : (x :: rest).filterMap (fun x => adjustment bucket x (f x)) =
        (adjustment bucket x (f x)).toList ++ rest.filterMap fun x => adjustment bucket x (f x) := by
      rw [List.filterMap_cons]
      cases adjustment bucket x (f x) with
      | none => rfl
      | some row => rfl
    rw [hcons, tally_append, hhead, ih hrest]
    by_cases hsame : x = a
    · subst hsame
      rw [if_pos rfl, if_neg hx, if_pos List.mem_cons_self, add_zero]
    · rw [if_neg hsame, zero_add]
      simp only [List.mem_cons, Ne.symm hsame, false_or]

theorem signedSum_addRows (rows : List LedgerRow) : (db.addRows rows).signedSum a =
    db.signedSum a + tally (fun r => r.address = a) LedgerRow.signed rows :=
  tally_append

theorem signedEarned_addRows (rows : List LedgerRow) : (db.addRows rows).signedEarned a =
    db.signedEarned a + tally (fun r => r.address = a ∧ r.bucket = .earned) LedgerRow.signed rows :=
  tally_append

/-- The rows of the first statement. -/
theorem addRows_earned (db : Db) (hnodup : addresses.Nodup) (a : Address) :
    (db.addRows (db.earnedRows addresses)).signedEarned a =
        (if a ∈ addresses then db.earnedAvailable a else db.signedEarned a) ∧
      (a ∉ addresses → (db.addRows (db.earnedRows addresses)).signedSum a = db.signedSum a) := by
  constructor
  · rw [signedEarned_addRows, Db.earnedRows, tally_adjustments (a := a) ?_ hnodup]
    · split
      · exact add_sub_cancel _ _
      · exact add_zero _
    · intro r hr
      simp [hr]
  · intro hout
    rw [signedSum_addRows, Db.earnedRows, tally_adjustments (a := a) ?_ hnodup, if_neg hout, add_zero]
    intro r _
    simp

/-- The rows of the second; they are for paid credits. -/
theorem addRows_total (db : Db) (hnodup : addresses.Nodup) (a : Address) :
    (db.addRows (db.totalRows addresses)).signedSum a =
        (if a ∈ addresses then db.available a else db.signedSum a) ∧
      (db.addRows (db.totalRows addresses)).signedEarned a = db.signedEarned a := by
  constructor
  · rw [signedSum_addRows, Db.totalRows, tally_adjustments (a := a) ?_ hnodup]
    · split
      · exact add_sub_cancel _ _
      · exact add_zero _
    · intro r _
      simp
  · rw [signedEarned_addRows, tally_eq_zero, add_zero]
    intro r hr
    obtain ⟨x, -, hadj⟩ := List.mem_filterMap.mp hr
    simp [(adjustment_some hadj).2.1]

theorem addRows_append (rows rows' : List LedgerRow) :
    db.addRows (rows ++ rows') = (db.addRows rows).addRows rows' := by
  simp only [Db.addRows, List.append_assoc]

/-- A page puts its wallets right and leaves the others. -/
theorem realignPage_sums (db : Db) (hnodup : addresses.Nodup) (a : Address) :
    if a ∈ addresses then Reconciled (db.addRows (db.realignPage addresses)) a
    else (db.addRows (db.realignPage addresses)).signedSum a = db.signedSum a ∧
      (db.addRows (db.realignPage addresses)).signedEarned a = db.signedEarned a := by
  obtain ⟨hearned, hother⟩ := addRows_earned db hnodup a
  obtain ⟨htotal, hkept⟩ := addRows_total (db.addRows (db.earnedRows addresses)) hnodup a
  rw [Db.realignPage, addRows_append]
  split
  · rename_i hin
    rw [if_pos hin] at hearned htotal
    exact ⟨htotal, hkept.trans hearned⟩
  · rename_i hout
    rw [if_neg hout] at hearned htotal
    exact ⟨htotal.trans (hother hout), hkept.trans hearned⟩

/-- There is nothing to write for wallets that are right. -/
theorem realignPage_nil (h : ∀ a ∈ addresses, Reconciled db a) : db.realignPage addresses = [] := by
  have hearned : db.earnedRows addresses = [] := by
    refine List.filterMap_eq_nil_iff.mpr fun a ha => ?_
    rw [(h a ha).2, sub_self]
    exact adjustment_zero _ _
  have hsame : db.addRows [] = db := by
    simp only [Db.addRows, List.append_nil]
  rw [Db.realignPage, hearned, hsame, List.nil_append]
  refine List.filterMap_eq_nil_iff.mpr fun a ha => ?_
  rw [(h a ha).1, sub_self]
  exact adjustment_zero _ _

end Page

/-! ### The walk -/

section Run

variable {c : Collation} {batch : ℤ} {w : Wallets c} {cursor : Address}

theorem addRows_nil (w : Wallets c) : w.addRows [] = w := by
  simp only [Wallets.addRows, Db.addRows, List.append_nil]

/-- What a walk from a cursor does to the wallets above it. -/
structure Walked (w : Wallets c) (cursor : Address) (r : Realigned c) : Prop where
  visited : r.visited = above c.lt cursor w.index
  index : r.wallets.index = w.index
  balances : r.wallets.db.userCredits = w.db.userCredits
  reconciled : ∀ a ∈ above c.lt cursor w.index, Reconciled r.wallets.db a
  kept : ∀ a, a ∉ above c.lt cursor w.index →
    r.wallets.db.signedSum a = w.db.signedSum a ∧ r.wallets.db.signedEarned a = w.db.signedEarned a
  idle : (∀ a ∈ above c.lt cursor w.index, Reconciled w.db a) → r.wallets = w ∧ r.out = []

theorem nodup_above (w : Wallets c) (cursor : Address) : (above c.lt cursor w.index).Nodup := by
  have hnodup : w.index.Nodup := w.sorted.imp fun {a b} h => by
    rintro rfl
    exact irrefl a h
  exact hnodup.filter _

/-- A wallet that was right stays right while its balance does. -/
theorem Reconciled.congr {db db' : Db} {a : Address} (h : Reconciled db a)
    (hu : db'.userCredits = db.userCredits) (hsum : db'.signedSum a = db.signedSum a)
    (hearned : db'.signedEarned a = db.signedEarned a) : Reconciled db' a := by
  unfold Reconciled Db.available Db.earnedAvailable at *
  rw [hsum, hearned, hu]
  exact h

theorem nodup_select (w : Wallets c) (cursor : Address) (batch : ℤ) :
    (w.select cursor batch).Nodup :=
  (nodup_above w cursor).sublist (List.take_sublist _ _)

/-- A page that holds all that is left. -/
theorem walked_last (hall : w.select cursor batch = above c.lt cursor w.index) :
    Walked w cursor ⟨w.addRows (w.db.realignPage (w.select cursor batch)),
      (w.db.realignPage (w.select cursor batch)).map LedgerRow.realignment,
      w.select cursor batch⟩ := by
  have hsums := realignPage_sums w.db (nodup_above w cursor)
  rw [hall]
  refine ⟨rfl, rfl, rfl, fun a ha => ?_, fun a ha => ?_, fun hidle => ?_⟩
  · have hright := hsums a
    rwa [if_pos ha] at hright
  · have hsame := hsums a
    rwa [if_neg ha] at hsame
  · rw [realignPage_nil hidle]
    exact ⟨addRows_nil w, rfl⟩

/-- A page, and a walk from its last wallet on. -/
theorem Walked.cons {last : Address} {r : Realigned c}
    (hlast : (w.select cursor batch).getLast? = some last)
    (h : Walked (w.addRows (w.db.realignPage (w.select cursor batch))) last r) :
    Walked w cursor ⟨r.wallets,
      (w.db.realignPage (w.select cursor batch)).map LedgerRow.realignment ++ r.out,
      w.select cursor batch ++ r.visited⟩ := by
  have hsums := realignPage_sums w.db (nodup_select w cursor batch)
  have hsplit : w.select cursor batch ++ above c.lt last w.index = above c.lt cursor w.index := by
    rw [above_last w.sorted hlast]
    exact List.take_append_drop _ _
  refine ⟨?_, h.index, h.balances, ?_, ?_, ?_⟩
  · rw [h.visited]
    exact hsplit
  · intro a ha
    by_cases hlater : a ∈ above c.lt last w.index
    · exact h.reconciled a hlater
    · obtain ⟨hsum, hearned⟩ := h.kept a hlater
      have hhere : a ∈ w.select cursor batch := by
        rw [← hsplit] at ha
        exact (List.mem_append.mp ha).resolve_right hlater
      have hright := hsums a
      rw [if_pos hhere] at hright
      exact hright.congr h.balances hsum hearned
  · intro a ha
    rw [← hsplit, List.mem_append, not_or] at ha
    obtain ⟨hsum, hearned⟩ := h.kept a ha.2
    have hsame := hsums a
    rw [if_neg ha.1] at hsame
    exact ⟨hsum.trans hsame.1, hearned.trans hsame.2⟩
  · intro hidle
    rw [← hsplit] at hidle
    have hnone : w.db.realignPage (w.select cursor batch) = [] :=
      realignPage_nil fun a ha => hidle a (List.mem_append_left _ ha)
    rw [hnone, addRows_nil] at h
    obtain ⟨hwallets, hout⟩ := h.idle fun a ha => hidle a (List.mem_append_right _ ha)
    refine ⟨hwallets, ?_⟩
    rw [hnone, hout]
    rfl

theorem realignFrom_walked (hbatch : 1 ≤ batch) (fuel : ℕ) (w : Wallets c) (cursor : Address)
    (hfuel : (above c.lt cursor w.index).length < fuel) :
    ∃ r, realignFrom batch fuel w cursor = some r ∧ Walked w cursor r := by
  induction fuel generalizing w cursor with
  | zero => cases hfuel
  | succ fuel ih =>
    rw [realignFrom]
    dsimp only
    have hpage : w.select cursor batch = (above c.lt cursor w.index).take batch.toNat := rfl
    cases hlast : (w.select cursor batch).getLast? with
    | none =>
      -- nothing is above the cursor
      have hnil : above c.lt cursor w.index = [] := by
        rw [List.getLast?_eq_none_iff, hpage, List.take_eq_nil_iff] at hlast
        exact hlast.resolve_left (by omega)
      refine ⟨_, rfl, ⟨hnil.symm, rfl, rfl, ?_, fun _ _ => ⟨rfl, rfl⟩, fun _ => ⟨rfl, rfl⟩⟩⟩
      intro a ha
      rw [hnil] at ha
      cases ha
    | some last =>
      dsimp only
      split
      · rename_i hshort
        refine ⟨_, rfl, walked_last ?_⟩
        rw [hpage] at hshort ⊢
        refine List.take_of_length_le ?_
        rw [List.length_take] at hshort
        omega
      · have hshorter : (above c.lt last w.index).length < fuel := by
          have hpos := List.length_pos_of_mem (List.mem_of_getLast? hlast)
          rw [hpage, List.length_take] at hpos
          rw [above_last w.sorted hlast, List.length_drop]
          omega
        obtain ⟨r, hr, hwalk⟩ :=
          ih (w.addRows (w.db.realignPage (w.select cursor batch))) last hshorter
        rw [hr, Option.map_some]
        exact ⟨_, rfl, hwalk.cons hlast⟩

/-- **One walk puts every wallet right.** Whatever the tables hold and however large the pages
are, the walk ends, visits every wallet once and changes no balance; afterwards the ledger
agrees with every balance, and another walk writes nothing. The walk starts above the empty
address. -/
theorem realigned (c : Collation) (w : Wallets c) (batch : ℤ) (fuel : ℕ)
    (hfuel : w.index.length < fuel) :
    ∃ r, realignLedgerToBalancesInBatches w batch fuel = some r ∧
      r.visited.Nodup ∧ (∀ a, a ∈ r.visited ↔ a ≠ [] ∧ (w.db.userCredits a).isSome) ∧
      r.wallets.db.userCredits = w.db.userCredits ∧
      (∀ a, a ≠ [] → (w.db.userCredits a).isSome →
        r.wallets.db.signedSum a = r.wallets.db.available a ∧
          r.wallets.db.signedEarned a = r.wallets.db.earnedAvailable a) ∧
      ∀ batch', ∃ r', realignLedgerToBalancesInBatches r.wallets batch' fuel = some r' ∧
        r'.out = [] ∧ r'.wallets = r.wallets := by
  have habove : ∀ w' : Wallets c, ∀ a, a ∈ above c.lt [] w'.index ↔
      a ≠ [] ∧ (w'.db.userCredits a).isSome := by
    intro w' a
    rw [mem_above, w'.complete, and_comm]
    refine and_congr_left fun _ => ⟨?_, c.nil_lt a⟩
    rintro hlt rfl
    exact irrefl _ hlt
  have hlength : (above c.lt [] w.index).length < fuel :=
    (List.length_filter_le _ _).trans_lt hfuel
  obtain ⟨r, hr, hwalk⟩ := realignFrom_walked (le_max_right batch 1) fuel w [] hlength
  refine ⟨r, hr, ?_, ?_, hwalk.balances, ?_, ?_⟩
  · rw [hwalk.visited]
    exact nodup_above w []
  · rw [hwalk.visited]
    exact habove w
  · exact fun a hne hsome => hwalk.reconciled a ((habove w a).mpr ⟨hne, hsome⟩)
  · intro batch'
    have hagain : (above c.lt [] r.wallets.index).length < fuel := by
      rw [hwalk.index]
      exact hlength
    obtain ⟨r', hr', hwalk'⟩ :=
      realignFrom_walked (le_max_right batch' 1) fuel r.wallets [] hagain
    have hidle := hwalk'.idle
    rw [hwalk.index] at hidle
    obtain ⟨hwallets, hout⟩ := hidle hwalk.reconciled
    exact ⟨r', hr', hout, hwallets⟩

end Run

section Examples

/-- The order of the code points. -/
def codePoints : Collation where
  lt := fun s t => s < t
  nil_lt := fun s hs => by
    cases s with
    | nil => exact absurd rfl hs
    | cons a s => exact List.nil_lt_cons a s

/-- A wallet that the ledger knows nothing of, under the given address. -/
def unrecorded (a : Address) : Wallets codePoints where
  db := Db.new.setCredits a ⟨5, 2, by norm_num, by norm_num⟩
  index := [a]
  sorted := List.pairwise_singleton _ _
  complete := by
    intro x
    show x ∈ [a] ↔ (Function.update Db.new.userCredits a _ x).isSome
    rw [List.mem_singleton, Function.update_apply]
    split
    · rename_i h
      simp [h]
    · rename_i h
      simp [h, Db.new]

theorem realigned_unrecorded :
    ∃ r, realignLedgerToBalancesInBatches (unrecorded ['a']) 1 2 = some r ∧
      r.out = [⟨['a'], .earned, .grant, 2⟩, ⟨['a'], .paid, .grant, 3⟩] ∧
      r.wallets.db.signedSum ['a'] = r.wallets.db.available ['a'] := by
  obtain ⟨r, hr, -, -, -, hsums, -⟩ := realigned codePoints (unrecorded ['a']) 1 2 (by decide)
  have hout : (realignLedgerToBalancesInBatches (unrecorded ['a']) 1 2).map Realigned.out =
      some [⟨['a'], .earned, .grant, 2⟩, ⟨['a'], .paid, .grant, 3⟩] := by decide +kernel
  rw [hr, Option.map_some, Option.some.injEq] at hout
  exact ⟨r, hr, hout, (hsums ['a'] (by decide) (by decide)).1⟩

/-- A wallet with the empty address is not above the cursor the walk starts with. -/
theorem empty_address_skipped :
    ∃ r, realignLedgerToBalancesInBatches (unrecorded []) 1 2 = some r ∧ r.visited = [] ∧
      ((unrecorded []).db.userCredits []).isSome ∧
      r.wallets.db.signedSum [] ≠ r.wallets.db.available [] := by
  have hrun : (realignLedgerToBalancesInBatches (unrecorded []) 1 2).map
      (fun r => (r.visited, r.wallets.db.signedSum [], r.wallets.db.available [])) =
        some ([], 0, 5) := by decide
  obtain ⟨r, hr, hvalues⟩ := Option.map_eq_some_iff.mp hrun
  simp only [Prod.mk.injEq] at hvalues
  obtain ⟨hvisited, hsum, havailable⟩ := hvalues
  refine ⟨r, hr, hvisited, by decide, ?_⟩
  rw [hsum, havailable]
  norm_num

end Examples

end Catalyrst.Credits
