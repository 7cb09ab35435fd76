import Catalyrst.Lib.Registers
import Catalyrst.LandAuthz.Indexer

/-!
# Rights on the land

The events in the table are folded into rights: the last event that touches a right of a token, or
of an account, settles it. The contracts grant and withdraw these rights one event after the other.
Both come to the same, whatever broke off earlier runs of the indexer.
-/

namespace Catalyrst.LandAuthz

open Catalyrst.Lib

def ZERO_ADDRESS : Text := "0x0000000000000000000000000000000000000000".toList

def Kind.text : Kind → Text
  | .updateOperator => "update_operator".toList
  | .approval => "approval".toList
  | .transfer => "transfer".toList
  | .updateManager => "update_manager".toList
  | .approvedForAll => "approved_for_all".toList

/-- Address of the contract and token. -/
abbrev TokenKey := Text ×ₗ ℕ

/-- Address of the contract, account, operator and kind. -/
abbrev AccountKey := Text ×ₗ Text ×ₗ Text ×ₗ Text

def accountKeyOf (token account operator kind : Text) : AccountKey :=
  toLex (token, toLex (account, toLex (operator, kind)))

structure TokenRight where
  x : ℤ
  y : ℤ
  operator : Option Text
  updateOperator : Option Text
  updatedBlock : ℤ
  updatedLog : ℤ
deriving DecidableEq, Repr

structure AccountRight where
  isApproved : Bool
  updatedBlock : ℤ
  updatedLog : ℤ
deriving DecidableEq, Repr

def EventTable.events (table : EventTable) : List AuthzEvent := table.toList.map Prod.snd

/-! ### Folding the events -/

def decodeCoord (half : ℕ) : Option ℤ :=
  let v : ℤ := if 2 ^ 127 ≤ half then half - 2 ^ 128 else half
  if -2 ^ 31 ≤ v ∧ v < 2 ^ 31 then some v else none

def tokenX (tokenId : ℕ) : Option ℤ := decodeCoord (tokenId / 2 ^ 128)

def tokenY (tokenId : ℕ) : Option ℤ := decodeCoord (tokenId % 2 ^ 128)

def AuthzEvent.tokenKey (e : AuthzEvent) : Option TokenKey :=
  e.tokenId.map fun id => toLex (e.tokenAddress, Numeral.wholeOf id)

def AuthzEvent.accountKey (e : AuthzEvent) : Option AccountKey :=
  if e.kind = .updateManager ∨ e.kind = .approvedForAll then
    e.account.bind fun account => e.operator.map fun operator =>
      accountKeyOf e.tokenAddress account operator e.kind.text
  else none

def nullif (a : Option Text) : Option Text := a.filter fun a => a ≠ ZERO_ADDRESS

/-- The last event of a token of one of two kinds. -/
def latestOf (kind : Kind) (events : List AuthzEvent) (key : TokenKey) : Option AuthzEvent :=
  latest (fun e => decide (e.tokenKey = some key ∧ (e.kind = kind ∨ e.kind = .transfer))) events

def operatorIn (kind : Kind) (e : AuthzEvent) : Option Text :=
  if e.kind = kind then e.operator else none

def tokenRow (events : List AuthzEvent) (key : TokenKey) : Option TokenRight := do
  let o := latestOf .approval events key
  let u := latestOf .updateOperator events key
  let x ← tokenX (ofLex key).2
  let y ← tokenY (ofLex key).2
  return {
    x := x
    y := y
    operator := nullif (o.bind (operatorIn .approval))
    updateOperator := nullif (u.bind (operatorIn .updateOperator))
    updatedBlock := max ((o.map (·.blockNumber)).getD 0) ((u.map (·.blockNumber)).getD 0)
    updatedLog := max ((o.map (·.logIndex)).getD 0) ((u.map (·.logIndex)).getD 0) }

def tokenKeys (events : List AuthzEvent) : List TokenKey :=
  ((events.filter fun e =>
    decide (e.kind = .approval ∨ e.kind = .updateOperator ∨ e.kind = .transfer)).filterMap
      AuthzEvent.tokenKey).dedup

/-- A coordinate that is no integer of the database fails the whole statement. -/
def foldToken (events : List AuthzEvent) (rights : OrdMap TokenKey TokenRight) :
    Option (OrdMap TokenKey TokenRight) :=
  if ∀ key ∈ tokenKeys events, (tokenRow events key).isSome then
    some (rights.upsert (tokenKeys events) (tokenRow events))
  else none

def accountRow (events : List AuthzEvent) (key : AccountKey) : Option AccountRight :=
  (latest (fun e => decide (e.accountKey = some key)) events).map fun e => {
    isApproved := e.approved.getD false
    updatedBlock := e.blockNumber
    updatedLog := e.logIndex }

def accountKeys (events : List AuthzEvent) : List AccountKey :=
  (events.filterMap AuthzEvent.accountKey).dedup

def foldAccount (events : List AuthzEvent) (rights : OrdMap AccountKey AccountRight) :
    OrdMap AccountKey AccountRight :=
  rights.upsert (accountKeys events) (accountRow events)

structure Db where
  index : Index
  tokenRight : OrdMap TokenKey TokenRight
  accountRight : OrdMap AccountKey AccountRight

def emptyDb : Db where
  index := emptyIndex
  tokenRight := ∅
  accountRight := ∅

/-- The two statements of a fold; each may fail, and the first that fails ends it. -/
def fold (db : Db) (tokensDone accountsDone : Bool) : Db × Bool :=
  let events := db.index.authzEvent.events
  match foldToken events db.tokenRight with
  | none => (db, false)
  | some rights =>
    if tokensDone then
      if accountsDone then
        ({ db with tokenRight := rights, accountRight := foldAccount events db.accountRight }, true)
      else ({ db with tokenRight := rights }, false)
    else (db, false)

/-- One run of the program: the block it stops at, and what befalls it. -/
structure Call where
  stop : ℕ
  turns : List Turn
  tokensDone : Bool
  accountsDone : Bool

def main (db : Db) (call : Call) : Db × Bool :=
  match scan db.index call.stop call.turns with
  | (index, none) => fold { db with index := index } call.tokensDone call.accountsDone
  | (index, some _) => ({ db with index := index }, false)

def mains (db : Db) (calls : List Call) : Db := calls.foldl (fun db call => (main db call).1) db

/-! ### What the contracts grant -/

structure Grants where
  operator : TokenKey → Option Text
  updateOperator : TokenKey → Option Text
  approved : AccountKey → Bool

def Grants.empty : Grants := ⟨fun _ => none, fun _ => none, fun _ => false⟩

/-- A grant replaces the one before it; a transfer takes what was granted on the token. -/
def Grants.step (g : Grants) (e : AuthzEvent) : Grants where
  operator key :=
    if e.tokenKey = some key then
      match e.kind with
      | .approval => nullif e.operator
      | .transfer => none
      | _ => g.operator key
    else g.operator key
  updateOperator key :=
    if e.tokenKey = some key then
      match e.kind with
      | .updateOperator => nullif e.operator
      | .transfer => none
      | _ => g.updateOperator key
    else g.updateOperator key
  approved key := if e.accountKey = some key then e.approved.getD false else g.approved key

def granted (events : List AuthzEvent) : Grants := events.foldl Grants.step Grants.empty

/-! ### Folding is replaying -/

theorem mem_events (table : EventTable) (e : AuthzEvent) :
    e ∈ table.events ↔ ∃ k : Position, table[k]? = some e := by
  rw [EventTable.events, List.mem_map]
  constructor
  · rintro ⟨⟨k, v⟩, hin, rfl⟩
    exact ⟨k, (OrdMap.mem_entries table k v).mp hin⟩
  · rintro ⟨k, hk⟩
    exact ⟨(k, e), (OrdMap.mem_entries table k e).mpr hk, rfl⟩

/-- What an event writes to the right of a token that `kind` grants. -/
def writesOn (kind : Kind) (e : AuthzEvent) (key : TokenKey) : Option (Option Text) :=
  if e.tokenKey = some key ∧ (e.kind = kind ∨ e.kind = .transfer) then
    some (nullif (operatorIn kind e))
  else none

def approves (e : AuthzEvent) (key : AccountKey) : Option Bool :=
  if e.accountKey = some key then some (e.approved.getD false) else none

theorem granted_concat (events : List AuthzEvent) (e : AuthzEvent) :
    granted (events ++ [e]) = (granted events).step e := by
  simp only [granted, List.foldl_append, List.foldl_cons, List.foldl_nil]

theorem step_operator (g : Grants) (e : AuthzEvent) (key : TokenKey) :
    (g.step e).operator key = (writesOn .approval e key).getD (g.operator key) := by
  by_cases hkey : e.tokenKey = some key
  · cases hkind : e.kind <;> simp [Grants.step, writesOn, operatorIn, nullif, hkey, hkind]
  · simp [Grants.step, writesOn, hkey]

theorem step_updateOperator (g : Grants) (e : AuthzEvent) (key : TokenKey) :
    (g.step e).updateOperator key = (writesOn .updateOperator e key).getD (g.updateOperator key) := by
  by_cases hkey : e.tokenKey = some key
  · cases hkind : e.kind <;> simp [Grants.step, writesOn, operatorIn, nullif, hkey, hkind]
  · simp [Grants.step, writesOn, hkey]

theorem step_approved (g : Grants) (e : AuthzEvent) (key : AccountKey) :
    (g.step e).approved key = (approves e key).getD (g.approved key) := by
  by_cases hkey : e.accountKey = some key
  · simp [Grants.step, approves, hkey]
  · simp [Grants.step, approves, hkey]

theorem granted_operator (events : List AuthzEvent) :
    (granted events).operator = replay (writesOn .approval) events fun _ => none := by
  funext key
  induction events using List.reverseRecOn with
  | nil => rfl
  | append_singleton events e ih => rw [granted_concat, step_operator, replay_concat, ih]

theorem granted_updateOperator (events : List AuthzEvent) :
    (granted events).updateOperator = replay (writesOn .updateOperator) events fun _ => none := by
  funext key
  induction events using List.reverseRecOn with
  | nil => rfl
  | append_singleton events e ih => rw [granted_concat, step_updateOperator, replay_concat, ih]

theorem granted_approved (events : List AuthzEvent) :
    (granted events).approved = replay approves events fun _ => false := by
  funext key
  induction events using List.reverseRecOn with
  | nil => rfl
  | append_singleton events e ih => rw [granted_concat, step_approved, replay_concat, ih]

theorem replay_writesOn (kind : Kind) (events : List AuthzEvent) (key : TokenKey) :
    replay (writesOn kind) events (fun _ => none) key =
      nullif ((latestOf kind events key).bind (operatorIn kind)) := by
  have hp : ∀ e : AuthzEvent,
      decide (e.tokenKey = some key ∧ (e.kind = kind ∨ e.kind = .transfer)) =
        (writesOn kind e key).isSome := by
    intro e
    unfold writesOn
    split_ifs with h
    · simp [h]
    · simp [h]
  rw [replay_eq_latest (writesOn kind) hp, latestOf]
  cases hlast : latest (fun e : AuthzEvent =>
      decide (e.tokenKey = some key ∧ (e.kind = kind ∨ e.kind = .transfer))) events with
  | none => rfl
  | some e =>
    have hwrites := of_decide_eq_true (latest_some hlast).2
    simp only [Option.bind_some, writesOn, if_pos hwrites, Option.getD_some]

theorem replay_approves (events : List AuthzEvent) (key : AccountKey) :
    replay approves events (fun _ => false) key =
      ((accountRow events key).map AccountRight.isApproved).getD false := by
  have hp : ∀ e : AuthzEvent, decide (e.accountKey = some key) = (approves e key).isSome := by
    intro e
    unfold approves
    split_ifs with h
    · simp [h]
    · simp [h]
  rw [replay_eq_latest approves hp, accountRow]
  cases hlast : latest (fun e : AuthzEvent => decide (e.accountKey = some key)) events with
  | none => rfl
  | some e =>
    have hwrites := of_decide_eq_true (latest_some hlast).2
    simp only [Option.bind_some, approves, if_pos hwrites, Option.getD_some, Option.map_some]

/-- Every row is of a token, or of an account, that an event in the table touches. -/
structure Stored (db : Db) : Prop where
  token : ∀ key row, db.tokenRight[key]? = some row →
    key ∈ tokenKeys db.index.authzEvent.events
  account : ∀ key row, db.accountRight[key]? = some row →
    key ∈ accountKeys db.index.authzEvent.events

theorem latestOf_eq_none {kind : Kind} {events : List AuthzEvent} {key : TokenKey}
    (hkind : kind = .approval ∨ kind = .updateOperator) (h : key ∉ tokenKeys events) :
    latestOf kind events key = none := by
  refine latest_eq_none.mpr ?_
  intro e he
  refine decide_eq_false ?_
  rintro ⟨hkey, hon⟩
  refine h (List.mem_dedup.mpr (List.mem_filterMap.mpr ⟨e, List.mem_filter.mpr ⟨he, ?_⟩, hkey⟩))
  rw [decide_eq_true_eq]
  rcases hkind with rfl | rfl
  · tauto
  · tauto

theorem accountRow_eq_none {events : List AuthzEvent} {key : AccountKey}
    (h : key ∉ accountKeys events) : accountRow events key = none := by
  refine Option.map_eq_none_iff.mpr (latest_eq_none.mpr ?_)
  intro e he
  refine decide_eq_false ?_
  intro hkey
  exact h (List.mem_dedup.mpr (List.mem_filterMap.mpr ⟨e, he, hkey⟩))

theorem foldToken_some {events : List AuthzEvent} {rights rights' : OrdMap TokenKey TokenRight}
    (hstored : ∀ key row, rights[key]? = some row → key ∈ tokenKeys events)
    (h : foldToken events rights = some rights') (key : TokenKey) :
    (∀ row, rights'[key]? = some row → key ∈ tokenKeys events) ∧
      (rights'[key]?).bind TokenRight.operator = (granted events).operator key ∧
      (rights'[key]?).bind TokenRight.updateOperator = (granted events).updateOperator key := by
  unfold foldToken at h
  split_ifs at h with hall
  obtain rfl := Option.some.inj h
  rw [OrdMap.find_upsert, granted_operator, granted_updateOperator, replay_writesOn, replay_writesOn]
  by_cases hkey : key ∈ tokenKeys events
  · obtain ⟨row, hrow⟩ := Option.isSome_iff_exists.mp (hall key hkey)
    rw [if_pos hkey, hrow, Option.some_or]
    refine ⟨fun _ _ => hkey, ?_⟩
    unfold tokenRow at hrow
    cases hx : tokenX (ofLex key).2 with
    | none => simp [hx] at hrow
    | some x =>
      cases hy : tokenY (ofLex key).2 with
      | none => simp [hx, hy] at hrow
      | some y =>
        simp only [hx, hy, Option.bind_eq_bind, Option.bind_some, Option.pure_def,
          Option.some.injEq] at hrow
        subst hrow
        exact ⟨rfl, rfl⟩
  · have hnone : rights[key]? = none := by
      cases hold : rights[key]? with
      | none => rfl
      | some row => exact absurd (hstored key row hold) hkey
    rw [if_neg hkey, hnone, latestOf_eq_none (.inl rfl) hkey, latestOf_eq_none (.inr rfl) hkey]
    exact ⟨by simp, rfl, rfl⟩

theorem foldAccount_find {events : List AuthzEvent} {rights : OrdMap AccountKey AccountRight}
    (hstored : ∀ key row, rights[key]? = some row → key ∈ accountKeys events) (key : AccountKey) :
    (∀ row, (foldAccount events rights)[key]? = some row → key ∈ accountKeys events) ∧
      (((foldAccount events rights)[key]?).map AccountRight.isApproved).getD false =
        (granted events).approved key := by
  have hnone : key ∉ accountKeys events → rights[key]? = none := by
    intro hkey
    cases hold : rights[key]? with
    | none => rfl
    | some row => exact absurd (hstored key row hold) hkey
  rw [foldAccount, OrdMap.find_upsert, granted_approved, replay_approves]
  by_cases hkey : key ∈ accountKeys events
  · refine ⟨fun _ _ => hkey, ?_⟩
    rw [if_pos hkey]
    cases hrow : accountRow events key with
    | some row => rfl
    | none =>
      exfalso
      obtain ⟨e, he, htouch⟩ := List.mem_filterMap.mp (List.mem_dedup.mp hkey)
      have hlast := latest_eq_none.mp (Option.map_eq_none_iff.mp hrow) e he
      simp [htouch] at hlast
  · rw [if_neg hkey, hnone hkey, accountRow_eq_none hkey]
    exact ⟨by simp, rfl⟩

/-! ### Runs of the program -/

theorem insertEvents_keeps {table : EventTable} {k : Position} {e : AuthzEvent}
    (h : table[k]? = some e) (written : Option ℕ) (events : List AuthzEvent) :
    (insertEvents table written events).1[k]? = some e := by
  obtain ⟨sent, htable, -, -⟩ := insertEvents_table table written events
  rw [htable, find_insertChunk, h, Option.some_or]

theorem sync_keeps {index : Index} {k : Position} {e : AuthzEvent}
    (h : index.authzEvent[k]? = some e) (start stop : ℕ) (turns : List Turn) :
    (sync index start stop turns).1.authzEvent[k]? = some e := by
  induction turns generalizing index start with
  | nil => exact h
  | cons turn turns ih =>
    unfold sync
    split_ifs
    · split
      · exact h
      · split
        · exact h
        · rename_i events _
          dsimp only
          split_ifs
          · exact ih (insertEvents_keeps h turn.written events) _
          · exact insertEvents_keeps h turn.written events
    · exact h

theorem tokenKeys_mono {events events' : List AuthzEvent} (h : ∀ e ∈ events, e ∈ events')
    {key : TokenKey} (hkey : key ∈ tokenKeys events) : key ∈ tokenKeys events' := by
  obtain ⟨e, he, htouch⟩ := List.mem_filterMap.mp (List.mem_dedup.mp hkey)
  obtain ⟨hin, hkind⟩ := List.mem_filter.mp he
  exact List.mem_dedup.mpr (List.mem_filterMap.mpr ⟨e, List.mem_filter.mpr ⟨h e hin, hkind⟩, htouch⟩)

theorem accountKeys_mono {events events' : List AuthzEvent} (h : ∀ e ∈ events, e ∈ events')
    {key : AccountKey} (hkey : key ∈ accountKeys events) : key ∈ accountKeys events' := by
  obtain ⟨e, he, htouch⟩ := List.mem_filterMap.mp (List.mem_dedup.mp hkey)
  exact List.mem_dedup.mpr (List.mem_filterMap.mpr ⟨e, h e he, htouch⟩)

theorem Stored.scan {db : Db} (h : Stored db) (stop : ℕ) (turns : List Turn) :
    Stored { db with index := (LandAuthz.scan db.index stop turns).1 } := by
  have hevents : ∀ e ∈ db.index.authzEvent.events,
      e ∈ (LandAuthz.scan db.index stop turns).1.authzEvent.events := by
    intro e he
    obtain ⟨k, hk⟩ := (mem_events _ e).mp he
    exact (mem_events _ e).mpr ⟨k, sync_keeps hk _ stop turns⟩
  exact ⟨fun key row hrow => tokenKeys_mono hevents (h.token key row hrow),
    fun key row hrow => accountKeys_mono hevents (h.account key row hrow)⟩

theorem Stored.fold {db : Db} (h : Stored db) (tokensDone accountsDone : Bool) :
    Stored (LandAuthz.fold db tokensDone accountsDone).1 := by
  unfold LandAuthz.fold
  dsimp only
  split
  · exact h
  · rename_i rights hrights
    have htoken := fun key => (foldToken_some h.token hrights key).1
    have haccount := fun key => (foldAccount_find h.account key).1
    split_ifs
    · exact ⟨htoken, haccount⟩
    · exact ⟨htoken, h.account⟩
    · exact h

theorem main_index (db : Db) (call : Call) :
    (main db call).1.index = (scan db.index call.stop call.turns).1 := by
  unfold main
  split
  · rename_i index hscan
    rw [hscan]
    unfold fold
    dsimp only
    split
    · rfl
    · split_ifs <;> rfl
  · rename_i hscan
    rw [hscan]

/-- What scans and folds keep holds after any runs. -/
theorem mains_keep {P : Db → Prop}
    (hscan : ∀ db stop turns, P db → P { db with index := (scan db.index stop turns).1 })
    (hfold : ∀ db tokensDone accountsDone, P db → P (fold db tokensDone accountsDone).1)
    {db : Db} (h : P db) (calls : List Call) : P (mains db calls) := by
  have hmain : ∀ db call, P db → P (main db call).1 := by
    intro db call h
    have hread := hscan db call.stop call.turns h
    unfold main
    split
    · rename_i heq
      rw [heq] at hread
      exact hfold _ _ _ hread
    · rename_i heq
      rw [heq] at hread
      exact hread
  induction calls generalizing db with
  | nil => exact h
  | cons call calls ih => exact ih (hmain db call h)

theorem mains_stored {db : Db} (h : Stored db) (calls : List Call) : Stored (mains db calls) :=
  mains_keep (fun _ stop turns h => h.scan stop turns)
    (fun _ tokensDone accountsDone h => h.fold tokensDone accountsDone) h calls

theorem mains_index (db : Db) (calls : List Call) :
    (mains db calls).index =
      scans db.index (calls.map fun call => (call.stop, call.turns)) := by
  induction calls generalizing db with
  | nil => rfl
  | cons call calls ih =>
    have hstep : mains db (call :: calls) = mains (main db call).1 calls := rfl
    rw [hstep, ih, main_index]
    rfl

theorem empty_stored : Stored emptyDb where
  token key row h := by simp [emptyDb] at h
  account key row h := by simp [emptyDb] at h

/-- What a run that completes has read and folded. -/
theorem main_done {db : Db} {call : Call} (h : (main db call).2 = true) :
    (scan db.index call.stop call.turns).2 = none ∧
      ∃ rights, foldToken (scan db.index call.stop call.turns).1.authzEvent.events db.tokenRight =
          some rights ∧
        (main db call).1 = {
          index := (scan db.index call.stop call.turns).1
          tokenRight := rights
          accountRight := foldAccount (scan db.index call.stop call.turns).1.authzEvent.events
            db.accountRight } := by
  unfold main at h ⊢
  split at h
  · rename_i index hscan
    rw [hscan]
    refine ⟨rfl, ?_⟩
    unfold fold at h ⊢
    dsimp only at h ⊢
    split at h
    · cases h
    · rename_i rights hrights
      split_ifs at h with htokens haccounts
      refine ⟨rights, hrights, ?_⟩
      rw [htokens, haccounts]
      rfl
  · cases h

theorem main_rights {db : Db} {call : Call} (hstored : Stored db) (h : (main db call).2 = true)
    {events : List AuthzEvent}
    (hevents : (scan db.index call.stop call.turns).1.authzEvent.events = events) :
    (∀ key, ((main db call).1.tokenRight[key]?).bind TokenRight.operator =
        (granted events).operator key ∧
      ((main db call).1.tokenRight[key]?).bind TokenRight.updateOperator =
        (granted events).updateOperator key) ∧
    ∀ key, (((main db call).1.accountRight[key]?).map AccountRight.isApproved).getD false =
      (granted events).approved key := by
  obtain ⟨-, rights, hrights, hmain⟩ := main_done h
  have hscan := hstored.scan call.stop call.turns
  rw [hevents] at hrights hmain
  rw [hmain]
  refine ⟨?_, ?_⟩
  · intro key
    exact (foldToken_some (hevents ▸ hscan.token) hrights key).2
  · intro key
    exact (foldAccount_find (hevents ▸ hscan.account) key).2

/-- After a run that completes, whatever broke off the runs before it, every right in the tables is
what the chain's events up to its block, taken in order, grant. -/
theorem mains_rights {chain : List RpcLog} {calls : List Call} {call : Call}
    {events : List AuthzEvent} (hdistinct : Distinct chain)
    (hcalls : ∀ c ∈ calls ++ [call], Honest chain c.turns) (hstop : ∀ c ∈ calls, c.stop ≤ call.stop)
    (hdone : (main (mains emptyDb calls) call).2 = true)
    (hsorted : events.Pairwise fun e e' => e.position < e'.position)
    (hevents : ∀ e, e ∈ events ↔ FromChain chain call.stop e) :
    (∀ key, ((main (mains emptyDb calls) call).1.tokenRight[key]?).bind TokenRight.operator =
        (granted events).operator key ∧
      ((main (mains emptyDb calls) call).1.tokenRight[key]?).bind TokenRight.updateOperator =
        (granted events).updateOperator key) ∧
    ∀ key, (((main (mains emptyDb calls) call).1.accountRight[key]?).map
      AccountRight.isApproved).getD false = (granted events).approved key := by
  refine main_rights (mains_stored empty_stored calls) hdone ?_
  have hscan := (main_done hdone).1
  have hindex : (mains emptyDb calls).index =
      scans emptyIndex (calls.map fun c => (c.stop, c.turns)) := mains_index emptyDb calls
  rw [hindex] at hscan ⊢
  have htable := scan_table hdistinct
    (by
      intro c hc
      obtain ⟨c', hc', rfl⟩ := List.mem_map.mp hc
      exact hcalls c' (List.mem_append_left _ hc'))
    (hcalls call (by simp))
    (by
      intro c hc
      obtain ⟨c', hc', rfl⟩ := List.mem_map.mp hc
      exact hstop c' hc')
    hscan
  refine OrdMap.values_eq (fun k e hk => ((htable k e).mp hk).1) hsorted ?_
  intro e
  rw [hevents, htable]
  simp

def operatorEvent (block : ℤ) (c : Char) : AuthzEvent where
  blockNumber := block
  logIndex := 1
  blockTime := 0
  tokenAddress := LAND_REGISTRY_MAINNET
  kind := .updateOperator
  tokenId := some "7".toList
  account := none
  operator := some ("0x".toList ++ List.replicate 40 c)
  approved := none

theorem readLog_operatorLogs :
    readLog (operatorLog "0x589fce".toList (operatorTopic 'a')) =
        .ok (some (operatorEvent 5808078 'a')) ∧
      readLog (operatorLog "0x58a000".toList (operatorTopic 'b')) =
        .ok (some (operatorEvent 5808128 'b')) := by
  decide +kernel

theorem fromChain_operatorLogs (e : AuthzEvent) :
    e ∈ [operatorEvent 5808078 'a', operatorEvent 5808128 'b'] ↔
      FromChain operatorLogs 5808300 e := by
  obtain ⟨hfirst, hsecond⟩ := readLog_operatorLogs
  constructor
  · intro he
    rcases List.mem_cons.mp he with rfl | he
    · exact ⟨_, List.mem_cons_self, by decide, by decide, hfirst⟩
    · obtain rfl := List.mem_singleton.mp he
      exact ⟨_, List.mem_cons_of_mem _ (List.mem_singleton_self _), by decide,
        by decide, hsecond⟩
  · rintro ⟨log, hlog, -, -, hread⟩
    rcases List.mem_cons.mp hlog with rfl | hlog
    · rw [hfirst] at hread
      cases hread
      simp
    · obtain rfl := List.mem_singleton.mp hlog
      rw [hsecond] at hread
      cases hread
      simp

/-- The first run ends before its cursor is set, the second between the statements of its fold. -/
def brokenCalls : List Call :=
  [⟨5808100, [⟨[serve operatorLogs], none, false⟩], true, true⟩,
    ⟨5808200, [⟨[serve operatorLogs], none, true⟩], true, false⟩]

def lastCall : Call := ⟨5808300, [⟨[serve operatorLogs], none, true⟩], true, true⟩

end Catalyrst.LandAuthz
