import Catalyrst.LandAuthz.Resolve

/-!
# Rights read back

What the rights tables hold was written from logs, so addresses in them are in lower case and
coordinates are those of the token. The parcels one may update are then the parcels that name one
as their update operator, and a deploy is allowed where the chain's events allow it.
-/

namespace Catalyrst.LandAuthz

open Catalyrst.Lib Catalyrst.Lib.Fallible

/-! ### Addresses in lower case -/

def Lowered (a : Option Text) : Prop := ∀ t ∈ a, lower t = t

theorem lower_lower (s : Text) : lower (lower s) = lower s := by
  simp [lower, List.map_map, Function.comp_def]

theorem Lowered.map {a : Option Text} (h : Lowered a) : a.map lower = a := by
  cases a with
  | none => rfl
  | some t => rw [Option.map_some, h t rfl]

theorem lowered_none : Lowered none := fun _ h => by cases h

theorem lowered_nullif {a : Option Text} (h : Lowered a) : Lowered (nullif a) := by
  intro t ht
  exact h t (Option.mem_filter_iff.mp ht).1

theorem addrFromTopic_lowered (topic : Text) : Lowered (addrFromTopic topic) := by
  intro a ha
  unfold addrFromTopic at ha
  cases hhex : stripPrefix0x topic with
  | none => simp [hhex] at ha
  | some hex =>
    simp only [hhex, Option.bind_eq_bind, Option.bind_some] at ha
    split_ifs at ha
    · cases ha
    · obtain rfl := Option.some.inj ha
      simp [lower, List.map_map, Function.comp_def]

theorem orField_ok {α : Type} {value : Option α} {field : Text} {a : α}
    (h : orField value field = .ok a) : value = some a := by
  cases value with
  | none => cases h
  | some b => rw [Except.ok.inj h]

theorem orField_addr_lowered {topic field a : Text} (h : orField (addrFromTopic topic) field = .ok a) :
    Lowered (some a) := orField_ok h ▸ addrFromTopic_lowered topic

theorem decodeLog_lowered {address data : Text} {topics : List Text} {block index time : ℤ}
    {e : AuthzEvent} (h : decodeLog address topics data block index time = .ok e) :
    Lowered e.operator := by
  unfold decodeLog at h
  split at h
  · dsimp only at h
    split_ifs at h
    · obtain ⟨-, -, h⟩ := bind_ok.mp h
      obtain ⟨tokenId, -, h⟩ := bind_ok.mp h
      obtain ⟨operator, hoperator, h⟩ := bind_ok.mp h
      cases h
      exact orField_addr_lowered hoperator
    · obtain ⟨-, -, h⟩ := bind_ok.mp h
      obtain ⟨tokenId, -, h⟩ := bind_ok.mp h
      obtain ⟨operator, hoperator, h⟩ := bind_ok.mp h
      cases h
      exact orField_addr_lowered hoperator
    · obtain ⟨-, -, h⟩ := bind_ok.mp h
      obtain ⟨tokenId, -, h⟩ := bind_ok.mp h
      cases h
      exact lowered_none
    · obtain ⟨-, -, h⟩ := bind_ok.mp h
      obtain ⟨account, -, h⟩ := bind_ok.mp h
      obtain ⟨operator, hoperator, h⟩ := bind_ok.mp h
      obtain ⟨approved, -, h⟩ := bind_ok.mp h
      cases h
      exact orField_addr_lowered hoperator
    · obtain ⟨-, -, h⟩ := bind_ok.mp h
      obtain ⟨account, -, h⟩ := bind_ok.mp h
      obtain ⟨operator, hoperator, h⟩ := bind_ok.mp h
      obtain ⟨approved, -, h⟩ := bind_ok.mp h
      cases h
      exact orField_addr_lowered hoperator
  · cases h

theorem readLog_lowered {log : RpcLog} {e : AuthzEvent} (h : readLog log = .ok (some e)) :
    Lowered e.operator := by
  unfold readLog at h
  split at h
  · cases h
  · split at h
    · cases h
    · dsimp only at h
      split at h
      · rename_i event hevent
        cases h
        exact decodeLog_lowered hevent
      · cases h
      · cases h

/-! ### What the tables hold -/

def Decoded (table : EventTable) : Prop :=
  ∀ (k : Position) (e : AuthzEvent), table[k]? = some e → Lowered e.operator

structure RowOk (key : TokenKey) (row : TokenRight) : Prop where
  x : tokenX (ofLex key).2 = some row.x
  y : tokenY (ofLex key).2 = some row.y
  operator : Lowered row.operator
  updateOperator : Lowered row.updateOperator

structure Written (db : Db) : Prop where
  events : Decoded db.index.authzEvent
  token : ∀ key row, db.tokenRight[key]? = some row → RowOk key row
  account : ∀ key row, db.accountRight[key]? = some row → lower (grantee key) = grantee key

theorem insertEvents_decoded {table : EventTable} {logs : List RpcLog} {events : List AuthzEvent}
    (h : Decoded table) (hread : readLogs logs = .ok events) (written : Option ℕ) :
    Decoded (insertEvents table written events).1 := by
  intro k e hk
  obtain ⟨sent, htable, hsent, -⟩ := insertEvents_table table written events
  rw [htable, find_insertChunk] at hk
  cases hold : table[k]? with
  | some e' =>
    rw [hold, Option.some_or] at hk
    obtain rfl := Option.some.inj hk
    exact h k e' hold
  | none =>
    rw [hold, Option.none_or] at hk
    obtain ⟨log, -, hlog⟩ := (mem_readLogs hread e).mp (hsent e (List.mem_of_find?_eq_some hk))
    exact readLog_lowered hlog

theorem sync_decoded {index : Index} (h : Decoded index.authzEvent) (start stop : ℕ)
    (turns : List Turn) : Decoded (sync index start stop turns).1.authzEvent := by
  induction turns generalizing index start with
  | nil => exact h
  | cons turn turns ih =>
    unfold sync
    split_ifs
    · split
      · exact h
      · split
        · exact h
        · rename_i events hread
          have hinsert := insertEvents_decoded h hread turn.written
          dsimp only
          split_ifs
          · exact ih hinsert _
          · exact hinsert
    · exact h

theorem Decoded.lowered {table : EventTable} (h : Decoded table) {e : AuthzEvent}
    (he : e ∈ table.events) : Lowered e.operator := by
  obtain ⟨k, hk⟩ := (mem_events _ e).mp he
  exact h k e hk

theorem lowered_latest {kind : Kind} {events : List AuthzEvent}
    (h : ∀ e ∈ events, Lowered e.operator) (key : TokenKey) :
    Lowered ((latestOf kind events key).bind (operatorIn kind)) := by
  cases hlast : latestOf kind events key with
  | none => exact lowered_none
  | some e =>
    rw [Option.bind_some, operatorIn]
    split_ifs
    · exact h e (latest_some hlast).1
    · exact lowered_none

theorem tokenRow_ok {events : List AuthzEvent} (h : ∀ e ∈ events, Lowered e.operator)
    {key : TokenKey} {row : TokenRight} (hrow : tokenRow events key = some row) : RowOk key row := by
  unfold tokenRow at hrow
  cases hx : tokenX (ofLex key).2 with
  | none => simp [hx] at hrow
  | some x =>
    cases hy : tokenY (ofLex key).2 with
    | none => simp [hx, hy] at hrow
    | some y =>
      simp only [hx, hy, Option.bind_eq_bind, Option.bind_some, Option.pure_def,
        Option.some.injEq] at hrow
      subst hrow
      exact ⟨hx, hy, lowered_nullif (lowered_latest h key), lowered_nullif (lowered_latest h key)⟩

theorem accountRow_grantee {events : List AuthzEvent} (h : ∀ e ∈ events, Lowered e.operator)
    {key : AccountKey} {row : AccountRight} (hrow : accountRow events key = some row) :
    lower (grantee key) = grantee key := by
  obtain ⟨e, hlast, -⟩ := Option.map_eq_some_iff.mp hrow
  obtain ⟨he, hkey⟩ := latest_some hlast
  have hof := of_decide_eq_true hkey
  unfold AuthzEvent.accountKey at hof
  split_ifs at hof
  obtain ⟨account, -, hof⟩ := Option.bind_eq_some_iff.mp hof
  obtain ⟨operator, hoperator, rfl⟩ := Option.map_eq_some_iff.mp hof
  exact h e he operator hoperator

theorem Written.fold {db : Db} (h : Written db) (tokensDone accountsDone : Bool) :
    Written (LandAuthz.fold db tokensDone accountsDone).1 := by
  have hevents : ∀ e ∈ db.index.authzEvent.events, Lowered e.operator := fun e he =>
    h.events.lowered he
  unfold LandAuthz.fold
  dsimp only
  split
  · exact h
  · rename_i rights hrights
    unfold foldToken at hrights
    split_ifs at hrights
    obtain rfl := Option.some.inj hrights
    have htoken : ∀ key row, (db.tokenRight.upsert (tokenKeys db.index.authzEvent.events)
        (tokenRow db.index.authzEvent.events))[key]? = some row → RowOk key row := by
      intro key row hrow
      rw [OrdMap.find_upsert] at hrow
      split_ifs at hrow
      · rcases Option.or_eq_some_iff.mp hrow with hnew | ⟨-, hold⟩
        · exact tokenRow_ok hevents hnew
        · exact h.token key row hold
      · exact h.token key row hrow
    have haccount : ∀ key row, (foldAccount db.index.authzEvent.events db.accountRight)[key]? =
        some row → lower (grantee key) = grantee key := by
      intro key row hrow
      rw [foldAccount, OrdMap.find_upsert] at hrow
      split_ifs at hrow
      · rcases Option.or_eq_some_iff.mp hrow with hnew | ⟨-, hold⟩
        · exact accountRow_grantee hevents hnew
        · exact h.account key row hold
      · exact h.account key row hrow
    split_ifs
    · exact ⟨h.events, htoken, haccount⟩
    · exact ⟨h.events, htoken, h.account⟩
    · exact h

theorem empty_written : Written emptyDb where
  events k e h := by simp [emptyDb, emptyIndex] at h
  token key row h := by simp [emptyDb] at h
  account key row h := by simp [emptyDb] at h

theorem mains_written (calls : List Call) : Written (mains emptyDb calls) :=
  mains_keep (fun _ stop turns h => ⟨sync_decoded h.events _ stop turns, h.token, h.account⟩)
    (fun _ tokensDone accountsDone h => h.fold tokensDone accountsDone) empty_written calls

/-! ### The parcels one may update -/

namespace Store

variable (s : Store)

/-- The row of a parcel in the list of those one may update. -/
def updatable (p : Parcel) : UpdatableParcel :=
  let own := (s.parcelRight p).bind TokenRight.updateOperator
  let owner :=
    if own = none then ((s.estateOf p).bind Estate.ownerId).map ownerOf else p.ownerId.map ownerOf
  { tokenId := p.tokenId
    x := p.x
    y := p.y
    owner := lower (owner.getD [])
    viaEstate := decide (own = none) }

variable {s}

theorem subjectOf_updateOperator (hwritten : Written s.db) (p : Parcel) :
    (s.subjectOf p).updateOperator =
      ((s.parcelRight p).bind TokenRight.updateOperator).or
        ((s.estateRight p).bind TokenRight.updateOperator) := by
  have hlow : ∀ key : TokenKey, Lowered ((s.db.tokenRight[key]?).bind TokenRight.updateOperator) := by
    intro key
    cases hrow : s.db.tokenRight[key]? with
    | none => exact lowered_none
    | some row => exact (hwritten.token key row hrow).updateOperator
  have hestate : (if p.estateId = none then none
      else (s.estateRight p).bind TokenRight.updateOperator) =
        (s.estateRight p).bind TokenRight.updateOperator := by
    split_ifs with hnone
    · simp [estateRight, estateOf, hnone]
    · rfl
  have hboth : Lowered (((s.parcelRight p).bind TokenRight.updateOperator).or
      ((s.estateRight p).bind TokenRight.updateOperator)) := by
    intro a ha
    rcases Option.or_eq_some_iff.mp ha with hown | ⟨-, hvia⟩
    · exact hlow _ a hown
    · obtain ⟨row, hrow, hop⟩ := Option.bind_eq_some_iff.mp hvia
      obtain ⟨e, -, hfind⟩ := Option.bind_eq_some_iff.mp hrow
      exact hlow _ a (Option.bind_eq_some_iff.mpr ⟨row, hfind, hop⟩)
  simp only [subjectOf, hestate]
  exact hboth.map

theorem mem_own (hwritten : Written s.db) (address : Text) (u : UpdatableParcel) :
    u ∈ s.parcelsWithUpdateOperator address ↔
      ∃ p ∈ s.squid.parcel,
        (s.parcelRight p).bind TokenRight.updateOperator = some (lower address) ∧
          u = s.updatable p := by
  have hrow : ∀ p ∈ s.squid.parcel, ∀ row, s.parcelRight p = some row →
      row.updateOperator = some (lower address) → s.updatable p =
        ⟨p.tokenId, row.x, row.y, lower ((p.ownerId.map ownerOf).getD []), false⟩ := by
    intro p hp row hright hop
    obtain ⟨-, hx, hy⟩ := s.squid.coordinates p hp
    have hok := hwritten.token _ row hright
    have hpx : p.x = row.x := Option.some.inj (hx.symm.trans hok.x)
    have hpy : p.y = row.y := Option.some.inj (hy.symm.trans hok.y)
    simp only [updatable, hright, Option.bind_some, hop, reduceCtorEq, if_false, decide_false, hpx, hpy]
  simp only [parcelsWithUpdateOperator, List.mem_flatMap, List.mem_map, List.mem_filter,
    decide_eq_true_eq]
  constructor
  · rintro ⟨⟨key, row⟩, ⟨hin, hland, hop⟩, p, ⟨hp, hid⟩, rfl⟩
    have hright : s.parcelRight p = some row := by
      rw [parcelRight, hid, ← hland]
      exact (OrdMap.mem_entries _ key row).mp hin
    refine ⟨p, hp, ?_, ?_⟩
    · rw [hright, Option.bind_some, hop]
    · rw [hrow p hp row hright hop, hid]
  · rintro ⟨p, hp, hop, rfl⟩
    obtain ⟨row, hright, hop⟩ := Option.bind_eq_some_iff.mp hop
    exact ⟨(toLex (s.landRegistry, p.tokenId), row),
      ⟨(OrdMap.mem_entries _ _ row).mpr hright, rfl, hop⟩, p, ⟨hp, rfl⟩,
      (hrow p hp row hright hop).symm⟩

theorem mem_estates (address : Text) (u : UpdatableParcel) :
    u ∈ s.parcelsOfEstates address ↔
      ∃ p ∈ s.squid.parcel, (s.parcelRight p).bind TokenRight.updateOperator = none ∧
        (s.estateRight p).bind TokenRight.updateOperator = some (lower address) ∧
          u = s.updatable p := by
  have hrow : ∀ p e, s.estateOf p = some e →
      (s.parcelRight p).bind TokenRight.updateOperator = none → s.updatable p =
        ⟨p.tokenId, p.x, p.y, lower ((e.ownerId.map ownerOf).getD []), true⟩ := by
    intro p e hestate hnone
    simp only [updatable, hnone, hestate, if_true, Option.bind_some, decide_true]
  simp only [parcelsOfEstates, List.mem_flatMap, List.mem_map, List.mem_filter, decide_eq_true_eq]
  constructor
  · rintro ⟨⟨key, row⟩, ⟨hin, hregistry, hop⟩, ⟨id, e⟩, ⟨he, hid⟩, p, ⟨hp, hpid, hnone⟩, rfl⟩
    have hestate : s.estateOf p = some e := by
      rw [estateOf, hpid, Option.bind_some]
      exact (OrdMap.mem_entries _ id e).mp he
    refine ⟨p, hp, hnone, ?_, (hrow p e hestate hnone).symm⟩
    have hright : s.estateRight p = some row := by
      rw [estateRight, hestate, Option.bind_some, hid, ← hregistry]
      exact (OrdMap.mem_entries _ key row).mp hin
    rw [hright, Option.bind_some, hop]
  · rintro ⟨p, hp, hnone, hop, rfl⟩
    obtain ⟨row, hright, hop⟩ := Option.bind_eq_some_iff.mp hop
    obtain ⟨e, hestate, hfind⟩ := Option.bind_eq_some_iff.mp hright
    obtain ⟨id, hpid, he⟩ := Option.bind_eq_some_iff.mp hestate
    exact ⟨(toLex (s.estateRegistry, e.tokenId), row),
      ⟨(OrdMap.mem_entries _ _ row).mpr hfind, rfl, hop⟩, (id, e),
      ⟨(OrdMap.mem_entries _ id e).mpr he, rfl⟩, p, ⟨hp, hpid, hnone⟩,
      (hrow p e hestate hnone).symm⟩

theorem mem_updatable (address : Text) (u : UpdatableParcel) :
    u ∈ s.parcelsUpdatableBy address ↔
      u ∈ s.parcelsWithUpdateOperator address ∨ u ∈ s.parcelsOfEstates address := by
  simp [parcelsUpdatableBy]

end Store

/-- After any runs, the parcels that an address may update are those whose own update operator, or
that of whose estate where there is none, is the address; the direct lookup has those that do not
come by an estate. -/
theorem updatable_iff_subject (calls : List Call) (squid : Squid) (land estate address : Text)
    (u : UpdatableParcel) :
    (u ∈ (Store.mk squid (mains emptyDb calls) land estate).parcelsUpdatableBy address ↔
      ∃ p ∈ squid.parcel,
        ((Store.mk squid (mains emptyDb calls) land estate).subjectOf p).updateOperator =
          some (lower address) ∧
        u = (Store.mk squid (mains emptyDb calls) land estate).updatable p) ∧
    (u ∈ (Store.mk squid (mains emptyDb calls) land estate).parcelsWithUpdateOperator address ↔
      u ∈ (Store.mk squid (mains emptyDb calls) land estate).parcelsUpdatableBy address ∧
        u.viaEstate = false) := by
  have hwritten : Written (Store.mk squid (mains emptyDb calls) land estate).db :=
    mains_written calls
  rw [Store.mem_updatable, Store.mem_own hwritten, Store.mem_estates]
  refine ⟨?_, ?_⟩
  · constructor
    · rintro (⟨p, hp, hop, rfl⟩ | ⟨p, hp, hnone, hop, rfl⟩)
      · refine ⟨p, hp, ?_, rfl⟩
        rw [Store.subjectOf_updateOperator hwritten, hop, Option.some_or]
      · refine ⟨p, hp, ?_, rfl⟩
        rw [Store.subjectOf_updateOperator hwritten, hnone, Option.none_or, hop]
    · rintro ⟨p, hp, hop, rfl⟩
      rw [Store.subjectOf_updateOperator hwritten] at hop
      rcases Option.or_eq_some_iff.mp hop with hown | ⟨hnone, hvia⟩
      · exact .inl ⟨p, hp, hown, rfl⟩
      · exact .inr ⟨p, hp, hnone, hvia, rfl⟩
  · constructor
    · rintro ⟨p, hp, hop, rfl⟩
      exact ⟨.inl ⟨p, hp, hop, rfl⟩, by simp [Store.updatable, hop]⟩
    · rintro ⟨hown | ⟨p, hp, hnone, hop, rfl⟩, hvia⟩
      · exact hown
      · simp [Store.updatable, hnone] at hvia

/-! ### Who may deploy -/

/-- What the contracts' grants allow on a parcel: the estate's operator where the parcel is in one,
the parcel's own update operator before the estate's, and what the holder granted to operators of
everything it holds. -/
inductive Allowed (s : Store) (g : Grants) (address : Text) (p : Parcel) : Prop where
  | owner (h : (ownershipOf s.squid p).ownedBy address = true)
  | operator (h : (if p.estateId = none then g.operator (toLex (s.landRegistry, p.tokenId))
      else (s.estateOf p).bind fun e => g.operator (toLex (s.estateRegistry, e.tokenId))) =
        some (lower address))
  | updateOperator (h : ((g.updateOperator (toLex (s.landRegistry, p.tokenId))).or
      ((s.estateOf p).bind fun e => g.updateOperator (toLex (s.estateRegistry, e.tokenId)))) =
        some (lower address))
  | account (kind : Kind) (hkind : kind = .updateManager ∨ kind = .approvedForAll)
      (h : g.approved (accountKeyOf (s.subjectOf p).registry (s.subjectOf p).owner (lower address)
        kind.text) = true)

theorem any_lower {a : Option Text} (h : Lowered a) (address : Text) :
    (a.any fun o => decide (lower address = lower o)) = true ↔ a = some (lower address) := by
  cases a with
  | none => simp
  | some o =>
    rw [Option.any_some, decide_eq_true_eq, h o rfl, Option.some_inj]
    exact eq_comm

theorem any_accountGrants {s : Store} (hwritten : Written s.db) (registry owner kind address : Text) :
    ((s.accountGrants registry owner kind).any fun a => decide (lower a = lower address)) = true ↔
      ((s.db.accountRight[accountKeyOf registry (lower owner) (lower address) kind]?).map
        AccountRight.isApproved).getD false = true := by
  simp only [Store.accountGrants, List.any_eq_true, List.mem_map, List.mem_filter,
    Bool.and_eq_true, decide_eq_true_eq]
  constructor
  · rintro ⟨-, ⟨⟨key, row⟩, ⟨hin, hkey, happroved⟩, rfl⟩, hlower⟩
    have hfind := (OrdMap.mem_entries _ key row).mp hin
    rw [hwritten.account key row hfind] at hlower
    have heq : key = accountKeyOf registry (lower owner) (lower address) kind :=
      hkey.trans (congrArg (accountKeyOf registry (lower owner) · kind) hlower)
    rw [← heq, hfind]
    exact happroved
  · intro hget
    cases hfind : s.db.accountRight[accountKeyOf registry (lower owner) (lower address) kind]? with
    | none => simp [hfind] at hget
    | some row =>
      rw [hfind] at hget
      exact ⟨lower address, ⟨(_, row), ⟨(OrdMap.mem_entries _ _ row).mpr hfind, rfl, hget⟩, rfl⟩,
        lower_lower address⟩

theorem subjectOf_operator {s : Store} (hwritten : Written s.db) (p : Parcel) :
    (s.subjectOf p).operator =
      if p.estateId = none then (s.parcelRight p).bind TokenRight.operator
      else (s.estateRight p).bind TokenRight.operator := by
  have hlow : ∀ key : TokenKey, Lowered ((s.db.tokenRight[key]?).bind TokenRight.operator) := by
    intro key
    cases hrow : s.db.tokenRight[key]? with
    | none => exact lowered_none
    | some row => exact (hwritten.token key row hrow).operator
  have hboth : Lowered (if p.estateId = none then (s.parcelRight p).bind TokenRight.operator
      else (s.estateRight p).bind TokenRight.operator) := by
    split_ifs
    · exact hlow _
    · intro a ha
      obtain ⟨row, hrow, hop⟩ := Option.bind_eq_some_iff.mp ha
      obtain ⟨e, -, hfind⟩ := Option.bind_eq_some_iff.mp hrow
      exact hlow _ a (Option.bind_eq_some_iff.mpr ⟨row, hfind, hop⟩)
  simp only [Store.subjectOf]
  exact hboth.map

/-- The tables hold what is granted. -/
structure Holds (db : Db) (g : Grants) : Prop where
  operator : ∀ key, (db.tokenRight[key]?).bind TokenRight.operator = g.operator key
  updateOperator : ∀ key, (db.tokenRight[key]?).bind TokenRight.updateOperator = g.updateOperator key
  approved : ∀ key, ((db.accountRight[key]?).map AccountRight.isApproved).getD false = g.approved key

theorem checkParcelAccess_iff {s : Store} {g : Grants} {p : Parcel} (hwritten : Written s.db)
    (hholds : Holds s.db g) (hp : p ∈ s.squid.parcel) (address : Text) :
    checkParcelAccess s.squid (some (s.resolver fun _ _ => none)) address p.x p.y = true ↔
      Allowed s g address p := by
  have hsubject : s.parcelSubject p.x p.y = some (s.subjectOf p) := by
    rw [Store.parcelSubject, Squid.find_place hp, Option.map_some]
  have howner : parcelOwnership s.squid p.x p.y = some (ownershipOf s.squid p) := by
    rw [parcelOwnership, Squid.find_place hp, Option.map_some]
  have hupdate := Store.subjectOf_updateOperator hwritten p
  have hoperator := subjectOf_operator hwritten p
  have hlow : lower (s.subjectOf p).owner = (s.subjectOf p).owner := lower_lower _
  have hopLow : Lowered (s.subjectOf p).operator := by
    intro a ha
    obtain ⟨b, -, rfl⟩ := Option.map_eq_some_iff.mp ha
    exact lower_lower b
  have hupLow : Lowered (s.subjectOf p).updateOperator := by
    intro a ha
    obtain ⟨b, -, rfl⟩ := Option.map_eq_some_iff.mp ha
    exact lower_lower b
  have hlegs : (operatorLegs (some (s.resolver fun _ _ => none)) address p.x p.y).grantsDeploy =
      true ↔ (s.subjectOf p).operator = some (lower address) ∨
        (s.subjectOf p).updateOperator = some (lower address) ∨
        ∃ kind, (kind = Kind.updateManager ∨ kind = Kind.approvedForAll) ∧
          g.approved (accountKeyOf (s.subjectOf p).registry (s.subjectOf p).owner (lower address)
            kind.text) = true := by
    simp only [operatorLegs, Store.resolver, Store.operators, hsubject, Option.map_some,
      operatorFlags, ParcelPermissionFlags.grantsDeploy_eq, Bool.false_or, Bool.or_eq_true,
      any_lower hopLow, any_lower hupLow, any_accountGrants hwritten, hlow, hholds.approved,
      exists_eq_or_imp, exists_eq_left, or_assoc]
  have hestate : ∀ f : TokenRight → Option Text, (s.estateRight p).bind f =
      (s.estateOf p).bind fun e =>
        (s.db.tokenRight[(toLex (s.estateRegistry, e.tokenId) : TokenKey)]?).bind f := by
    intro f
    rw [Store.estateRight, Option.bind_assoc]
  rw [hoperator, hupdate, hestate, hestate, Store.parcelRight] at hlegs
  simp only [hholds.operator, hholds.updateOperator] at hlegs
  rw [checkParcelAccess, howner, Option.any_some]
  split_ifs with howned
  · exact iff_of_true rfl (.owner howned)
  · rw [hlegs]
    constructor
    · rintro (hop | hup | ⟨kind, hkind, happroved⟩)
      · exact .operator hop
      · exact .updateOperator hup
      · exact .account kind hkind happroved
    · intro h
      cases h with
      | owner h => exact absurd h howned
      | operator h => exact .inl h
      | updateOperator h => exact .inr (.inl h)
      | account kind hkind h => exact .inr (.inr ⟨kind, hkind, h⟩)

/-- After a run of the indexer that completes, whatever broke off the runs before it, an address may
deploy on a parcel if and only if it owns it or the chain's events up to the block of the run, taken
in order, leave it a right. -/
theorem access_replays_chain {chain : List RpcLog} {calls : List Call} {call : Call}
    {events : List AuthzEvent} (hdistinct : Distinct chain)
    (hcalls : ∀ c ∈ calls ++ [call], Honest chain c.turns) (hstop : ∀ c ∈ calls, c.stop ≤ call.stop)
    (hdone : (main (mains emptyDb calls) call).2 = true)
    (hsorted : events.Pairwise fun e e' => e.position < e'.position)
    (hevents : ∀ e, e ∈ events ↔ FromChain chain call.stop e) {s : Store}
    (hs : s.db = (main (mains emptyDb calls) call).1) {p : Parcel} (hp : p ∈ s.squid.parcel)
    (address : Text) :
    checkParcelAccess s.squid (some (s.resolver fun _ _ => none)) address p.x p.y = true ↔
      Allowed s (granted events) address p := by
  obtain ⟨htoken, haccount⟩ := mains_rights hdistinct hcalls hstop hdone hsorted hevents
  have hlast : (main (mains emptyDb calls) call).1 = mains emptyDb (calls ++ [call]) := by
    rw [mains, mains, List.foldl_append, List.foldl_cons, List.foldl_nil]
  have hwritten : Written s.db := by
    rw [hs, hlast]
    exact mains_written (calls ++ [call])
  refine checkParcelAccess_iff hwritten ?_ hp address
  rw [hs]
  exact ⟨fun key => (htoken key).1, fun key => (htoken key).2, haccount⟩

def operatorParcel : Parcel := ⟨7, 0, 7, some "0xcc-ETHEREUM".toList, none⟩

def operatorStore : Store where
  squid := {
    parcel := [operatorParcel]
    estate := ∅
    distinct := by decide
    coordinates := by decide }
  db := (main (mains emptyDb brokenCalls) lastCall).1
  landRegistry := LAND_REGISTRY_MAINNET
  estateRegistry := ESTATE_REGISTRY_MAINNET

theorem access_replays_chain_operators :
    checkParcelAccess operatorStore.squid (some (operatorStore.resolver fun _ _ => none))
        ("0x".toList ++ List.replicate 40 'B') 0 7 = true ↔
      Allowed operatorStore (granted [operatorEvent 5808078 'a', operatorEvent 5808128 'b'])
        ("0x".toList ++ List.replicate 40 'B') operatorParcel :=
  @access_replays_chain operatorLogs brokenCalls lastCall
    [operatorEvent 5808078 'a', operatorEvent 5808128 'b'] (distinct_of_blocks (by decide))
    (fun c hc => honest_of_answers (by
      simp only [brokenCalls, lastCall, List.cons_append, List.nil_append, List.mem_cons,
        List.not_mem_nil, or_false] at hc
      rcases hc with rfl | rfl | rfl
      · simp
      · simp
      · simp))
    (by decide) (by decide +kernel) (by decide) fromChain_operatorLogs operatorStore rfl
    operatorParcel (List.mem_singleton_self operatorParcel) ("0x".toList ++ List.replicate 40 'B')

end Catalyrst.LandAuthz
