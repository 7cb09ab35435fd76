import Mathlib
import Catalyrst.Content.FlushBatch

/-!
# Sync deployments converge

A flush keeps the database resolved in the order of its statements: exactly the
entities without a stored follower are active. Which entity of a batch a pointer
goes to is decided in Rust, and in Rust's order. Where the two orders agree on what
comes last, the database after any batches is a function of the entities they held,
in whatever order and however cut.
-/

namespace Catalyrst.Content

open Catalyrst.Lib

variable {loc : Locale}

theorem oldest_mem {ds : List Deployment} {o : Deployment} (h : oldest loc ds = some o) :
    o ∈ ds := by
  induction ds generalizing o with
  | nil => cases h
  | cons d ds ih =>
    unfold oldest at h
    cases hr : oldest loc ds with
    | none =>
      rw [hr] at h
      rw [← Option.some.inj h]
      exact List.mem_cons_self
    | some c =>
      rw [hr] at h
      dsimp only at h
      split at h
      · exact List.mem_cons_of_mem _ (ih (hr.trans h))
      · rw [← Option.some.inj h]
        exact List.mem_cons_self

theorem oldest_eq_none {ds : List Deployment} (h : oldest loc ds = none) : ds = [] := by
  cases ds with
  | nil => rfl
  | cons d ds =>
    unfold oldest at h
    cases hr : oldest loc ds <;> rw [hr] at h <;> dsimp only at h
    · cases h
    · split at h <;> cases h

section Updates

variable {db : Database} {batch : List (ℕ × Entity)} {ids : List ℕ} {d : Deployment}

/-- A row that follows `d` has another id, so the statements' tests of the id are idle. -/
theorem id_ne_of_follows {c d : Deployment} (h : c.entity.Follows loc.collate d.entity)
    (hc : c ∈ db.deployments) (hd : d ∈ db.deployments) : c.id ≠ d.id := by
  intro he
  rw [Database.eq_of_id hc hd he] at h
  exact Entity.follows_irrefl h

theorem newerId_eq_none (hd : d ∈ db.deployments) :
    newerId loc db d = none ↔ Stands (Entity.Follows loc.collate) db.entities d.entity := by
  constructor
  · rintro h _ ⟨c, hc, rfl⟩ hf
    have hnil := oldest_eq_none (Option.map_eq_none_iff.mp h)
    have hmem : c ∈ db.deployments.filter fun x =>
        x.entity.Follows loc.collate d.entity ∧ x.id ≠ d.id :=
      List.mem_filter.mpr ⟨hc, by simpa using ⟨hf, id_ne_of_follows hf hc hd⟩⟩
    rw [hnil] at hmem
    cases hmem
  · intro h
    refine Option.map_eq_none_iff.mpr ?_
    cases ho : oldest loc (db.deployments.filter fun x =>
      x.entity.Follows loc.collate d.entity ∧ x.id ≠ d.id) with
    | none => rfl
    | some o =>
      obtain ⟨hmem, hf⟩ := List.mem_filter.mp (oldest_mem ho)
      exact absurd (of_decide_eq_true hf).1 (h _ (Database.entity_mem hmem))

theorem newerRows_eq_nil (hbatch : ∀ row ∈ batch, ⟨row.1, row.2, none⟩ ∈ db.deployments)
    (hd : d ∈ db.deployments) :
    newerRows loc batch d = [] ↔ ∀ row ∈ batch, ¬ row.2.Follows loc.collate d.entity := by
  simp only [newerRows, List.map_eq_nil_iff, List.filter_eq_nil_iff, decide_eq_true_eq, not_and]
  refine forall₂_congr fun row hrow => ?_
  constructor
  · intro h hf
    exact h hf (id_ne_of_follows hf (hbatch row hrow) hd).symm
  · intro h hf
    exact absurd hf h

theorem olderDeleter_eq_none (choice : JoinChoice)
    (hbatch : ∀ row ∈ batch, ⟨row.1, row.2, none⟩ ∈ db.deployments) (hd : d ∈ db.deployments) :
    olderDeleter loc choice batch d = none ↔
      d.deleterDeployment = none ∧ ∀ row ∈ batch, ¬ row.2.Follows loc.collate d.entity := by
  rw [← newerRows_eq_nil hbatch hd]
  unfold olderDeleter
  split
  · rename_i h
    simp [h.2]
  · rename_i h
    constructor
    · intro hn
      exact ⟨hn, not_not.mp fun hne => h ⟨hn, hne⟩⟩
    · exact And.left

theorem olderDeleter_mem (choice : JoinChoice) {i : ℕ} (hd : d.deleterDeployment = none)
    (h : olderDeleter loc choice batch d = some i) : i ∈ batch.map Prod.fst := by
  unfold olderDeleter at h
  split at h
  · rename_i hn
    rw [← Option.some.inj h]
    have hpick := choice.pick_mem d _ hn.2
    obtain ⟨row, hrow, hid⟩ := List.mem_map.mp hpick
    exact List.mem_map.mpr ⟨row, (List.mem_filter.mp hrow).1, hid⟩
  · rw [hd] at h
    cases h

theorem freshDeleter_eq_none (hd : d ∈ db.deployments) :
    freshDeleter loc ids db d = none ↔ d.deleterDeployment = none ∧
      (d.id ∈ ids → Stands (Entity.Follows loc.collate) db.entities d.entity) := by
  rw [← newerId_eq_none hd]
  unfold freshDeleter
  cases newerId loc db d with
  | none => simp
  | some newer =>
    by_cases hi : d.id ∈ ids
    · by_cases hn : d.deleterDeployment = none <;> simp [hi, hn]
    · simp [hi]

theorem freshDeleter_of_not_mem (h : d.id ∉ ids) : freshDeleter loc ids db d = d.deleterDeployment := by
  unfold freshDeleter
  cases newerId loc db d <;> simp [h]

/-- A row survives both `UPDATE`s when no row of the batch follows it and, if it is of
the batch itself, no stored row does. -/
theorem overwritten_active (choice : JoinChoice)
    (hbatch : ∀ row ∈ batch, ⟨row.1, row.2, none⟩ ∈ db.deployments) (hd : d ∈ db.deployments) :
    (overwriteFresh loc ids (overwriteOlder loc choice batch db)).Active d.entity ↔
      (d.deleterDeployment = none ∧ ∀ row ∈ batch, ¬ row.2.Follows loc.collate d.entity) ∧
        (d.id ∈ ids → Stands (Entity.Follows loc.collate) db.entities d.entity) := by
  have hd2 : { d with deleterDeployment := olderDeleter loc choice batch d } ∈
      (overwriteOlder loc choice batch db).deployments := Database.mem_setDeleter.mpr ⟨d, hd, rfl⟩
  have hset := Database.setDeleter_active (freshDeleter loc ids (overwriteOlder loc choice batch db)) hd2
  rw [freshDeleter_eq_none hd2, olderDeleter_eq_none choice hbatch hd, overwriteOlder,
    Database.setDeleter_entities] at hset
  exact hset

end Updates

/-- What the insert and the two `UPDATE`s leave: old entities are compared with the new
ones, new entities with all of them, and what the batch overwrote carries its mark. -/
structure Overwritten (loc : Locale) (batch : List (ℕ × Entity)) (db db' : Database) : Prop where
  entities : db'.entities = db.entities ∪ {e | e ∈ batch.map Prod.snd}
  pointers : db'.activePointers = db.activePointers
  active_old : ∀ e ∈ db.entities, db'.Active e ↔
    db.Active e ∧ Stands (Entity.Follows loc.collate) {e | e ∈ batch.map Prod.snd} e
  active_new : ∀ e ∈ batch.map Prod.snd,
    db'.Active e ↔ Stands (Entity.Follows loc.collate) db'.entities e
  marked : ∀ d ∈ db'.deployments, db.Active d.entity → ∀ i ∈ d.deleterDeployment,
    i ∈ batch.map Prod.fst

section Overwrite

variable {es : List Entity} {db db' : Database} {rows : List (EntityId × ℕ)}
  {new : List Deployment} {batch : List (ℕ × Entity)}

theorem Inserted.entities (h : Inserted es db db' rows new)
    (hbatch : ∀ i e, (i, e) ∈ batch ↔ (⟨i, e, none⟩ : Deployment) ∈ new) :
    db'.entities = db.entities ∪ {e | e ∈ batch.map Prod.snd} := by
  ext e
  constructor
  · rintro ⟨d, hd, rfl⟩
    rw [h.deployments] at hd
    rcases List.mem_append.mp hd with hd | hd
    · exact Or.inl (Database.entity_mem hd)
    · refine Or.inr (List.mem_map.mpr ⟨(d.id, d.entity), ?_, rfl⟩)
      rw [hbatch, ← h.undeleted d hd]
      exact hd
  · rintro (⟨d, hd, rfl⟩ | he)
    · refine ⟨d, ?_, rfl⟩
      rw [h.deployments]
      exact List.mem_append_left _ hd
    · obtain ⟨⟨i, e⟩, hrow, rfl⟩ := List.mem_map.mp he
      refine ⟨⟨i, e, none⟩, ?_, rfl⟩
      rw [h.deployments]
      exact List.mem_append_right _ ((hbatch i e).mp hrow)

/-- Rows that were there before do not carry an id of the batch. -/
theorem Inserted.old_id (h : Inserted es db db' rows new)
    (hbatch : ∀ i e, (i, e) ∈ batch ↔ (⟨i, e, none⟩ : Deployment) ∈ new)
    {d : Deployment} (hd : d ∈ db.deployments) : d.id ∉ batch.map Prod.fst := by
  intro hi
  obtain ⟨⟨i, e⟩, hrow, hid⟩ := List.mem_map.mp hi
  have hkey := db'.pkey
  rw [h.deployments, List.map_append] at hkey
  exact (List.nodup_append.mp hkey).2.2 _ (List.mem_map.mpr ⟨d, hd, rfl⟩) _
    (List.mem_map.mpr ⟨_, (hbatch i e).mp hrow, rfl⟩) hid.symm

theorem Inserted.not_stores (h : Inserted es db db' rows new) {d : Deployment} (hd : d ∈ new) :
    ¬ db.Stores d.entity.entityId := by
  rintro ⟨c, hc, hid⟩
  have hkey := db'.entityIdKey
  rw [h.deployments, List.map_append] at hkey
  exact (List.nodup_append.mp hkey).2.2 _ (List.mem_map.mpr ⟨c, hc, rfl⟩) _
    (List.mem_map.mpr ⟨d, hd, rfl⟩) hid

theorem Inserted.overwritten {loc : Locale} (h : Inserted es db db' rows new)
    (hmem : ∀ i e, (i, e) ∈ batch ↔ (⟨i, e, none⟩ : Deployment) ∈ new) (choice : JoinChoice) :
    Overwritten loc batch db
      (overwriteFresh loc (batch.map Prod.fst) (overwriteOlder loc choice batch db')) := by
  have hbatch : ∀ row ∈ batch, (⟨row.1, row.2, none⟩ : Deployment) ∈ db'.deployments := by
    intro row hrow
    rw [h.deployments]
    exact List.mem_append_right _ ((hmem _ _).mp hrow)
  have hold : ∀ d ∈ db.deployments, d ∈ db'.deployments := by
    intro d hd
    rw [h.deployments]
    exact List.mem_append_left _ hd
  have hents : (overwriteFresh loc (batch.map Prod.fst)
      (overwriteOlder loc choice batch db')).entities = db'.entities := by
    rw [overwriteFresh, Database.setDeleter_entities, overwriteOlder, Database.setDeleter_entities]
  have hnone : ∀ e, (∀ row ∈ batch, ¬ row.2.Follows loc.collate e) ↔
      Stands (Entity.Follows loc.collate) {e | e ∈ batch.map Prod.snd} e := by
    intro e
    simp only [Stands, Set.mem_ofPred_eq, List.mem_map, forall_exists_index, and_imp]
    constructor
    · rintro hf _ row hrow rfl
      exact hf row hrow
    · intro hf row hrow
      exact hf _ row hrow rfl
  refine ⟨hents.trans (h.entities hmem), h.pointers, ?_, ?_, ?_⟩
  · rintro _ ⟨d, hd, rfl⟩
    rw [overwritten_active choice hbatch (hold d hd), hnone, Database.active_entity hd]
    have hid := h.old_id hmem hd
    tauto
  · intro e he
    obtain ⟨⟨i, e⟩, hrow, rfl⟩ := List.mem_map.mp he
    have hi : i ∈ batch.map Prod.fst := List.mem_map.mpr ⟨_, hrow, rfl⟩
    have hactive : (overwriteFresh loc (batch.map Prod.fst)
        (overwriteOlder loc choice batch db')).Active e ↔ _ :=
      overwritten_active choice hbatch (hbatch _ hrow)
    rw [hents]
    refine hactive.trans ⟨fun hs => hs.2 hi, fun hs => ⟨⟨rfl, ?_⟩, fun _ => hs⟩⟩
    intro row hrow'
    exact hs _ (Database.entity_mem (hbatch row hrow'))
  · intro c hc hact i hi
    obtain ⟨b, hb, rfl⟩ := Database.mem_setDeleter.mp hc
    obtain ⟨a, ha, rfl⟩ := Database.mem_setDeleter.mp hb
    obtain ⟨d, hd, hent, hnone⟩ := hact
    -- the row was there before and carried no deleter
    obtain rfl : d = a := Database.eq_of_entityId (hold d hd) ha (congrArg _ hent)
    have hid : d.id ∉ batch.map Prod.fst := h.old_id hmem hd
    have hi' : freshDeleter loc (batch.map Prod.fst) (overwriteOlder loc choice batch db')
        { d with deleterDeployment := olderDeleter loc choice batch d } = some i := hi
    rw [freshDeleter_of_not_mem (d := { d with
      deleterDeployment := olderDeleter loc choice batch d }) hid] at hi'
    exact olderDeleter_mem choice hnone hi'

/-- Where the new entities compare alike under `key` and in the statements, the database stays
resolved. -/
theorem Overwritten.resolved {loc : Locale} {key : EntityId → Text}
    (h : Overwritten loc batch db db') (hdb : db.Resolved key)
    (halike : ∀ e ∈ batch.map Prod.snd, ∀ f ∈ db'.entities,
      (e.Follows loc.collate f ↔ e.Follows key f) ∧
        (f.Follows loc.collate e ↔ f.Follows key e)) :
    db'.Resolved key := by
  intro e he
  have hsplit := he
  rw [h.entities] at hsplit
  rcases hsplit with hold | hnew
  · rw [h.active_old e hold, hdb e hold, h.entities, stands_union]
    exact and_congr_right fun _ => stands_congr fun f hf => (halike f hf e he).1
  · rw [h.active_new e hnew]
    exact stands_congr fun f hf => (halike e hnew f hf).2

end Overwrite

section Pointers

variable {loc : Locale} {batch : List (ℕ × Entity)} {db db' : Database} {t : Text}

/-- In a resolved database of one type two active entities share no pointer. -/
theorem active_unique {e f : Entity} {p : Pointer} (hdb : db.Resolved loc.collate)
    (ht : db.OfType t) (he : db.Active e) (hf : db.Active f) (hpe : p ∈ e.pointers)
    (hpf : p ∈ f.pointers) : e = f := by
  refine ((hdb e he.mem).mp he).unique ((hdb f hf.mem).mp hf) he.mem hf.mem ?_
  refine Entity.follows_total ((ht e he.mem).trans (ht f hf.mem).symm) ⟨p, hpe, hpf⟩ fun hid => ?_
  exact Database.entity_eq_of_entityId he.mem hf.mem (loc.collate_injective hid)

theorem joinsActive_iff {e : Entity} (he : e ∈ db.entities) :
    joinsActive db e.entityId ↔ db.Active e := by
  constructor
  · rintro ⟨d, hd, hid, hnone⟩
    obtain rfl := Database.entity_eq_of_entityId (Database.entity_mem hd) he hid
    exact ⟨d, hd, rfl, hnone⟩
  · rintro ⟨d, hd, rfl, hnone⟩
    exact ⟨d, hd, rfl, hnone⟩

/-- Whoever holds a pointer is active and has it. -/
def HoldersActive (db : Database) : Prop :=
  ∀ p x, (db.activePointers p).map ActivePointer.entityId = some x →
    ∃ e, db.Active e ∧ e.entityId = x ∧ p ∈ e.pointers

/-- The `DELETE` takes the pointers of what the batch overwrote. -/
theorem Overwritten.holders_deleted (h : Overwritten loc batch db db') (hap : HoldersActive db) :
    HoldersActive (deleteOverwritten (batch.map Prod.fst) db') := by
  intro p x hx
  simp only [deleteOverwritten, Database.setPointers_activePointers, Option.map_eq_some_iff,
    Option.filter_eq_some_iff, decide_eq_true_eq, h.pointers] at hx
  obtain ⟨ap, ⟨hp, hstale⟩, rfl⟩ := hx
  obtain ⟨e, hact, hid, hpe⟩ := hap p ap.entityId (by rw [hp]; rfl)
  refine ⟨e, ?_, hid, hpe⟩
  obtain ⟨d, hd, rfl⟩ : e ∈ db'.entities := by
    rw [h.entities]
    exact Or.inl hact.mem
  refine (db'.active_entity hd).mpr ?_
  by_contra hne
  obtain ⟨i, hi⟩ := Option.ne_none_iff_exists'.mp hne
  refine hstale ⟨d, hd, hid, hne, Or.inl ?_⟩
  rw [hi, Option.any_some]
  exact decide_eq_true (h.marked d hd hact i hi)

/-- It leaves the pointers of what is active. -/
theorem deleteOverwritten_keeps {ids : List ℕ} {e : Entity} {p : Pointer} (he : db.Active e)
    (hp : (db.activePointers p).map ActivePointer.entityId = some e.entityId) :
    ((deleteOverwritten ids db).activePointers p).map ActivePointer.entityId =
      some e.entityId := by
  obtain ⟨ap, hap, hid⟩ := Option.map_eq_some_iff.mp hp
  simp only [deleteOverwritten, Database.setPointers_activePointers, Option.map_eq_some_iff,
    Option.filter_eq_some_iff, decide_eq_true_eq]
  refine ⟨ap, ⟨hap, ?_⟩, hid⟩
  rintro ⟨c, hc, hcid, hne, -⟩
  obtain ⟨d, hd, rfl, hnone⟩ := he
  obtain rfl := Database.eq_of_entityId hc hd (hcid.trans hid)
  exact hne hnone

/-- What the upsert writes at a pointer, unless it keeps the holder. -/
theorem upsertPointers_cases (loc : Locale) (m : ApDedup) (db : Database) (p : Pointer) :
    (upsertPointers loc m db).activePointers p = db.activePointers p ∨
      ∃ v, m p = some v ∧ joinsActive db v.1 ∧
        (upsertPointers loc m db).activePointers p = some ⟨v.1, some v.2.1⟩ := by
  simp only [upsertPointers, Database.setPointers_activePointers]
  cases hm : m p with
  | none => exact Or.inl rfl
  | some v =>
    dsimp only
    by_cases hj : joinsActive db v.1
    · rw [if_pos hj]
      cases db.activePointers p with
      | none => exact Or.inr ⟨v, rfl, hj, rfl⟩
      | some ap =>
        by_cases hn : holderIsNewer loc db ap.entityId v.1
        · exact Or.inl (if_pos hn)
        · exact Or.inr ⟨v, rfl, hj, if_neg hn⟩
    · exact Or.inl (if_neg hj)

/-- The entry of an active entity takes a pointer that nobody else holds. -/
theorem upsertPointers_takes {m : ApDedup} {p : Pointer} {v : EntityId × Text × ℚ}
    (hm : m p = some v) (hj : joinsActive db v.1)
    (hfree : ∀ ap ∈ db.activePointers p, ap.entityId = v.1) :
    ((upsertPointers loc m db).activePointers p).map ActivePointer.entityId = some v.1 := by
  simp only [upsertPointers, Database.setPointers_activePointers, hm, if_pos hj]
  cases hcur : db.activePointers p with
  | none => rfl
  | some ap =>
    have hid := hfree ap hcur
    dsimp only
    split <;> simp [hid]

end Pointers

section Flush

variable {loc : Locale} {db : Database}

theorem Database.Resolved.of_deployments {key : EntityId → Text} {db db' : Database}
    (h : db.Resolved key) (hd : db'.deployments = db.deployments) : db'.Resolved key := by
  have hents : db'.entities = db.entities := by
    simp only [Database.entities, hd]
  intro e he
  have hact : db'.Active e ↔ db.Active e := by
    simp only [Database.Active, hd]
  rw [hents] at he ⊢
  rw [hact]
  exact h e he

theorem Database.stores_iff {entityId : EntityId} :
    db.Stores entityId ↔ ∃ e ∈ db.entities, e.entityId = entityId := by
  constructor
  · rintro ⟨d, hd, hid⟩
    exact ⟨d.entity, Database.entity_mem hd, hid⟩
  · rintro ⟨_, ⟨d, hd, rfl⟩, hid⟩
    exact ⟨d, hd, hid⟩

/-- A flush either finds every id of the batch stored and changes no row, or stores the
new ones, overwrites and updates the pointers. -/
theorem flushBatch_cases (loc : Locale) (choice : JoinChoice) (entities : List ParsedEntity)
    (db : Database) :
    ((flushBatch loc choice entities db).deployments = db.deployments ∧
      (flushBatch loc choice entities db).activePointers = db.activePointers ∧
      ∀ e ∈ entities, db.Stores e.entityId) ∨
    ∃ fresh batch db', Overwritten loc batch db db' ∧
      batch.map Prod.snd = fresh.map (ParsedEntity.row loc) ∧
      flushBatch loc choice entities db =
        upsertPointers loc (apDedup fresh) (deleteOverwritten (batch.map Prod.fst) db') ∧
      (∀ e ∈ fresh, e ∈ entities ∧ ¬ db.Stores e.entityId) ∧
      ∀ e ∈ entities, db'.Stores e.entityId := by
  by_cases hnil : entities = []
  · refine Or.inl ?_
    rw [flushBatch, if_pos hnil]
    exact ⟨rfl, rfl, by simp [hnil]⟩
  have hsub := firstOfEachId_subset [] entities
  have hnodup := firstOfEachId_nodup [] entities
  have hcover : ∀ e ∈ entities, ∃ f ∈ firstOfEachId [] entities, f.entityId = e.entityId :=
    fun e he => firstOfEachId_covers [] entities he (by simp)
  obtain ⟨new, hins⟩ :=
    insertRows_inserted ((firstOfEachId [] entities).map (ParsedEntity.row loc)) db
  simp only [flushBatch, if_neg hnil]
  generalize firstOfEachId [] entities = es at *
  generalize hdb₁ : insertRows (es.map (ParsedEntity.row loc)) db = inserted at *
  have hstores : ∀ e ∈ entities, inserted.1.Stores e.entityId := by
    intro e he
    obtain ⟨f, hf, hid⟩ := hcover e he
    rw [← hid]
    exact hins.stores (f.row loc) (List.mem_map_of_mem hf)
  by_cases hrows : inserted.2 = []
  · rw [if_pos hrows]
    have hnew : new = [] := by
      have hret := hins.returned
      rw [hrows] at hret
      exact List.map_eq_nil_iff.mp hret.symm
    have hdeps : inserted.1.deployments = db.deployments := by
      rw [hins.deployments, hnew, List.append_nil]
    refine Or.inl ⟨hdeps, hins.pointers, fun e he => ?_⟩
    obtain ⟨d, hd, hid⟩ := hstores e he
    exact ⟨d, hdeps ▸ hd, hid⟩
  · rw [if_neg hrows]
    have hover : Overwritten loc _ db _ :=
      hins.overwritten (fun _ _ => hins.mem_batch hnodup) choice
    refine Or.inr ⟨_, _, _, hover, ?_, rfl, ?_, ?_⟩
    · simp only [List.map_map, Function.comp_def]
    · intro e he
      obtain ⟨⟨i, e⟩, hrow, rfl⟩ := List.mem_map.mp he
      obtain ⟨hmem, hnew⟩ := (hins.mem_freshRows hnodup).mp hrow
      exact ⟨(hsub e hmem).1, hins.not_stores hnew⟩
    · intro e he
      obtain ⟨f, hf, hid⟩ := Database.stores_iff.mp (hstores e he)
      refine Database.stores_iff.mpr ⟨f, ?_, hid⟩
      rw [hover.entities, ← hins.entities fun _ _ => hins.mem_batch hnodup]
      exact hf

/-- What is stored after a flush was stored or is of the batch, and every id of the
batch is stored. -/
structure Flushed (loc : Locale) (entities : List ParsedEntity) (db db' : Database) : Prop where
  kept : db.entities ⊆ db'.entities
  origin : ∀ x ∈ db'.entities, x ∈ db.entities ∨ ∃ e ∈ entities, e.row loc = x
  stores : ∀ e ∈ entities, db'.Stores e.entityId

theorem flushBatch_flushed (loc : Locale) (choice : JoinChoice) (entities : List ParsedEntity)
    (db : Database) : Flushed loc entities db (flushBatch loc choice entities db) := by
  rcases flushBatch_cases loc choice entities db with ⟨hdeps, -, hstores⟩ | h
  · have hents : (flushBatch loc choice entities db).entities = db.entities := by
      simp only [Database.entities, hdeps]
    refine ⟨hents.superset, fun x hx => Or.inl (hents ▸ hx), fun e he => ?_⟩
    obtain ⟨d, hd, hid⟩ := hstores e he
    exact ⟨d, hdeps ▸ hd, hid⟩
  · obtain ⟨fresh, batch, db', hover, hrows, heq, hfrom, hstores⟩ := h
    rw [heq]
    refine ⟨hover.entities ▸ Set.subset_union_left, ?_, hstores⟩
    intro x hx
    have hsplit : x ∈ db'.entities := hx
    rw [hover.entities, hrows] at hsplit
    rcases hsplit with hx | hx
    · exact Or.inl hx
    · obtain ⟨e, he, rfl⟩ := List.mem_map.mp hx
      exact Or.inr ⟨e, (hfrom e he).1, rfl⟩

theorem flushBatches_flushed (loc : Locale) (batches : List (JoinChoice × List ParsedEntity))
    (db : Database) : Flushed loc (batches.flatMap Prod.snd) db (flushBatches loc batches db) := by
  induction batches generalizing db with
  | nil => exact ⟨Set.Subset.rfl, fun x hx => Or.inl hx, by simp⟩
  | cons b batches ih =>
    have hb := flushBatch_flushed loc b.1 b.2 db
    have hrest := ih (flushBatch loc b.1 b.2 db)
    refine ⟨hb.kept.trans hrest.kept, ?_, ?_⟩
    · intro x hx
      rcases hrest.origin x hx with hx | ⟨e, he, hrow⟩
      · rcases hb.origin x hx with hx | ⟨e, he, hrow⟩
        · exact Or.inl hx
        · exact Or.inr ⟨e, List.mem_append_left _ he, hrow⟩
      · exact Or.inr ⟨e, List.mem_append_right _ he, hrow⟩
    · intro e he
      rcases List.mem_append.mp he with he | he
      · obtain ⟨f, hf, hid⟩ := Database.stores_iff.mp (hb.stores e he)
        exact Database.stores_iff.mpr ⟨f, hrest.kept hf, hid⟩
      · exact hrest.stores e he

/-- Where the new entities compare alike under `key` and in the statements, a flush keeps the
database resolved under `key`. -/
theorem flushBatch_resolved {key : EntityId → Text} (choice : JoinChoice)
    {entities : List ParsedEntity} (hdb : db.Resolved key)
    (halike : ∀ e ∈ entities, ¬ db.Stores e.entityId →
      ∀ f, (f ∈ db.entities ∨ ∃ g ∈ entities, g.row loc = f) →
        ((e.row loc).Follows loc.collate f ↔ (e.row loc).Follows key f) ∧
          (f.Follows loc.collate (e.row loc) ↔ f.Follows key (e.row loc))) :
    (flushBatch loc choice entities db).Resolved key := by
  rcases flushBatch_cases loc choice entities db with ⟨hdeps, -, -⟩ | h
  · exact hdb.of_deployments hdeps
  · obtain ⟨fresh, batch, db', hover, hrows, heq, hfrom, -⟩ := h
    rw [heq]
    refine hover.resolved hdb fun x hx f hf => ?_
    rw [hrows] at hx
    rw [hover.entities, hrows] at hf
    obtain ⟨e, he, rfl⟩ := List.mem_map.mp hx
    refine halike e (hfrom e he).1 (hfrom e he).2 f (hf.imp id fun hf => ?_)
    obtain ⟨g, hg, rfl⟩ := List.mem_map.mp hf
    exact ⟨g, (hfrom g hg).1, rfl⟩

/-- The statements keep their own order resolved. -/
theorem flushBatches_resolved (loc : Locale) (batches : List (JoinChoice × List ParsedEntity))
    (hdb : db.Resolved loc.collate) : (flushBatches loc batches db).Resolved loc.collate := by
  induction batches generalizing db with
  | nil => exact hdb
  | cons b batches ih =>
    exact ih (flushBatch_resolved b.1 hdb fun _ _ _ _ _ => ⟨Iff.rfl, Iff.rfl⟩)

theorem resolved_empty (key : EntityId → Text) : Database.empty.Resolved key := by
  rintro e ⟨d, hd, -⟩
  cases hd

end Flush

section Filling

/-- No entity of the set that shares a pointer with `e` comes after it. -/
def Unfollowed (before : ParsedEntity → ParsedEntity → Prop) (set : Finset ParsedEntity)
    (e : ParsedEntity) : Prop :=
  ∀ f ∈ set, f ≠ e → e.Overlaps f → ¬ before e f

instance (before : ParsedEntity → ParsedEntity → Prop) [DecidableRel before]
    (set : Finset ParsedEntity) (e : ParsedEntity) : Decidable (Unfollowed before set e) :=
  inferInstanceAs (Decidable (∀ f ∈ set, _ → _ → _))

/-- The order of the rows in the statements. -/
def ParsedEntity.RowBefore (loc : Locale) (d e : ParsedEntity) : Prop :=
  (d.row loc).Before loc.collate (e.row loc)

instance (loc : Locale) : DecidableRel (ParsedEntity.RowBefore loc) :=
  fun d e => inferInstanceAs (Decidable ((d.row loc).Before loc.collate (e.row loc)))

/-- A set of entities of one type with distinct ids. -/
structure OneType (t : Text) (set : Finset ParsedEntity) : Prop where
  type : ∀ e ∈ set, e.entityType = t
  ids : ∀ e ∈ set, ∀ f ∈ set, e.entityId = f.entityId → e = f

variable {loc : Locale} {t : Text} {set : Finset ParsedEntity} {db : Database}

theorem OneType.row_inj (h : OneType t set) {e f : ParsedEntity} (he : e ∈ set) (hf : f ∈ set)
    (hrow : e.row loc = f.row loc) : e = f :=
  h.ids e he f hf (congrArg Entity.entityId hrow)

/-- What holds between two flushes of entities of the set. One that none follows keeps its
pointers once it is stored. -/
structure Filling (loc : Locale) (set : Finset ParsedEntity) (db : Database) : Prop where
  within : ∀ x ∈ db.entities, ∃ e ∈ set, e.row loc = x
  resolved : db.Resolved loc.collate
  holders : HoldersActive db
  held : ∀ e ∈ set, Unfollowed ParsedEntity.Before set e → e.row loc ∈ db.entities →
    ∀ p ∈ e.entityPointers,
      (db.activePointers p).map ActivePointer.entityId = some e.entityId

theorem OneType.ofType (h : OneType t set)
    (hrows : ∀ x ∈ db.entities, ∃ e ∈ set, e.row loc = x) : db.OfType t := by
  intro x hx
  obtain ⟨e, he, rfl⟩ := hrows x hx
  exact h.type e he

theorem filling_empty (loc : Locale) (set : Finset ParsedEntity) :
    Filling loc set Database.empty := by
  have hnone : ∀ x, x ∉ Database.empty.entities := by
    rintro x ⟨d, hd, -⟩
    cases hd
  refine ⟨fun x hx => absurd hx (hnone x), resolved_empty _, ?_,
    fun e _ _ hx => absurd hx (hnone _)⟩
  intro p x hx
  cases hx

theorem Filling.of_deployments {db' : Database} (h : Filling loc set db)
    (hd : db'.deployments = db.deployments) (ha : db'.activePointers = db.activePointers) :
    Filling loc set db' := by
  have hents : db'.entities = db.entities := by
    simp only [Database.entities, hd]
  refine ⟨?_, h.resolved.of_deployments hd, ?_, ?_⟩
  · rw [hents]
    exact h.within
  · simp only [HoldersActive, Database.Active, hd, ha]
    exact h.holders
  · rw [hents, ha]
    exact h.held

theorem Unfollowed.stands {rows : Set Entity} {e : ParsedEntity}
    (h : Unfollowed (ParsedEntity.RowBefore loc) set e)
    (hrows : ∀ x ∈ rows, ∃ f ∈ set, f.row loc = x) :
    Stands (Entity.Follows loc.collate) rows (e.row loc) := by
  rintro x hx ⟨-, ho, hb⟩
  obtain ⟨f, hf, rfl⟩ := hrows x hx
  refine h f hf ?_ ho hb
  rintro rfl
  exact Entity.before_irrefl hb

/-- With the whole set stored, the statements leave active what no row follows. -/
theorem Filling.active_iff (h : Filling loc set db) (hset : OneType t set)
    (hall : ∀ e ∈ set, e.row loc ∈ db.entities) {e : ParsedEntity} (he : e ∈ set) :
    db.Active (e.row loc) ↔ Unfollowed (ParsedEntity.RowBefore loc) set e := by
  rw [h.resolved _ (hall e he)]
  refine ⟨fun hs f hf _ ho hb => ?_, fun hs => hs.stands h.within⟩
  exact hs _ (hall f hf) ⟨(hset.type e he).trans (hset.type f hf).symm, ho, hb⟩

section Step

variable {fresh : List ParsedEntity} {batch : List (ℕ × Entity)} {db' : Database}

/-- The entry of a pointer is written for an active entity of the batch that has it. -/
theorem upsert_holders (h : HoldersActive (deleteOverwritten (batch.map Prod.fst) db'))
    (hrows : batch.map Prod.snd = fresh.map (ParsedEntity.row loc))
    (hover : Overwritten loc batch db db') :
    HoldersActive (upsertPointers loc (apDedup fresh)
      (deleteOverwritten (batch.map Prod.fst) db')) := by
  intro p x hx
  rcases upsertPointers_cases loc (apDedup fresh) (deleteOverwritten (batch.map Prod.fst) db') p
    with heq | ⟨v, hv, hj, heq⟩
  · rw [heq] at hx
    exact h p x hx
  · have hlast := apDedup_isLast fresh p
    rw [hv] at hlast
    obtain ⟨w, hw, hpw, rfl, -⟩ := hlast
    rw [heq] at hx
    have hmem : w.row loc ∈ db'.entities := by
      rw [hover.entities, hrows]
      exact Or.inr (List.mem_map_of_mem hw)
    exact ⟨w.row loc, (joinsActive_iff (e := w.row loc) hmem).mp hj, Option.some.inj hx, hpw⟩

/-- A new entity that none follows takes its pointers, and an old one keeps them. -/
theorem upsert_held (h : Filling loc set db) (hset : OneType t set)
    (hover : Overwritten loc batch db db')
    (hrows : batch.map Prod.snd = fresh.map (ParsedEntity.row loc))
    (hfresh : ∀ e ∈ fresh, e ∈ set) (hres : db'.Resolved loc.collate) (ht : db'.OfType t)
    {e : ParsedEntity} (he : e ∈ set) (hlast : Unfollowed ParsedEntity.Before set e)
    (hact : db'.Active (e.row loc)) {p : Pointer} (hp : p ∈ e.entityPointers) :
    ((upsertPointers loc (apDedup fresh)
      (deleteOverwritten (batch.map Prod.fst) db')).activePointers p).map
        ActivePointer.entityId = some e.entityId := by
  have hholders := hover.holders_deleted h.holders
  have hmine : ∀ x, db'.Active x → p ∈ x.pointers → x.entityId = e.entityId := by
    intro x hx hpx
    rw [active_unique hres ht hx hact hpx hp]
    rfl
  set db₁ := deleteOverwritten (batch.map Prod.fst) db' with hdb₁
  have hent := apDedup_isLast fresh p
  have hmem := hact.mem
  rw [hover.entities, hrows] at hmem
  rcases hmem with hold | hnew
  · have hkept : (db₁.activePointers p).map ActivePointer.entityId = some e.entityId := by
      refine deleteOverwritten_keeps (e := e.row loc) hact ?_
      rw [hover.pointers]
      exact h.held e he hlast hold p hp
    rcases upsertPointers_cases loc (apDedup fresh) db₁ p with heq | ⟨v, hv, hj, heq⟩
    · rw [heq]
      exact hkept
    · rw [hv] at hent
      obtain ⟨w, hw, hpw, rfl, -⟩ := hent
      have hwm : w.row loc ∈ db'.entities := by
        rw [hover.entities, hrows]
        exact Or.inr (List.mem_map_of_mem hw)
      rw [heq]
      exact congrArg some (hmine _ ((joinsActive_iff (e := w.row loc) hwm).mp hj) hpw)
  · obtain ⟨f, hf, hrow⟩ := List.mem_map.mp hnew
    obtain rfl := hset.row_inj (hfresh f hf) he hrow
    cases hm : apDedup fresh p with
    | none =>
      rw [hm] at hent
      exact absurd hp (hent f hf)
    | some v =>
      rw [hm] at hent
      obtain ⟨w, hw, hpw, rfl, hbest⟩ := hent
      -- the last of the batch at p in Rust's order, and none of the set follows f in it
      obtain rfl : w = f := by
        by_contra hne
        have hid : w.entityId ≠ f.entityId := fun hid => hne (hset.ids w (hfresh w hw) f he hid)
        rcases ParsedEntity.before_total hid with hb | hb
        · exact hbest f hf hp hb
        · exact hlast w (hfresh w hw) hne ⟨p, hp, hpw⟩ hb
      refine upsertPointers_takes hm ((joinsActive_iff (e := w.row loc) hact.mem).mpr hact) ?_
      intro ap hap
      obtain ⟨x, hx, hid, hpx⟩ := hholders p ap.entityId (by rw [Option.mem_def.mp hap]; rfl)
      rw [← hid]
      exact hmine x hx hpx

end Step

theorem flushBatch_filling (choice : JoinChoice) {entities : List ParsedEntity}
    (hdb : Filling loc set db) (hset : OneType t set)
    (hagree : ∀ e ∈ set, Unfollowed ParsedEntity.Before set e →
      Unfollowed (ParsedEntity.RowBefore loc) set e)
    (hes : ∀ e ∈ entities, e ∈ set) : Filling loc set (flushBatch loc choice entities db) := by
  have hwithin : ∀ x ∈ (flushBatch loc choice entities db).entities, ∃ e ∈ set, e.row loc = x := by
    intro x hx
    rcases (flushBatch_flushed loc choice entities db).origin x hx with hx | ⟨e, he, hrow⟩
    · exact hdb.within x hx
    · exact ⟨e, hes e he, hrow⟩
  rcases flushBatch_cases loc choice entities db with ⟨hdeps, hap, -⟩ | h
  · exact hdb.of_deployments hdeps hap
  · obtain ⟨fresh, batch, db', hover, hrows, heq, hfrom, -⟩ := h
    rw [heq] at hwithin ⊢
    have hres : db'.Resolved loc.collate :=
      hover.resolved hdb.resolved fun _ _ _ _ => ⟨Iff.rfl, Iff.rfl⟩
    have hholders := upsert_holders (hover.holders_deleted hdb.holders) hrows hover
    have htype : db'.OfType t := hset.ofType hwithin
    refine ⟨hwithin, hres, hholders, fun e he hlast hx p hp => ?_⟩
    refine upsert_held hdb hset hover hrows (fun f hf => hes f (hfrom f hf).1) hres htype he hlast
      ?_ hp
    exact (hres _ hx).mpr ((hagree e he hlast).stands hwithin)

theorem flushBatches_filling (batches : List (JoinChoice × List ParsedEntity))
    (hdb : Filling loc set db) (hset : OneType t set)
    (hagree : ∀ e ∈ set, Unfollowed ParsedEntity.Before set e →
      Unfollowed (ParsedEntity.RowBefore loc) set e)
    (hes : ∀ b ∈ batches, ∀ e ∈ b.2, e ∈ set) :
    Filling loc set (flushBatches loc batches db) := by
  induction batches generalizing db with
  | nil => exact hdb
  | cons b batches ih =>
    exact ih (flushBatch_filling b.1 hdb hset hagree (hes b List.mem_cons_self))
      fun c hc => hes c (List.mem_cons_of_mem _ hc)

/-- Where Rust and the statements agree on what comes last, the pointers are those of the active
entities once the whole set is stored. -/
theorem Filling.pointersExact (h : Filling loc set db) (hset : OneType t set)
    (hagree : ∀ e ∈ set, Unfollowed (ParsedEntity.RowBefore loc) set e ↔
      Unfollowed ParsedEntity.Before set e)
    (hall : ∀ e ∈ set, e.row loc ∈ db.entities) : db.PointersExact := by
  intro p x
  refine ⟨h.holders p x, ?_⟩
  rintro ⟨y, hy, rfl, hp⟩
  obtain ⟨e, he, rfl⟩ := h.within y hy.mem
  have hlast := (hagree e he).mp ((h.active_iff hset hall he).mp hy)
  exact h.held e he hlast hy.mem p hp

/-- Batches that cover the set store it. -/
theorem flushBatches_stored (hset : OneType t set)
    {batches : List (JoinChoice × List ParsedEntity)}
    (hbatches : ∀ e, e ∈ set ↔ ∃ b ∈ batches, e ∈ b.2) (x : Entity) :
    x ∈ (flushBatches loc batches Database.empty).entities ↔ ∃ e ∈ set, e.row loc = x := by
  have h := flushBatches_flushed loc batches Database.empty
  have hfrom : ∀ x ∈ (flushBatches loc batches Database.empty).entities,
      ∃ e ∈ set, e.row loc = x := by
    intro x hx
    rcases h.origin x hx with ⟨d, hd, -⟩ | ⟨e, he, hrow⟩
    · cases hd
    · obtain ⟨b, hb, heb⟩ := List.mem_flatMap.mp he
      exact ⟨e, (hbatches e).mpr ⟨b, hb, heb⟩, hrow⟩
  refine ⟨hfrom x, ?_⟩
  rintro ⟨e, he, rfl⟩
  obtain ⟨b, hb, heb⟩ := (hbatches e).mp he
  obtain ⟨y, hy, hid⟩ := Database.stores_iff.mp
    (h.stores e (List.mem_flatMap.mpr ⟨b, hb, heb⟩))
  obtain ⟨f, hf, rfl⟩ := hfrom y hy
  rwa [hset.ids e he f hf hid.symm]

end Filling

/-- However the set is ordered and cut into batches, and whichever row each join takes, it is
stored, what none of it follows is active, and the active pointers are theirs. -/
def Converges (loc : Locale) (set : Finset ParsedEntity) : Prop :=
  ∀ batches : List (JoinChoice × List ParsedEntity),
    (∀ e, e ∈ set ↔ ∃ b ∈ batches, e ∈ b.2) →
    (∀ x, x ∈ (flushBatches loc batches Database.empty).entities ↔ ∃ e ∈ set, e.row loc = x) ∧
    (∀ e ∈ set, (flushBatches loc batches Database.empty).Active (e.row loc) ↔
      Unfollowed ParsedEntity.Before set e) ∧
    (∀ p x, ((flushBatches loc batches Database.empty).activePointers p).map
        ActivePointer.entityId = some x ↔
      ∃ e ∈ set, Unfollowed ParsedEntity.Before set e ∧ e.entityId = x ∧ p ∈ e.entityPointers)

section Converges

variable {loc : Locale} {t : Text} {set : Finset ParsedEntity}

theorem converges_of_agree (hset : OneType t set)
    (hagree : ∀ e ∈ set, Unfollowed (ParsedEntity.RowBefore loc) set e ↔
      Unfollowed ParsedEntity.Before set e) : Converges loc set := by
  intro batches hbatches
  have hfill := flushBatches_filling batches (filling_empty loc set) hset
    (fun e he => (hagree e he).mpr) fun b hb e he => (hbatches e).mpr ⟨b, hb, he⟩
  have hstored : ∀ d, d ∈ (flushBatches loc batches Database.empty).entities ↔
      ∃ e ∈ set, e.row loc = d := flushBatches_stored hset hbatches
  have hall : ∀ e ∈ set, e.row loc ∈ (flushBatches loc batches Database.empty).entities :=
    fun e he => (hstored _).mpr ⟨e, he, rfl⟩
  have hactive : ∀ e ∈ set, (flushBatches loc batches Database.empty).Active (e.row loc) ↔
      Unfollowed ParsedEntity.Before set e :=
    fun e he => (hfill.active_iff hset hall he).trans (hagree e he)
  refine ⟨hstored, hactive, fun p x => ?_⟩
  rw [hfill.pointersExact hset hagree hall p x]
  constructor
  · rintro ⟨y, hy, hid, hp⟩
    obtain ⟨e, he, rfl⟩ := (hstored y).mp hy.mem
    exact ⟨e, he, (hactive e he).mp hy, hid, hp⟩
  · rintro ⟨e, he, hlast, hid, hp⟩
    exact ⟨e.row loc, (hactive e he).mpr hlast, hid, hp⟩

/-- One entity a batch already tells what the statements leave active. -/
theorem agree_of_converges (hset : OneType t set) (h : Converges loc set) :
    ∀ e ∈ set, Unfollowed (ParsedEntity.RowBefore loc) set e ↔
      Unfollowed ParsedEntity.Before set e := by
  intro e he
  obtain ⟨hstored, hactive, -⟩ := h (set.toList.map fun e => (JoinChoice.first, [e])) (by simp)
  rw [← hactive e he]
  have hres := flushBatches_resolved loc (set.toList.map fun e => (JoinChoice.first, [e]))
    (resolved_empty loc.collate)
  rw [hres _ ((hstored _).mpr ⟨e, he, rfl⟩)]
  refine ⟨fun hs => hs.stands fun x hx => (hstored x).mp hx, fun hs f hf _ ho hb => ?_⟩
  exact hs _ ((hstored _).mpr ⟨f, hf, rfl⟩)
    ⟨(hset.type e he).trans (hset.type f hf).symm, ho, hb⟩

/-- **When sync deployments converge.** Exactly when the same entities of the set come last among
those they share a pointer with in Rust, which picks the entity of the batch that a pointer goes
to, and in the statements, which say what is overwritten. -/
theorem flushBatches_converge_iff (loc : Locale) (t : Text) (set : Finset ParsedEntity)
    (hset : OneType t set) :
    Converges loc set ↔ ∀ e ∈ set, Unfollowed (ParsedEntity.RowBefore loc) set e ↔
      Unfollowed ParsedEntity.Before set e :=
  ⟨agree_of_converges hset, converges_of_agree hset⟩

end Converges

section Examples

/-- Three scenes of one timestamp in a chain of shared parcels. -/
def west : ParsedEntity := ⟨['a'], ['s'], 10, [['0'], ['1']]⟩
def middle : ParsedEntity := ⟨['b'], ['s'], 10, [['1'], ['2']]⟩
def east : ParsedEntity := ⟨['c'], ['s'], 10, [['2'], ['3']]⟩

/-- The middle scene overwrites the western one and is overwritten by the eastern one. -/
theorem flushBatches_converge_chain : Converges Locale.ascii {west, middle, east} :=
  (flushBatches_converge_iff Locale.ascii ['s'] {west, middle, east}
    ⟨by decide, by decide⟩).mpr (by decide)

/-- Two scenes of one timestamp on a parcel, whose ids the database orders by the letter. -/
def lodge : ParsedEntity := ⟨['Q', 'm', 'a'], ['s'], 10, [['p']]⟩
def barn : ParsedEntity := ⟨['Q', 'm', 'B'], ['s'], 10, [['p']]⟩

theorem dictionary_diverges :
    (flushBatch Locale.dictionary JoinChoice.first [lodge, barn] Database.empty).deployments =
        [⟨1, lodge.row Locale.dictionary, some 2⟩, ⟨2, barn.row Locale.dictionary, none⟩] ∧
      (flushBatch Locale.dictionary JoinChoice.first [lodge, barn] Database.empty).activePointers
        ['p'] = none ∧
      OneType ['s'] {lodge, barn} ∧ ¬ Converges Locale.dictionary {lodge, barn} := by
  have hset : OneType ['s'] {lodge, barn} := ⟨by decide, by decide⟩
  refine ⟨by decide, by decide, hset, fun h => ?_⟩
  exact absurd (agree_of_converges hset h) (by decide)

end Examples

end Catalyrst.Content
