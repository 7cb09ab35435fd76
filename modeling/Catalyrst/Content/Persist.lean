import Mathlib
import Catalyrst.Content.Converge

/-!
# The local write path

`WriteDeployer::has_newer_entity` and the transaction of `WriteDeployer::persist`.
Both compare ids in lower case, where the sync path compares them as they are. The
overwrite query also finds rows that a newer deployment has already deleted, and
their other pointers are cleared by name, whoever holds them by now.
-/

namespace Catalyrst.Content

open Catalyrst.Lib

def hasNewerEntity (loc : Locale) (db : Database) (e : Entity) : Bool :=
  db.deployments.any fun d =>
    d.entity.Follows loc.lowerKey { e with pointers := e.pointers.map loc.toLowercase }

/-- The entity with the pointers that `persist` writes. -/
def Entity.stored (loc : Locale) (e : Entity) : Entity :=
  { e with pointers := (e.pointers.map loc.toLowercase).eraseDups }

/-- The row of the `LEFT JOIN` on `deleter_deployment`. -/
def deleterRow (db : Database) (d : Deployment) : Option Deployment :=
  d.deleterDeployment.bind fun i => db.deployments.find? (·.id = i)

/-- No row joins, or one that comes after `e`. -/
def deletedAfter (loc : Locale) (e : Entity) : Option Deployment → Prop
  | none => True
  | some dep => e.Before loc.lowerKey dep.entity

instance (loc : Locale) (e : Entity) : (dep : Option Deployment) → Decidable (deletedAfter loc e dep)
  | none => isTrue trivial
  | some dep => inferInstanceAs (Decidable (e.Before loc.lowerKey dep.entity))

/-- The overwrite query. -/
def overwrote (loc : Locale) (db : Database) (e : Entity) : List Deployment :=
  db.deployments.filter fun d =>
    e.Follows loc.lowerKey d.entity ∧ deletedAfter loc e (deleterRow db d)

/-- The conflicting row of the upsert belongs to a newer entity. -/
def keepsHolder (loc : Locale) (db : Database) (e : Entity) (ap : ActivePointer) : Prop :=
  ∃ cur ∈ db.deployments, cur.entity.entityId = ap.entityId ∧ e.Before loc.lowerKey cur.entity

instance (loc : Locale) (db : Database) (e : Entity) (ap : ActivePointer) :
    Decidable (keepsHolder loc db e ap) :=
  inferInstanceAs (Decidable (∃ cur ∈ db.deployments, _ ∧ _))

def upsertOwn (loc : Locale) (hasTypeCol : Bool) (e : Entity) (db : Database) : Database :=
  db.setPointers fun p =>
    let own : ActivePointer := ⟨e.entityId, if hasTypeCol then some e.entityType else none⟩
    if p ∈ e.pointers then
      match db.activePointers p with
      | none => some own
      | some ap => if keepsHolder loc db e ap then some ap else some own
    else db.activePointers p

def cleared (e : Entity) (overwrote : List Deployment) : List Pointer :=
  ((overwrote.flatMap fun d => d.entity.pointers).filter (· ∉ e.pointers)).eraseDups

def clearPointers (pointers : List Pointer) (db : Database) : Database :=
  db.setPointers fun p => if p ∈ pointers then none else db.activePointers p

def setOverwritten (depId : ℕ) (ids : List ℕ) (db : Database) : Database :=
  db.setDeleter fun d => if d.id ∈ ids then some depId else d.deleterDeployment

def persist (loc : Locale) (hasTypeCol : Bool) (entity : Entity) (db : Database) : Database :=
  let e := entity.stored loc
  let overwrote := overwrote loc db e
  let inserted := db.insert e
  match inserted.2 with
  | none => inserted.1
  | some depId =>
    setOverwritten depId (overwrote.map Deployment.id)
      (clearPointers (cleared e overwrote) (upsertOwn loc hasTypeCol e inserted.1))

/-- What a deployment finds and should leave. -/
structure Settled (t : Text) (db : Database) : Prop where
  ofType : db.OfType t
  resolved : db.Resolved id
  pointers : db.PointersExact

theorem Database.PointersExact.of_deployments {db db' : Database} (h : db.PointersExact)
    (hd : db'.deployments = db.deployments) (ha : db'.activePointers = db.activePointers) :
    db'.PointersExact := by
  intro p x
  simp only [Database.Active, hd, ha]
  exact h p x

section Persist

variable {loc : Locale} {hasTypeCol : Bool} {db : Database} {e : Entity} {d : Deployment} {t : Text}

theorem overlaps_stored {d e : Entity} :
    d.Overlaps (e.stored loc) ↔ d.Overlaps { e with pointers := e.pointers.map loc.toLowercase } := by
  simp only [Entity.Overlaps, Entity.stored, List.mem_eraseDups]

theorem not_hasNewerEntity : hasNewerEntity loc db e = false ↔
    ∀ f ∈ db.entities, ¬ f.Follows loc.lowerKey (e.stored loc) := by
  have hfollows : ∀ f : Entity, f.Follows loc.lowerKey (e.stored loc) ↔
      f.Follows loc.lowerKey { e with pointers := e.pointers.map loc.toLowercase } := by
    intro f
    refine and_congr_right fun _ => and_congr_left fun _ => ?_
    exact ⟨fun h => (overlaps_stored.mp h.symm).symm, fun h => (overlaps_stored.mpr h.symm).symm⟩
  simp only [hasNewerEntity, List.any_eq_false, decide_eq_true_eq, hfollows]
  constructor
  · rintro h _ ⟨d, hd, rfl⟩
    exact h d hd
  · intro h d hd
    exact h _ (Database.entity_mem hd)

theorem mem_overwrote : d ∈ overwrote loc db e ↔ d ∈ db.deployments ∧
    e.Follows loc.lowerKey d.entity ∧ deletedAfter loc e (deleterRow db d) := by
  simp [overwrote, List.mem_filter]

/-- The query finds every active entity that the new one follows. -/
theorem mem_overwrote_of_active (hd : d ∈ db.deployments) (hn : d.deleterDeployment = none) :
    d ∈ overwrote loc db e ↔ e.Follows loc.lowerKey d.entity := by
  have hrow : deleterRow db d = none := by simp [deleterRow, hn]
  rw [mem_overwrote, hrow]
  exact ⟨fun h => h.2.1, fun h => ⟨hd, h, trivial⟩⟩

theorem mem_cleared {ds : List Deployment} {p : Pointer} :
    p ∈ cleared e ds ↔ p ∉ e.pointers ∧ ∃ d ∈ ds, p ∈ d.entity.pointers := by
  simp [cleared, List.mem_eraseDups, and_comm]

theorem persist_stored (h : db.Stores e.entityId) :
    (persist loc hasTypeCol e db).deployments = db.deployments ∧
      (persist loc hasTypeCol e db).activePointers = db.activePointers := by
  obtain ⟨hnone, hdeps, hap⟩ := Database.insert_of_stores (e := e.stored loc) h
  simp only [persist, hnone]
  exact ⟨hdeps, hap⟩

/-- The transaction of an entity that is not stored yet. -/
theorem persist_fresh (h : ¬ db.Stores e.entityId) :
    persist loc hasTypeCol e db =
      setOverwritten db.nextId ((overwrote loc db (e.stored loc)).map Deployment.id)
        (clearPointers (cleared (e.stored loc) (overwrote loc db (e.stored loc)))
          (upsertOwn loc hasTypeCol (e.stored loc) (db.insert (e.stored loc)).1)) := by
  obtain ⟨hsome, -⟩ := Database.insert_of_not_stores (e := e.stored loc) h
  simp only [persist, hsome]

theorem persist_entities (h : ¬ db.Stores e.entityId) :
    (persist loc hasTypeCol e db).entities = db.entities ∪ {e.stored loc} := by
  rw [persist_fresh h, setOverwritten, Database.setDeleter_entities]
  obtain ⟨-, hdeps, -⟩ := Database.insert_of_not_stores (e := e.stored loc) h
  have hins : (clearPointers (cleared (e.stored loc) (overwrote loc db (e.stored loc)))
      (upsertOwn loc hasTypeCol (e.stored loc) (db.insert (e.stored loc)).1)).deployments =
        db.deployments ++ [⟨db.nextId, e.stored loc, none⟩] := hdeps
  ext f
  simp only [Database.entities, hins, List.mem_append, List.mem_singleton, Set.mem_ofPred_eq,
    Set.mem_union, Set.mem_singleton_iff, or_and_right, exists_or, exists_eq_left]
  rw [eq_comm (a := f)]

/-- An old entity stays active when the new one does not follow it. -/
theorem persist_active_old (h : ¬ db.Stores e.entityId) {f : Entity} (hf : f ∈ db.entities) :
    (persist loc hasTypeCol e db).Active f ↔
      db.Active f ∧ ¬ (e.stored loc).Follows loc.lowerKey f := by
  obtain ⟨d, hd, rfl⟩ := hf
  obtain ⟨-, hdeps, -⟩ := Database.insert_of_not_stores (e := e.stored loc) h
  rw [persist_fresh h]
  set overwritten := overwrote loc db (e.stored loc) with hover
  have hd' : d ∈ (clearPointers (cleared (e.stored loc) overwritten)
      (upsertOwn loc hasTypeCol (e.stored loc) (db.insert (e.stored loc)).1)).deployments := by
    have hmem : d ∈ (db.insert (e.stored loc)).1.deployments := by
      rw [hdeps]
      exact List.mem_append_left _ hd
    exact hmem
  have hin : d.id ∈ overwritten.map Deployment.id ↔ d ∈ overwritten := by
    constructor
    · intro hi
      obtain ⟨c, hc, hid⟩ := List.mem_map.mp hi
      rwa [← Database.eq_of_id (mem_overwrote.mp hc).1 hd hid]
    · intro hmem
      exact List.mem_map.mpr ⟨d, hmem, rfl⟩
  rw [setOverwritten, Database.setDeleter_active _ hd', Database.active_entity hd]
  by_cases hn : d.deleterDeployment = none
  · have hin' := hin.trans (mem_overwrote_of_active hd hn)
    by_cases hf : (e.stored loc).Follows loc.lowerKey d.entity
    · rw [if_pos (hin'.mpr hf)]
      simp [hf]
    · rw [if_neg (mt hin'.mp hf)]
      simp [hn, hf]
  · split <;> simp [hn]

theorem persist_active_new (h : ¬ db.Stores e.entityId) :
    (persist loc hasTypeCol e db).Active (e.stored loc) := by
  obtain ⟨-, hdeps, -⟩ := Database.insert_of_not_stores (e := e.stored loc) h
  rw [persist_fresh h]
  set overwritten := overwrote loc db (e.stored loc) with hover
  have hd' : (⟨db.nextId, e.stored loc, none⟩ : Deployment) ∈
      (clearPointers (cleared (e.stored loc) overwritten)
        (upsertOwn loc hasTypeCol (e.stored loc) (db.insert (e.stored loc)).1)).deployments := by
    have hmem : (⟨db.nextId, e.stored loc, none⟩ : Deployment) ∈
        (db.insert (e.stored loc)).1.deployments := by
      rw [hdeps]
      exact List.mem_append_right _ (List.mem_singleton.mpr rfl)
    exact hmem
  have hnew : db.nextId ∉ overwritten.map Deployment.id := by
    intro hi
    obtain ⟨c, hc, hid⟩ := List.mem_map.mp hi
    exact absurd hid (db.id_lt c (mem_overwrote.mp hc).1).ne
  refine (Database.setDeleter_active _ hd').mpr ?_
  rw [if_neg hnew]

/-- The new entity takes all its pointers, and the other pointers of what the query
found are freed. -/
theorem persist_pointers (h : ¬ db.Stores e.entityId) (hdb : Settled t db) (ht : e.entityType = t)
    (hnew : hasNewerEntity loc db e = false) (p : Pointer) :
    ((persist loc hasTypeCol e db).activePointers p).map ActivePointer.entityId =
      if p ∈ (e.stored loc).pointers then some e.entityId
      else if p ∈ cleared (e.stored loc) (overwrote loc db (e.stored loc)) then none
      else (db.activePointers p).map ActivePointer.entityId := by
  obtain ⟨-, hdeps, hap⟩ := Database.insert_of_not_stores (e := e.stored loc) h
  rw [persist_fresh h]
  simp only [setOverwritten, clearPointers, upsertOwn, Database.setDeleter_activePointers,
    Database.setPointers_activePointers, hap]
  by_cases hp : p ∈ (e.stored loc).pointers
  · have hc : p ∉ cleared (e.stored loc) (overwrote loc db (e.stored loc)) :=
      fun hc => (mem_cleared.mp hc).1 hp
    rw [if_neg hc, if_pos hp, if_pos hp]
    cases hcur : db.activePointers p with
    | none => rfl
    | some ap =>
      -- the holder is an active entity on p; it is not newer
      have hkeep : ¬ keepsHolder loc (db.insert (e.stored loc)).1 (e.stored loc) ap := by
        rintro ⟨cur, hcurm, hid, hb⟩
        obtain ⟨f, hf, hfid, hpf⟩ := (hdb.pointers p ap.entityId).mp (by rw [hcur]; rfl)
        rw [hdeps] at hcurm
        rcases List.mem_append.mp hcurm with hc | hc
        · have hcf : cur.entity = f :=
            Database.entity_eq_of_entityId (Database.entity_mem hc) hf.mem (hid.trans hfid.symm)
          rw [hcf] at hb
          exact not_hasNewerEntity.mp hnew f hf.mem
            ⟨ht.trans (hdb.ofType f hf.mem).symm, ⟨p, hp, hpf⟩, hb⟩
        · rw [List.mem_singleton.mp hc] at hb
          exact Entity.before_irrefl hb
      simp only [hkeep, if_false]
      rfl
  · rw [if_neg hp, if_neg hp]
    split <;> rfl

/-- Every stored entity on the pointers of `e` with its timestamp has a lesser id, and in
lower case another one if it is active. -/
def TiesOrdered (loc : Locale) (db : Database) (e : Entity) : Prop :=
  ∀ f ∈ db.entities, f.Overlaps e → f.timestamp = e.timestamp →
    f.entityId < e.entityId ∧ (db.Active f → loc.lower f.entityId ≠ loc.lower e.entityId)

/-- Where an older entity on the pointers of `e` is not deleted, or by a deployment that
is missing or comes after `e`, its other pointers are not in the hands of an active
entity apart from `e`. -/
def PointersFree (loc : Locale) (db : Database) (e : Entity) : Prop :=
  ∀ d ∈ db.deployments, d.entity.Overlaps e → d.entity.Before loc.lowerKey e →
    deletedAfter loc e (deleterRow db d) → ∀ p ∈ d.entity.pointers, p ∉ e.pointers →
      ∀ f, db.Active f → p ∈ f.pointers → f.Overlaps e

theorem TiesOrdered.before (h : TiesOrdered loc db (e.stored loc)) (hdb : Settled t db)
    (ht : e.entityType = t) (hnew : hasNewerEntity loc db e = false) {f : Entity}
    (hf : f ∈ db.entities) (ho : f.Overlaps (e.stored loc)) : f.Before id (e.stored loc) := by
  rcases Entity.before_trichotomy loc.lowerKey f (e.stored loc) with hb | hb | hb
  · rcases hb with hlt | ⟨heq, -⟩
    · exact Or.inl hlt
    · exact Or.inr ⟨heq, (h f hf ho heq).1⟩
  · exact Or.inr ⟨hb.1, (h f hf ho hb.1).1⟩
  · exact absurd ⟨ht.trans (hdb.ofType f hf).symm, ho.symm, hb⟩
      (not_hasNewerEntity.mp hnew f hf)

/-- Under `TiesOrdered` the new entity follows, in either order, every active one on its
pointers. -/
theorem TiesOrdered.follows (h : TiesOrdered loc db (e.stored loc)) (hdb : Settled t db)
    (ht : e.entityType = t) (hnew : hasNewerEntity loc db e = false) {f : Entity}
    (hf : db.Active f) (ho : f.Overlaps (e.stored loc)) :
    (e.stored loc).Follows loc.lowerKey f := by
  refine ⟨(hdb.ofType f hf.mem).trans ht.symm, ho, ?_⟩
  rcases Entity.before_trichotomy loc.lowerKey f (e.stored loc) with hb | hb | hb
  · exact hb
  · exact absurd (loc.lowerKey_inj.mp hb.2) ((h f hf.mem ho hb.1).2 hf)
  · exact absurd ⟨ht.trans (hdb.ofType f hf.mem).symm, ho.symm, hb⟩
      (not_hasNewerEntity.mp hnew f hf.mem)

theorem settled_of_persist (h : ¬ db.Stores e.entityId) (hdb : Settled t db)
    (ht : e.entityType = t) (hnew : hasNewerEntity loc db e = false)
    (hties : TiesOrdered loc db (e.stored loc)) (hfree : PointersFree loc db (e.stored loc)) :
    Settled t (persist loc hasTypeCol e db) := by
  have hents : (persist loc hasTypeCol e db).entities = db.entities ∪ {e.stored loc} :=
    persist_entities h
  have hold : ∀ f ∈ db.entities, (persist loc hasTypeCol e db).Active f ↔
      db.Active f ∧ ¬ f.Overlaps (e.stored loc) := by
    intro f hf
    rw [persist_active_old h hf]
    refine and_congr_right fun ha => not_congr ?_
    exact ⟨fun hfol => hfol.2.1, fun ho => hties.follows hdb ht hnew ha ho⟩
  have hactnew : (persist loc hasTypeCol e db).Active (e.stored loc) := persist_active_new h
  refine ⟨?_, ?_, ?_⟩
  · intro f hf
    rw [hents] at hf
    rcases hf with hf | rfl
    · exact hdb.ofType f hf
    · exact ht
  · intro f hf
    rw [hents, stands_union]
    rw [hents] at hf
    rcases hf with hf | rfl
    · rw [hold f hf, hdb.resolved f hf]
      refine and_congr_right fun _ => ?_
      constructor
      · rintro hno _ rfl hfol
        exact hno hfol.2.1
      · intro hs ho
        exact hs _ rfl ⟨(hdb.ofType f hf).trans ht.symm, ho, hties.before hdb ht hnew hf ho⟩
    · refine ⟨fun _ => ⟨?_, ?_⟩, fun _ => hactnew⟩
      · intro f hf hfol
        exact hfol.2.2.asymm (hties.before hdb ht hnew hf hfol.2.1.symm)
      · rintro _ rfl
        exact Entity.follows_irrefl
  · intro p x
    rw [persist_pointers h hdb ht hnew]
    split
    · rename_i hp
      constructor
      · intro hx
        exact ⟨e.stored loc, hactnew, Option.some.inj hx, hp⟩
      · rintro ⟨f, hf, rfl, hpf⟩
        have hmem := hf.mem
        rw [hents] at hmem
        rcases hmem with hmem | rfl
        · exact absurd ⟨p, hpf, hp⟩ ((hold f hmem).mp hf).2
        · rfl
    · rename_i hp
      have hactive : ∀ f, (persist loc hasTypeCol e db).Active f → p ∈ f.pointers →
          db.Active f ∧ ¬ f.Overlaps (e.stored loc) := by
        intro f hf hpf
        have hmem := hf.mem
        rw [hents] at hmem
        rcases hmem with hmem | rfl
        · exact (hold f hmem).mp hf
        · exact absurd hpf hp
      split
      · rename_i hc
        obtain ⟨-, d, hd, hpd⟩ := mem_cleared.mp hc
        obtain ⟨hdm, hfol, hdel⟩ := mem_overwrote.mp hd
        constructor
        · intro hx
          cases hx
        · rintro ⟨f, hf, -, hpf⟩
          obtain ⟨ha, hno⟩ := hactive f hf hpf
          exact absurd (hfree d hdm hfol.2.1 hfol.2.2 hdel p hpd hp f ha hpf) hno
      · rename_i hc
        rw [hdb.pointers p x]
        constructor
        · rintro ⟨f, hf, hid, hpf⟩
          refine ⟨f, (hold f hf.mem).mpr ⟨hf, fun ho => hc ?_⟩, hid, hpf⟩
          -- an overlapping active entity is overwritten, so p would have been cleared
          obtain ⟨d, hd, rfl, hn⟩ := hf
          refine mem_cleared.mpr ⟨hp, d, (mem_overwrote_of_active hd hn).mpr ?_, hpf⟩
          exact hties.follows hdb ht hnew ⟨d, hd, rfl, hn⟩ ho
        · rintro ⟨f, hf, hid, hpf⟩
          exact ⟨f, (hactive f hf hpf).1, hid, hpf⟩

theorem tiesOrdered_of_persist (h : ¬ db.Stores e.entityId) (hdb : Settled t db)
    (ht : e.entityType = t) (hafter : Settled t (persist loc hasTypeCol e db)) :
    TiesOrdered loc db (e.stored loc) := by
  have hents : (persist loc hasTypeCol e db).entities = db.entities ∪ {e.stored loc} :=
    persist_entities h
  have hactnew : (persist loc hasTypeCol e db).Active (e.stored loc) := persist_active_new h
  intro f hf ho hts
  have htype : f.entityType = (e.stored loc).entityType := (hdb.ofType f hf).trans ht.symm
  have hmem : f ∈ (persist loc hasTypeCol e db).entities := hents ▸ Or.inl hf
  have hne : f.entityId ≠ e.entityId := fun hid => h (Database.stores_iff.mpr ⟨f, hf, hid⟩)
  have hlt : f.entityId < e.entityId := by
    refine lt_of_le_of_ne (not_lt.mp fun hlt => ?_) hne
    exact (hafter.resolved _ hactnew.mem).mp hactnew f hmem
      ⟨htype.symm, ho.symm, Or.inr ⟨hts.symm, hlt⟩⟩
  refine ⟨hlt, fun ha hlow => ?_⟩
  have hstill : (persist loc hasTypeCol e db).Active f := by
    refine (persist_active_old h hf).mpr ⟨ha, fun hfol => ?_⟩
    rcases hfol.2.2 with hb | ⟨-, hb⟩
    · exact absurd hts hb.ne
    · exact absurd (loc.lowerKey_inj.mpr hlow) hb.ne
  exact (hafter.resolved f hmem).mp hstill _ hactnew.mem ⟨htype, ho, Or.inr ⟨hts, hlt⟩⟩

theorem pointersFree_of_persist (h : ¬ db.Stores e.entityId) (hdb : Settled t db)
    (ht : e.entityType = t) (hnew : hasNewerEntity loc db e = false)
    (hafter : Settled t (persist loc hasTypeCol e db)) : PointersFree loc db (e.stored loc) := by
  intro d hd ho hb hdel p hpd hp f hf hpf
  by_contra hno
  have hstill : (persist loc hasTypeCol e db).Active f :=
    (persist_active_old h hf.mem).mpr ⟨hf, fun hfol => hno hfol.2.1⟩
  have hheld := (hafter.pointers p f.entityId).mpr ⟨f, hstill, rfl, hpf⟩
  have hc : p ∈ cleared (e.stored loc) (overwrote loc db (e.stored loc)) := by
    refine mem_cleared.mpr ⟨hp, d, mem_overwrote.mpr ⟨hd, ⟨?_, ho, hb⟩, hdel⟩, hpd⟩
    exact (hdb.ofType _ (Database.entity_mem hd)).trans ht.symm
  rw [persist_pointers h hdb ht hnew, if_neg hp, if_pos hc] at hheld
  cases hheld

/-- **When a local deployment keeps the tables right.** Exactly when the entity is stored
already, or ties are ordered and the pointers it frees are free. -/
theorem persist_settled_iff (loc : Locale) (hasTypeCol : Bool) (t : Text) (db : Database)
    (e : Entity) (hdb : Settled t db) (ht : e.entityType = t)
    (hnew : hasNewerEntity loc db e = false) :
    Settled t (persist loc hasTypeCol e db) ↔ db.Stores e.entityId ∨
      TiesOrdered loc db (e.stored loc) ∧ PointersFree loc db (e.stored loc) := by
  by_cases h : db.Stores e.entityId
  · have hkept : (persist loc hasTypeCol e db).deployments = db.deployments ∧
        (persist loc hasTypeCol e db).activePointers = db.activePointers := persist_stored h
    obtain ⟨hdeps, hap⟩ := hkept
    refine ⟨fun _ => Or.inl h, fun _ => ⟨?_, hdb.resolved.of_deployments hdeps,
      hdb.pointers.of_deployments hdeps hap⟩⟩
    intro f hf
    obtain ⟨d, hd, rfl⟩ := hf
    rw [hdeps] at hd
    exact hdb.ofType _ (Database.entity_mem hd)
  · constructor
    · intro hafter
      exact Or.inr ⟨tiesOrdered_of_persist h hdb ht hafter,
        pointersFree_of_persist h hdb ht hnew hafter⟩
    · rintro (hs | ⟨hties, hfree⟩)
      · exact absurd hs h
      · exact settled_of_persist h hdb ht hnew hties hfree

end Persist

section Examples

/-- A scene on two parcels, one of them redeployed since. -/
def plaza : ParsedEntity := ⟨['a'], ['s'], 1, [['p'], ['q']]⟩
def tower : ParsedEntity := ⟨['c'], ['s'], 3, [['p']]⟩
/-- Deployed late, and older than the tower. -/
def garden : Entity := ⟨['b'], ['s'], 2000, [['q']]⟩
def rebuilt : Entity := ⟨['d'], ['s'], 4000, [['p']]⟩

def town : Database :=
  flushBatches Locale.ascii [(JoinChoice.first, [plaza]), (JoinChoice.first, [tower])] Database.empty

theorem town_deployments : town.deployments =
    [⟨1, plaza.row Locale.ascii, some 2⟩, ⟨2, tower.row Locale.ascii, none⟩] := by
  decide

theorem town_settled : Settled ['s'] town := by
  have hset : OneType ['s'] {plaza, tower} := ⟨by decide, by decide⟩
  have hcover : ∀ e, e ∈ ({plaza, tower} : Finset ParsedEntity) ↔
      ∃ b ∈ [(JoinChoice.first, [plaza]), (JoinChoice.first, [tower])], e ∈ b.2 := by simp
  have hfill : Filling Locale.ascii {plaza, tower} town :=
    flushBatches_filling _ (filling_empty _ _) hset (by decide) fun b hb e he =>
      (hcover e).mpr ⟨b, hb, he⟩
  refine ⟨hset.ofType hfill.within, hfill.resolved, hfill.pointersExact hset (by decide) ?_⟩
  exact fun e he => (flushBatches_stored hset hcover _).mpr ⟨e, he, rfl⟩

theorem persist_settled_iff_rebuilt :
    Settled ['s'] (persist Locale.ascii true rebuilt town) := by
  refine (persist_settled_iff Locale.ascii true ['s'] town rebuilt town_settled rfl
    (by decide)).mpr (Or.inr ⟨?_, ?_⟩)
  · rintro _ ⟨d, hd, rfl⟩ - hts
    rw [town_deployments] at hd
    simp only [List.mem_cons, List.not_mem_nil, or_false] at hd
    rcases hd with rfl | rfl
    · exact absurd hts (by decide)
    · exact absurd hts (by decide)
  · intro d hd _ _ hdel p hp hpe
    rw [town_deployments] at hd
    simp only [List.mem_cons, List.not_mem_nil, or_false] at hd
    rcases hd with rfl | rfl
    · exact absurd hdel (by decide)
    · exact absurd (show p ∈ (rebuilt.stored Locale.ascii).pointers by
        rw [show (rebuilt.stored Locale.ascii).pointers = [['p']] by decide]
        exact hp) hpe

/-- The garden passes the check, is not in the tower's way and still takes the tower's
pointer away: the plaza under the garden had one parcel under the tower. -/
theorem persist_frees_held_pointer :
    Settled ['s'] town ∧ hasNewerEntity Locale.ascii town garden = false ∧
      town.activePointers ['p'] = some ⟨['c'], some ['s']⟩ ∧
      (persist Locale.ascii true garden town).Active (tower.row Locale.ascii) ∧
      (persist Locale.ascii true garden town).activePointers ['p'] = none ∧
      ¬ Settled ['s'] (persist Locale.ascii true garden town) := by
  have hactive : (persist Locale.ascii true garden town).Active (tower.row Locale.ascii) :=
    ⟨⟨2, tower.row Locale.ascii, none⟩, by decide, rfl, rfl⟩
  have hnone : (persist Locale.ascii true garden town).activePointers ['p'] = none := by
    decide
  refine ⟨town_settled, by decide, by decide, hactive, hnone, ?_⟩
  intro h
  have hheld := (h.pointers ['p'] ['c']).mpr
    ⟨tower.row Locale.ascii, hactive, rfl, List.mem_singleton.mpr rfl⟩
  rw [hnone] at hheld
  cases hheld

end Examples

end Catalyrst.Content
