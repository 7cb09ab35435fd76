import Mathlib
import Catalyrst.Lib.Instances
import Catalyrst.Lib.Precedence

/-!
# The content tables

The two tables that decide which entity a pointer resolves to: `deployments`, one
row per stored entity with the deployment that overwrote it, and
`active_pointers`. The keys of `deployments` are fields of the database, so no
statement below can break them.

Rust compares text by code points, SQL by the collation of the database.
-/

namespace Catalyrst.Content

open Catalyrst.Lib

abbrev Text := List Char
abbrev Pointer := Text
abbrev EntityId := Text

/-- The columns of an entity that the write paths compare. The timestamp is what the column holds,
whole microseconds. -/
structure Entity where
  entityId : EntityId
  entityType : Text
  timestamp : ℤ
  pointers : List Pointer
deriving DecidableEq, Repr

/-- `str::to_lowercase` of Rust, and what the database makes of texts and times: `lower`, the sort
key of a text (no two texts share one) and `to_timestamp` of milliseconds. -/
structure Locale where
  toLowercase : Text → Text
  lower : Text → Text
  collate : Text → Text
  toTimestamp : ℚ → ℤ
  collate_injective : Function.Injective collate

namespace Locale

/-- What `ORDER BY lower(entity_id)` compares. -/
def lowerKey (loc : Locale) (entityId : EntityId) : Text := loc.collate (loc.lower entityId)

theorem lowerKey_inj (loc : Locale) {x y : EntityId} :
    loc.lowerKey x = loc.lowerKey y ↔ loc.lower x = loc.lower y :=
  loc.collate_injective.eq_iff

/-- Whole microseconds nearest to `ms` milliseconds. -/
def microseconds (ms : ℚ) : ℤ := (2000 * ms.num + ms.den) / (2 * ms.den)

/-- A database that compares texts by code points. -/
def ascii : Locale where
  toLowercase := List.map Char.toLower
  lower := List.map Char.toLower
  collate := id
  toTimestamp := microseconds
  collate_injective := Function.injective_id

/-- A database that compares letters first and looks at their case where they agree. -/
def dictionary : Locale where
  toLowercase := List.map Char.toLower
  lower := List.map Char.toLower
  collate s := s.map Char.toLower ++ Char.ofNat 0 :: s
  toTimestamp := microseconds
  collate_injective s t h := by
    have hlen : (s.map Char.toLower).length = (t.map Char.toLower).length := by
      have hall := congrArg List.length h
      simp only [List.length_append, List.length_map, List.length_cons] at hall ⊢
      omega
    exact List.tail_eq_of_cons_eq (List.append_inj h hlen).2

end Locale

namespace Entity

/-- The `&&` of two pointer arrays. -/
def Overlaps (d e : Entity) : Prop := ∃ p ∈ d.pointers, p ∈ e.pointers

instance (d e : Entity) : Decidable (d.Overlaps e) :=
  inferInstanceAs (Decidable (∃ p ∈ d.pointers, p ∈ e.pointers))

/-- The order of `(timestamp, id)`, the id read through `key`. -/
def Before (key : EntityId → Text) (d e : Entity) : Prop :=
  d.timestamp < e.timestamp ∨ d.timestamp = e.timestamp ∧ key d.entityId < key e.entityId

instance (key : EntityId → Text) (d e : Entity) : Decidable (d.Before key e) :=
  inferInstanceAs (Decidable (_ ∨ _))

/-- `e` is of the type of `d`, shares a pointer with it and comes after it. -/
def Follows (key : EntityId → Text) (e d : Entity) : Prop :=
  d.entityType = e.entityType ∧ d.Overlaps e ∧ d.Before key e

instance (key : EntityId → Text) (e d : Entity) : Decidable (e.Follows key d) :=
  inferInstanceAs (Decidable (_ ∧ _ ∧ _))

theorem Overlaps.symm {d e : Entity} (h : d.Overlaps e) : e.Overlaps d := by
  obtain ⟨p, hd, he⟩ := h
  exact ⟨p, he, hd⟩

variable {key : EntityId → Text} {d e f : Entity}

theorem before_iff : d.Before key e ↔
    toLex (d.timestamp, key d.entityId) < toLex (e.timestamp, key e.entityId) := by
  rw [Prod.Lex.toLex_lt_toLex]
  exact Iff.rfl

theorem before_irrefl : ¬ d.Before key d := by
  rw [before_iff]
  exact lt_irrefl _

theorem Before.trans (h : d.Before key e) (h' : e.Before key f) : d.Before key f := by
  rw [before_iff] at *
  exact h.trans h'

theorem Before.asymm (h : d.Before key e) : ¬ e.Before key d :=
  fun h' => before_irrefl (h.trans h')

theorem before_trichotomy (key : EntityId → Text) (d e : Entity) :
    d.Before key e ∨ (d.timestamp = e.timestamp ∧ key d.entityId = key e.entityId) ∨
      e.Before key d := by
  simp only [before_iff]
  rcases lt_trichotomy (toLex (d.timestamp, key d.entityId))
    (toLex (e.timestamp, key e.entityId)) with h | h | h
  · exact Or.inl h
  · exact Or.inr (Or.inl (Prod.mk.inj (toLex.injective h)))
  · exact Or.inr (Or.inr h)

theorem follows_irrefl : ¬ d.Follows key d := fun h => before_irrefl h.2.2

/-- Entities of one type that share a pointer compare, unless their keys coincide. -/
theorem follows_total (ht : d.entityType = e.entityType) (ho : d.Overlaps e)
    (hk : key d.entityId = key e.entityId → d = e) :
    d = e ∨ d.Follows key e ∨ e.Follows key d := by
  rcases before_trichotomy key d e with h | h | h
  · exact Or.inr (Or.inr ⟨ht, ho, h⟩)
  · exact Or.inl (hk h.2)
  · exact Or.inr (Or.inl ⟨ht.symm, ho.symm, h⟩)

end Entity

/-- A row of `deployments`. -/
structure Deployment where
  id : ℕ
  entity : Entity
  deleterDeployment : Option ℕ
deriving DecidableEq, Repr

/-- A row of `active_pointers` without its key. Before migration 0005 the table has
no type column. -/
structure ActivePointer where
  entityId : EntityId
  entityType : Option Text
deriving DecidableEq, Repr

structure Database where
  deployments : List Deployment
  -- the next value of deployments_id_seq
  nextId : ℕ
  activePointers : Pointer → Option ActivePointer
  pkey : (deployments.map Deployment.id).Nodup
  entityIdKey : (deployments.map fun d => d.entity.entityId).Nodup
  id_lt : ∀ d ∈ deployments, d.id < nextId

namespace Database

def empty : Database where
  deployments := []
  nextId := 1
  activePointers := fun _ => none
  pkey := List.nodup_nil
  entityIdKey := List.nodup_nil
  id_lt := by simp

def Stores (db : Database) (entityId : EntityId) : Prop :=
  ∃ d ∈ db.deployments, d.entity.entityId = entityId

instance (db : Database) (entityId : EntityId) : Decidable (db.Stores entityId) :=
  inferInstanceAs (Decidable (∃ d ∈ db.deployments, d.entity.entityId = entityId))

/-- `INSERT ... ON CONFLICT (entity_id) DO NOTHING RETURNING id`. A conflicting row has
taken its value of the sequence as well. -/
def insert (db : Database) (e : Entity) : Database × Option ℕ :=
  if h : db.Stores e.entityId then
    ({ db with
       nextId := db.nextId + 1
       id_lt := fun d hd => Nat.lt_succ_of_lt (db.id_lt d hd) }, none)
  else
    ({ db with
       deployments := db.deployments ++ [⟨db.nextId, e, none⟩]
       nextId := db.nextId + 1
       pkey := by
         simp only [List.map_append, List.map_cons, List.map_nil]
         refine List.nodup_append.mpr ⟨db.pkey, List.nodup_singleton _, ?_⟩
         intro a ha b hb
         obtain ⟨d, hd, rfl⟩ := List.mem_map.mp ha
         rw [List.mem_singleton.mp hb]
         exact (db.id_lt d hd).ne
       entityIdKey := by
         simp only [List.map_append, List.map_cons, List.map_nil]
         refine List.nodup_append.mpr ⟨db.entityIdKey, List.nodup_singleton _, ?_⟩
         intro a ha b hb hab
         obtain ⟨d, hd, rfl⟩ := List.mem_map.mp ha
         exact h ⟨d, hd, hab.trans (List.mem_singleton.mp hb)⟩
       id_lt := by
         intro d hd
         rcases List.mem_append.mp hd with hd | hd
         · exact Nat.lt_succ_of_lt (db.id_lt d hd)
         · rw [List.mem_singleton.mp hd]
           exact Nat.lt_succ_self _ }, some db.nextId)

/-- `UPDATE deployments SET deleter_deployment = ...`, row by row. -/
def setDeleter (db : Database) (deleter : Deployment → Option ℕ) : Database :=
  { db with
    deployments := db.deployments.map fun d => { d with deleterDeployment := deleter d }
    pkey := by
      simpa [List.map_map, Function.comp_def] using db.pkey
    entityIdKey := by
      simpa [List.map_map, Function.comp_def] using db.entityIdKey
    id_lt := by
      intro d hd
      obtain ⟨c, hc, rfl⟩ := List.mem_map.mp hd
      exact db.id_lt c hc }

def setPointers (db : Database) (pointers : Pointer → Option ActivePointer) : Database :=
  { db with activePointers := pointers }

variable {db : Database} {c d : Deployment}

theorem eq_of_entityId (hc : c ∈ db.deployments) (hd : d ∈ db.deployments)
    (h : c.entity.entityId = d.entity.entityId) : c = d :=
  List.inj_on_of_nodup_map db.entityIdKey hc hd h

theorem eq_of_id (hc : c ∈ db.deployments) (hd : d ∈ db.deployments) (h : c.id = d.id) : c = d :=
  List.inj_on_of_nodup_map db.pkey hc hd h

/-- The stored entities. -/
def entities (db : Database) : Set Entity := {e | ∃ d ∈ db.deployments, d.entity = e}

theorem entity_mem (hd : d ∈ db.deployments) : d.entity ∈ db.entities := ⟨d, hd, rfl⟩

/-- `e` is stored and nothing has overwritten it. -/
def Active (db : Database) (e : Entity) : Prop :=
  ∃ d ∈ db.deployments, d.entity = e ∧ d.deleterDeployment = none

/-- Exactly the entities without a stored follower are active. -/
def Resolved (key : EntityId → Text) (db : Database) : Prop :=
  ∀ e ∈ db.entities, db.Active e ↔ Stands (Entity.Follows key) db.entities e

/-- The active pointers are the pointers of the active entities. -/
def PointersExact (db : Database) : Prop :=
  ∀ p entityId, (db.activePointers p).map ActivePointer.entityId = some entityId ↔
    ∃ e, db.Active e ∧ e.entityId = entityId ∧ p ∈ e.pointers

/-- Every stored entity has the type `t`. -/
def OfType (t : Text) (db : Database) : Prop := ∀ e ∈ db.entities, e.entityType = t

theorem Active.mem {e : Entity} (h : db.Active e) : e ∈ db.entities := by
  obtain ⟨d, hd, rfl, -⟩ := h
  exact entity_mem hd

theorem active_entity (hd : d ∈ db.deployments) :
    db.Active d.entity ↔ d.deleterDeployment = none := by
  constructor
  · rintro ⟨c, hc, he, hn⟩
    rwa [← eq_of_entityId hc hd (congrArg _ he)]
  · intro h
    exact ⟨d, hd, rfl, h⟩

theorem entity_eq_of_entityId {e f : Entity} (he : e ∈ db.entities) (hf : f ∈ db.entities)
    (h : e.entityId = f.entityId) : e = f := by
  obtain ⟨c, hc, rfl⟩ := he
  obtain ⟨d, hd, rfl⟩ := hf
  rw [eq_of_entityId hc hd h]

@[simp] theorem setDeleter_activePointers (deleter : Deployment → Option ℕ) :
    (db.setDeleter deleter).activePointers = db.activePointers := rfl

@[simp] theorem setPointers_activePointers (ap : Pointer → Option ActivePointer) :
    (db.setPointers ap).activePointers = ap := rfl

theorem mem_setDeleter {deleter : Deployment → Option ℕ} :
    d ∈ (db.setDeleter deleter).deployments ↔
      ∃ c ∈ db.deployments, { c with deleterDeployment := deleter c } = d := by
  simp [setDeleter]

@[simp] theorem setDeleter_entities (deleter : Deployment → Option ℕ) :
    (db.setDeleter deleter).entities = db.entities := by
  ext e
  constructor
  · rintro ⟨d, hd, rfl⟩
    obtain ⟨c, hc, rfl⟩ := mem_setDeleter.mp hd
    exact ⟨c, hc, rfl⟩
  · rintro ⟨c, hc, rfl⟩
    exact ⟨_, mem_setDeleter.mpr ⟨c, hc, rfl⟩, rfl⟩

theorem setDeleter_active (deleter : Deployment → Option ℕ) (hd : d ∈ db.deployments) :
    (db.setDeleter deleter).Active d.entity ↔ deleter d = none :=
  active_entity (d := { d with deleterDeployment := deleter d }) (mem_setDeleter.mpr ⟨d, hd, rfl⟩)

theorem insert_of_stores {e : Entity} (h : db.Stores e.entityId) :
    (db.insert e).2 = none ∧ (db.insert e).1.deployments = db.deployments ∧
      (db.insert e).1.activePointers = db.activePointers := by
  simp [insert, h]

theorem insert_of_not_stores {e : Entity} (h : ¬ db.Stores e.entityId) :
    (db.insert e).2 = some db.nextId ∧
      (db.insert e).1.deployments = db.deployments ++ [⟨db.nextId, e, none⟩] ∧
      (db.insert e).1.activePointers = db.activePointers := by
  simp [insert, h]

end Database

end Catalyrst.Content
