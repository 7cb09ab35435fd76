import Mathlib
import Catalyrst.Content.Tables

/-!
# One transaction of the sync deployer

`flush_batch`: the statements of the transaction in their order, each with what it
does to the rows. The entities carry their pointers as parsed, in lower case. Which
entity of the batch a pointer goes to is settled in Rust, everything else in SQL.
-/

namespace Catalyrst.Content

open Catalyrst.Lib

/-- `UPDATE ... FROM` takes one of the joined rows for each row it updates, and does not
say which. -/
structure JoinChoice where
  pick : Deployment → List ℕ → ℕ
  pick_mem : ∀ d ids, ids ≠ [] → pick d ids ∈ ids

def JoinChoice.first : JoinChoice where
  pick _ ids := ids.headD 0
  pick_mem := by
    intro d ids h
    cases ids with
    | nil => exact absurd rfl h
    | cons i ids => exact List.mem_cons_self

/-- An entity as it was sent. The timestamp is a double, in milliseconds. -/
structure ParsedEntity where
  entityId : EntityId
  entityType : Text
  entityTimestamp : ℚ
  entityPointers : List Pointer
deriving DecidableEq, Repr

namespace ParsedEntity

/-- What the insert makes of it. -/
def row (loc : Locale) (e : ParsedEntity) : Entity where
  entityId := e.entityId
  entityType := e.entityType
  timestamp := loc.toTimestamp e.entityTimestamp
  pointers := e.entityPointers

def Overlaps (d e : ParsedEntity) : Prop := ∃ p ∈ d.entityPointers, p ∈ e.entityPointers

instance (d e : ParsedEntity) : Decidable (d.Overlaps e) :=
  inferInstanceAs (Decidable (∃ p ∈ d.entityPointers, p ∈ e.entityPointers))

/-- The order of `(timestamp, id)` in Rust. -/
def Before (d e : ParsedEntity) : Prop :=
  d.entityTimestamp < e.entityTimestamp ∨
    d.entityTimestamp = e.entityTimestamp ∧ d.entityId < e.entityId

instance (d e : ParsedEntity) : Decidable (d.Before e) := inferInstanceAs (Decidable (_ ∨ _))

variable {d e f : ParsedEntity}

theorem before_iff : d.Before e ↔
    toLex (d.entityTimestamp, d.entityId) < toLex (e.entityTimestamp, e.entityId) := by
  rw [Prod.Lex.toLex_lt_toLex]
  exact Iff.rfl

theorem before_irrefl : ¬ d.Before d := by
  rw [before_iff]
  exact lt_irrefl _

theorem Before.trans (h : d.Before e) (h' : e.Before f) : d.Before f := by
  rw [before_iff] at *
  exact h.trans h'

/-- Entities with different ids compare. -/
theorem before_total (h : d.entityId ≠ e.entityId) : d.Before e ∨ e.Before d := by
  simp only [before_iff]
  refine lt_or_gt_of_ne fun heq => h ?_
  exact (Prod.mk.inj (toLex.injective heq)).2

end ParsedEntity

/-- The rows of the batch that `seen.insert` lets through. -/
def firstOfEachId (seen : List EntityId) : List ParsedEntity → List ParsedEntity
  | [] => []
  | e :: es =>
    if e.entityId ∈ seen then firstOfEachId seen es
    else e :: firstOfEachId (e.entityId :: seen) es

/-- The insert of the whole batch, with the `entity_id, id` it returns. -/
def insertRows : List Entity → Database → Database × List (EntityId × ℕ)
  | [], db => (db, [])
  | e :: es, db =>
    let inserted := db.insert e
    let rest := insertRows es inserted.1
    (rest.1, (inserted.2.map fun i => (e.entityId, i)).toList ++ rest.2)

/-- The entities of the batch that `id_map` knows, with their row ids. -/
def freshRows (rows : List (EntityId × ℕ)) (entities : List ParsedEntity) :
    List (ℕ × ParsedEntity) :=
  entities.filterMap fun e => (rows.lookup e.entityId).map fun i => (i, e)

abbrev ApDedup := Pointer → Option (EntityId × Text × ℚ)

def apReplaces (e : ParsedEntity) : Option (EntityId × Text × ℚ) → Bool
  | none => true
  | some (existingId, _, existingTs) =>
    e.entityTimestamp > existingTs ||
      (e.entityTimestamp == existingTs && e.entityId > existingId)

def apInsert (e : ParsedEntity) (m : ApDedup) (ptr : Pointer) : ApDedup :=
  if apReplaces e (m ptr) then
    Function.update m ptr (some (e.entityId, e.entityType, e.entityTimestamp))
  else m

def apDedup (fresh : List ParsedEntity) : ApDedup :=
  fresh.foldl (fun m e => e.entityPointers.foldl (apInsert e) m) fun _ => none

/-! ### The statements

`batch` holds the arrays that are bound to the statements, row by row. -/

/-- The rows of the batch that `old` joins with. -/
def newerRows (loc : Locale) (batch : List (ℕ × Entity)) (old : Deployment) : List ℕ :=
  (batch.filter fun row => row.2.Follows loc.collate old.entity ∧ old.id ≠ row.1).map Prod.fst

def olderDeleter (loc : Locale) (choice : JoinChoice) (batch : List (ℕ × Entity))
    (old : Deployment) : Option ℕ :=
  if old.deleterDeployment = none ∧ newerRows loc batch old ≠ [] then
    some (choice.pick old (newerRows loc batch old))
  else old.deleterDeployment

/-- The first `UPDATE`: rows that a row of the batch follows. -/
def overwriteOlder (loc : Locale) (choice : JoinChoice) (batch : List (ℕ × Entity))
    (db : Database) : Database :=
  db.setDeleter (olderDeleter loc choice batch)

/-- `ORDER BY entity_timestamp, entity_id LIMIT 1`. -/
def oldest (loc : Locale) : List Deployment → Option Deployment
  | [] => none
  | d :: ds =>
    match oldest loc ds with
    | none => some d
    | some o => if o.entity.Before loc.collate d.entity then some o else some d

/-- The oldest stored row that follows `nr`. -/
def newerId (loc : Locale) (db : Database) (nr : Deployment) : Option ℕ :=
  (oldest loc (db.deployments.filter fun d =>
    d.entity.Follows loc.collate nr.entity ∧ d.id ≠ nr.id)).map Deployment.id

def freshDeleter (loc : Locale) (ids : List ℕ) (db : Database) (n : Deployment) : Option ℕ :=
  match newerId loc db n with
  | some newer => if n.id ∈ ids ∧ n.deleterDeployment = none then some newer
    else n.deleterDeployment
  | none => n.deleterDeployment

/-- The second `UPDATE`: rows of the batch that a stored row follows. -/
def overwriteFresh (loc : Locale) (ids : List ℕ) (db : Database) : Database :=
  db.setDeleter (freshDeleter loc ids db)

/-- The row of `active_pointers` belongs to an entity that this batch overwrote, or to
an overwritten entity of the batch. -/
def staleIn (ids : List ℕ) (db : Database) (ap : ActivePointer) : Prop :=
  ∃ d ∈ db.deployments, d.entity.entityId = ap.entityId ∧ d.deleterDeployment ≠ none ∧
    (d.deleterDeployment.any (· ∈ ids) ∨ d.id ∈ ids)

instance (ids : List ℕ) (db : Database) (ap : ActivePointer) : Decidable (staleIn ids db ap) :=
  inferInstanceAs (Decidable (∃ d ∈ db.deployments, _ ∧ _ ∧ _))

def deleteOverwritten (ids : List ℕ) (db : Database) : Database :=
  db.setPointers fun p => (db.activePointers p).filter fun ap => ¬ staleIn ids db ap

/-- The current holder of a pointer is newer than the incoming one. -/
def holderIsNewer (loc : Locale) (db : Database) (current incoming : EntityId) : Prop :=
  ∃ cur ∈ db.deployments, ∃ inc ∈ db.deployments, cur.entity.entityId = current ∧
    inc.entity.entityId = incoming ∧ inc.entity.Before loc.lowerKey cur.entity

instance (loc : Locale) (db : Database) (current incoming : EntityId) :
    Decidable (holderIsNewer loc db current incoming) :=
  inferInstanceAs (Decidable (∃ cur ∈ db.deployments, ∃ inc ∈ db.deployments, _ ∧ _ ∧ _))

def joinsActive (db : Database) (entityId : EntityId) : Prop :=
  ∃ dep ∈ db.deployments, dep.entity.entityId = entityId ∧ dep.deleterDeployment = none

instance (db : Database) (entityId : EntityId) : Decidable (joinsActive db entityId) :=
  inferInstanceAs (Decidable (∃ dep ∈ db.deployments, _ ∧ _))

def upsertPointers (loc : Locale) (m : ApDedup) (db : Database) : Database :=
  db.setPointers fun p =>
    match m p with
    | none => db.activePointers p
    | some (entityId, entityType, _) =>
      if joinsActive db entityId then
        match db.activePointers p with
        | none => some ⟨entityId, some entityType⟩
        | some ap =>
          if holderIsNewer loc db ap.entityId entityId then some ap
          else some ⟨entityId, some entityType⟩
      else db.activePointers p

def flushBatch (loc : Locale) (choice : JoinChoice) (entities : List ParsedEntity)
    (db : Database) : Database :=
  if entities = [] then db
  else
    let entities := firstOfEachId [] entities
    let inserted := insertRows (entities.map (ParsedEntity.row loc)) db
    if inserted.2 = [] then inserted.1
    else
      let fresh := freshRows inserted.2 entities
      let batch := fresh.map fun row => (row.1, row.2.row loc)
      let ids := batch.map Prod.fst
      let db := overwriteFresh loc ids (overwriteOlder loc choice batch inserted.1)
      upsertPointers loc (apDedup (fresh.map Prod.snd)) (deleteOverwritten ids db)

def flushBatches (loc : Locale) (batches : List (JoinChoice × List ParsedEntity))
    (db : Database) : Database :=
  batches.foldl (fun db batch => flushBatch loc batch.1 batch.2 db) db

section Batch

theorem firstOfEachId_subset (seen : List EntityId) (es : List ParsedEntity) :
    ∀ e ∈ firstOfEachId seen es, e ∈ es ∧ e.entityId ∉ seen := by
  induction es generalizing seen with
  | nil => simp [firstOfEachId]
  | cons x es ih =>
    intro e he
    unfold firstOfEachId at he
    split at he
    · obtain ⟨hm, hs⟩ := ih _ e he
      exact ⟨List.mem_cons_of_mem _ hm, hs⟩
    · rename_i hx
      rcases List.mem_cons.mp he with rfl | he
      · exact ⟨List.mem_cons_self, hx⟩
      · obtain ⟨hm, hs⟩ := ih _ e he
        exact ⟨List.mem_cons_of_mem _ hm, fun h => hs (List.mem_cons_of_mem _ h)⟩

theorem firstOfEachId_nodup (seen : List EntityId) (es : List ParsedEntity) :
    ((firstOfEachId seen es).map ParsedEntity.entityId).Nodup := by
  induction es generalizing seen with
  | nil => exact List.nodup_nil
  | cons x es ih =>
    unfold firstOfEachId
    split
    · exact ih _
    · rw [List.map_cons, List.nodup_cons]
      refine ⟨?_, ih _⟩
      intro h
      obtain ⟨e, he, hid⟩ := List.mem_map.mp h
      exact (firstOfEachId_subset _ _ e he).2 (by simp [hid])

/-- Every id of the batch is kept. -/
theorem firstOfEachId_covers (seen : List EntityId) (es : List ParsedEntity) {e : ParsedEntity}
    (he : e ∈ es)
    (hs : e.entityId ∉ seen) : ∃ f ∈ firstOfEachId seen es, f.entityId = e.entityId := by
  induction es generalizing seen with
  | nil => cases he
  | cons x es ih =>
    unfold firstOfEachId
    by_cases hx : x.entityId = e.entityId
    · rw [if_neg (hx ▸ hs)]
      exact ⟨x, List.mem_cons_self, hx⟩
    · have he' : e ∈ es := by
        rcases List.mem_cons.mp he with rfl | h
        · exact absurd rfl hx
        · exact h
      split
      · exact ih _ he' hs
      · obtain ⟨f, hf, hid⟩ := ih (x.entityId :: seen) he' (by simp [hs, Ne.symm hx])
        exact ⟨f, List.mem_cons_of_mem _ hf, hid⟩

/-- What the insert of a batch leaves: the rows there were, and one row for each
entity whose id was not stored. -/
structure Inserted (es : List Entity) (db db' : Database) (rows : List (EntityId × ℕ))
    (new : List Deployment) : Prop where
  deployments : db'.deployments = db.deployments ++ new
  returned : rows = new.map fun d => (d.entity.entityId, d.id)
  mem : ∀ d ∈ new, d.entity ∈ es
  undeleted : ∀ d ∈ new, d.deleterDeployment = none
  stores : ∀ e ∈ es, db'.Stores e.entityId
  pointers : db'.activePointers = db.activePointers

theorem insertRows_inserted (es : List Entity) (db : Database) :
    ∃ new, Inserted es db (insertRows es db).1 (insertRows es db).2 new := by
  induction es generalizing db with
  | nil =>
    exact ⟨[], ⟨by simp [insertRows], rfl, by simp, by simp, by simp, rfl⟩⟩
  | cons e es ih =>
    obtain ⟨new, h⟩ := ih (db.insert e).1
    by_cases hs : db.Stores e.entityId
    · obtain ⟨hnone, hdeps, hap⟩ := Database.insert_of_stores hs
      refine ⟨new, ⟨?_, ?_, fun d hd => List.mem_cons_of_mem _ (h.mem d hd), h.undeleted, ?_, ?_⟩⟩
      · exact h.deployments.trans (by rw [hdeps])
      · simp only [insertRows, hnone, Option.map_none, Option.toList_none, List.nil_append]
        exact h.returned
      · rintro f hf
        rcases List.mem_cons.mp hf with rfl | hf
        · obtain ⟨d, hd, hid⟩ := hs
          refine ⟨d, ?_, hid⟩
          have hd' : d ∈ (insertRows es (db.insert f).1).1.deployments := by
            rw [h.deployments, hdeps]
            exact List.mem_append_left _ hd
          exact hd'
        · exact h.stores f hf
      · exact h.pointers.trans hap
    · obtain ⟨hsome, hdeps, hap⟩ := Database.insert_of_not_stores hs
      have hall : (insertRows es (db.insert e).1).1.deployments =
          db.deployments ++ (⟨db.nextId, e, none⟩ :: new) := by
        rw [h.deployments, hdeps, List.append_assoc]
        rfl
      refine ⟨⟨db.nextId, e, none⟩ :: new, ⟨hall, ?_, ?_, ?_, ?_, h.pointers.trans hap⟩⟩
      · simp only [insertRows, hsome, Option.map_some, Option.toList_some, List.map_cons,
          h.returned, List.cons_append, List.nil_append]
      · intro d hd
        rcases List.mem_cons.mp hd with rfl | hd
        · exact List.mem_cons_self
        · exact List.mem_cons_of_mem _ (h.mem d hd)
      · intro d hd
        rcases List.mem_cons.mp hd with rfl | hd
        · rfl
        · exact h.undeleted d hd
      · intro f hf
        rcases List.mem_cons.mp hf with rfl | hf
        · have hd' : (⟨db.nextId, f, none⟩ : Deployment) ∈
              (insertRows es (db.insert f).1).1.deployments := by
            rw [hall]
            simp
          exact ⟨_, hd', rfl⟩
        · exact h.stores f hf

theorem lookup_returned {new : List Deployment} {k : EntityId} {i : ℕ}
    (h : (new.map fun d => (d.entity.entityId, d.id)).lookup k = some i) :
    ∃ d ∈ new, d.entity.entityId = k ∧ d.id = i := by
  induction new with
  | nil => cases h
  | cons d new ih =>
    rw [List.map_cons, List.lookup_cons] at h
    split at h
    · rename_i hk
      exact ⟨d, List.mem_cons_self, (eq_of_beq hk).symm, Option.some.inj h⟩
    · obtain ⟨c, hc, hid⟩ := ih h
      exact ⟨c, List.mem_cons_of_mem _ hc, hid⟩

theorem returned_lookup {new : List Deployment} {d : Deployment} (hd : d ∈ new)
    (hn : (new.map fun d => d.entity.entityId).Nodup) :
    (new.map fun d => (d.entity.entityId, d.id)).lookup d.entity.entityId = some d.id := by
  induction new with
  | nil => cases hd
  | cons c new ih =>
    rw [List.map_cons, List.nodup_cons] at hn
    rw [List.map_cons, List.lookup_cons]
    rcases List.mem_cons.mp hd with rfl | hd
    · simp
    · have hne : d.entity.entityId ≠ c.entity.entityId := by
        intro h
        exact hn.1 (List.mem_map.mpr ⟨d, hd, h⟩)
      simp only [beq_eq_false_iff_ne.mpr hne]
      exact ih hd hn.2

variable {es : List Entity} {db db' : Database} {rows : List (EntityId × ℕ)}
  {new : List Deployment}

theorem Inserted.new_nodup (h : Inserted es db db' rows new) :
    (new.map fun d => d.entity.entityId).Nodup := by
  have hkey := db'.entityIdKey
  rw [h.deployments, List.map_append] at hkey
  exact (List.nodup_append.mp hkey).2.1

/-- The pairs collected for the overwrite statements are the inserted rows. -/
theorem Inserted.mem_freshRows {loc : Locale} {es : List ParsedEntity}
    (h : Inserted (es.map (ParsedEntity.row loc)) db db' rows new)
    (hes : (es.map ParsedEntity.entityId).Nodup) {i : ℕ} {e : ParsedEntity} :
    (i, e) ∈ freshRows rows es ↔ e ∈ es ∧ ⟨i, e.row loc, none⟩ ∈ new := by
  simp only [freshRows, List.mem_filterMap, Option.map_eq_some_iff, Prod.mk.injEq, h.returned]
  constructor
  · rintro ⟨f, hf, j, hj, rfl, rfl⟩
    obtain ⟨d, hd, hid, rfl⟩ := lookup_returned hj
    obtain ⟨g, hg, hrow⟩ := List.mem_map.mp (h.mem d hd)
    obtain rfl : g = f :=
      List.inj_on_of_nodup_map hes hg hf ((congrArg Entity.entityId hrow).trans hid)
    have hd' := h.undeleted d hd
    cases d
    subst hd' hrow
    exact ⟨hf, hd⟩
  · rintro ⟨he, hd⟩
    exact ⟨e, he, i, returned_lookup hd h.new_nodup, rfl, rfl⟩

/-- What is bound to the overwrite statements are the inserted rows. -/
theorem Inserted.mem_batch {loc : Locale} {es : List ParsedEntity}
    (h : Inserted (es.map (ParsedEntity.row loc)) db db' rows new)
    (hes : (es.map ParsedEntity.entityId).Nodup) {i : ℕ} {e : Entity} :
    (i, e) ∈ (freshRows rows es).map (fun row => (row.1, row.2.row loc)) ↔ ⟨i, e, none⟩ ∈ new := by
  simp only [List.mem_map, Prod.mk.injEq, Prod.exists, h.mem_freshRows hes]
  constructor
  · rintro ⟨j, f, ⟨-, hd⟩, rfl, rfl⟩
    exact hd
  · intro hd
    obtain ⟨f, hf, rfl⟩ := List.mem_map.mp (h.mem _ hd)
    exact ⟨i, f, ⟨hf, hd⟩, rfl, rfl⟩

end Batch

section Dedup

variable {e f : ParsedEntity}

def apEntry (e : ParsedEntity) : EntityId × Text × ℚ :=
  (e.entityId, e.entityType, e.entityTimestamp)

theorem apReplaces_entry : apReplaces e (some (apEntry f)) = true ↔ f.Before e := by
  simp only [apReplaces, apEntry, ParsedEntity.Before, gt_iff_lt, Bool.or_eq_true,
    Bool.and_eq_true, decide_eq_true_eq, beq_iff_eq]
  rw [eq_comm (a := e.entityTimestamp)]

theorem apInsert_fold (ps : List Pointer) (m : ApDedup) (q : Pointer) :
    ps.foldl (apInsert e) m q =
      if q ∈ ps ∧ apReplaces e (m q) = true then some (apEntry e) else m q := by
  induction ps generalizing m with
  | nil => simp
  | cons p ps ih =>
    rw [List.foldl_cons, ih]
    have hself : apReplaces e (some (apEntry e)) = false := by
      rw [Bool.eq_false_iff, ne_eq, apReplaces_entry]
      exact ParsedEntity.before_irrefl
    by_cases hp : apReplaces e (m p) = true
    · by_cases hq : q = p
      · subst hq
        have hm : apInsert e m q q = some (apEntry e) := by
          simp [apInsert, hp, apEntry]
        rw [hm, hself]
        simp [hp]
      · have hm : apInsert e m p q = m q := by
          simp [apInsert, hp, Function.update_of_ne hq]
        rw [hm]
        simp [hq]
    · have hm : apInsert e m p = m := by simp [apInsert, hp]
      rw [hm]
      by_cases hq : q = p
      · subst hq
        simp [hp]
      · simp [hq]

/-- The entry of a pointer is the last of the entities that carry it. -/
def IsLast (es : List ParsedEntity) (p : Pointer) : Option (EntityId × Text × ℚ) → Prop
  | none => ∀ e ∈ es, p ∉ e.entityPointers
  | some v => ∃ w ∈ es, p ∈ w.entityPointers ∧ v = apEntry w ∧
      ∀ e ∈ es, p ∈ e.entityPointers → ¬ w.Before e

theorem IsLast.snoc {es : List ParsedEntity} {p : Pointer} {v : Option (EntityId × Text × ℚ)}
    (h : IsLast es p v) :
    IsLast (es ++ [e]) p
      (if p ∈ e.entityPointers ∧ apReplaces e v = true then some (apEntry e) else v) := by
  by_cases hp : p ∈ e.entityPointers
  · cases v with
    | none =>
      simp only [hp, apReplaces, and_self, if_true]
      refine ⟨e, by simp, hp, rfl, ?_⟩
      intro f hf hpf
      rcases List.mem_append.mp hf with hf | hf
      · exact absurd hpf (h f hf)
      · rw [List.mem_singleton.mp hf]
        exact ParsedEntity.before_irrefl
    | some v =>
      obtain ⟨w, hw, hpw, rfl, hlast⟩ := h
      by_cases hr : w.Before e
      · rw [if_pos ⟨hp, apReplaces_entry.mpr hr⟩]
        refine ⟨e, by simp, hp, rfl, ?_⟩
        intro f hf hpf
        rcases List.mem_append.mp hf with hf | hf
        · exact fun hef => hlast f hf hpf (hr.trans hef)
        · rw [List.mem_singleton.mp hf]
          exact ParsedEntity.before_irrefl
      · rw [if_neg fun hc => hr (apReplaces_entry.mp hc.2)]
        refine ⟨w, List.mem_append_left _ hw, hpw, rfl, ?_⟩
        intro f hf hpf
        rcases List.mem_append.mp hf with hf | hf
        · exact hlast f hf hpf
        · rw [List.mem_singleton.mp hf]
          exact hr
  · rw [if_neg fun hc => hp hc.1]
    cases v with
    | none =>
      intro f hf
      rcases List.mem_append.mp hf with hf | hf
      · exact h f hf
      · rw [List.mem_singleton.mp hf]
        exact hp
    | some v =>
      obtain ⟨w, hw, hpw, rfl, hlast⟩ := h
      refine ⟨w, List.mem_append_left _ hw, hpw, rfl, ?_⟩
      intro f hf hpf
      rcases List.mem_append.mp hf with hf | hf
      · exact hlast f hf hpf
      · exact absurd (List.mem_singleton.mp hf ▸ hpf) hp

theorem apDedup_fold (fresh seen : List ParsedEntity) (m : ApDedup) (p : Pointer)
    (h : ∀ p, IsLast seen p (m p)) :
    IsLast (seen ++ fresh) p
      (fresh.foldl (fun m e => e.entityPointers.foldl (apInsert e) m) m p) := by
  induction fresh generalizing seen m with
  | nil => simpa using h p
  | cons e fresh ih =>
    rw [List.foldl_cons, ← List.singleton_append, ← List.append_assoc]
    refine ih _ _ fun q => ?_
    rw [apInsert_fold]
    exact (h q).snoc

theorem apDedup_isLast (fresh : List ParsedEntity) (p : Pointer) :
    IsLast fresh p (apDedup fresh p) :=
  apDedup_fold fresh [] (fun _ => none) p fun _ => by simp [IsLast]

end Dedup

end Catalyrst.Content
