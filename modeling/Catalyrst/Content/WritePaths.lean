import Mathlib
import Catalyrst.Lib.Machine
import Catalyrst.Content.Persist

/-!
# The two write paths side by side

`WriteDeployer::deploy_entity` looks for a newer entity on a connection of its own,
validates, and persists in a later transaction that does not look again. In between
the sync deployer may flush.
-/

namespace Catalyrst.Content

open Catalyrst.Lib

structure Writers where
  db : Database
  /-- Local deployments that have passed `has_newer_entity`. -/
  pending : List Entity

inductive WriteAction where
  /-- `has_newer_entity` for a local deployment. -/
  | check (e : Entity)
  /-- The validator turns the pending deployment down. -/
  | reject (i : ℕ)
  | persist (i : ℕ)
  | flush (choice : JoinChoice) (batch : List ParsedEntity)

/-- `parse_entity_for_deploy`. -/
def ParsedEntity.parsed (loc : Locale) (e : ParsedEntity) : ParsedEntity :=
  { e with entityPointers := e.entityPointers.map loc.toLowercase }

namespace Writers

def new : Writers := ⟨Database.empty, []⟩

def step (loc : Locale) (hasTypeCol : Bool) (s : Writers) : WriteAction → Option Writers
  | .check e =>
    if hasNewerEntity loc s.db e then some s else some { s with pending := s.pending ++ [e] }
  | .reject i => s.pending[i]?.map fun _ => { s with pending := s.pending.eraseIdx i }
  | .persist i =>
    s.pending[i]?.map fun e =>
      { db := Content.persist loc hasTypeCol e s.db, pending := s.pending.eraseIdx i }
  | .flush choice batch =>
    some { s with db := flushBatch loc choice (batch.map (ParsedEntity.parsed loc)) s.db }

end Writers

/-- Conflicting entities of one timestamp compare alike in SQL as they are and in lower case. -/
def Alike (loc : Locale) (e f : Entity) : Prop :=
  e.entityType = f.entityType → e.Overlaps f → e.timestamp = f.timestamp →
    ((loc.collate e.entityId < loc.collate f.entityId ↔
        loc.lowerKey e.entityId < loc.lowerKey f.entityId) ∧
      (loc.collate f.entityId < loc.collate e.entityId ↔
        loc.lowerKey f.entityId < loc.lowerKey e.entityId))

instance (loc : Locale) (e f : Entity) : Decidable (Alike loc e f) :=
  inferInstanceAs (Decidable (_ → _ → _ → _ ∧ _))

/-- A persist finds no newer entity when it runs, and the new entities of a flush compare
alike with what is stored and what they come with. -/
def Timely (loc : Locale) (s : Writers) : WriteAction → Prop
  | .check _ => True
  | .reject _ => True
  | .persist i =>
    ∀ e ∈ (s.pending[i]?).toList, s.db.Stores e.entityId ∨ hasNewerEntity loc s.db e = false
  | .flush _ batch => ∀ e ∈ batch.map (ParsedEntity.parsed loc), ¬ s.db.Stores e.entityId →
      (∀ d ∈ s.db.deployments, Alike loc (e.row loc) d.entity) ∧
        ∀ f ∈ batch.map (ParsedEntity.parsed loc), Alike loc (e.row loc) (f.row loc)

instance (loc : Locale) (s : Writers) : (a : WriteAction) → Decidable (Timely loc s a)
  | .check _ => isTrue trivial
  | .reject _ => isTrue trivial
  | .persist i => inferInstanceAs (Decidable (∀ e ∈ (s.pending[i]?).toList, _ ∨ _))
  | .flush _ batch =>
    inferInstanceAs (Decidable (∀ e ∈ batch.map (ParsedEntity.parsed loc), _ → _ ∧ _))

section Paths

variable {loc : Locale} {hasTypeCol : Bool} {db : Database} {e f : Entity}

theorem Alike.follows (h : Alike loc e f) :
    (e.Follows loc.collate f ↔ e.Follows loc.lowerKey f) ∧
      (f.Follows loc.collate e ↔ f.Follows loc.lowerKey e) := by
  constructor
  · refine and_congr_right fun ht => and_congr_right fun ho => or_congr_right ?_
    exact and_congr_right fun hts => (h ht.symm ho.symm hts.symm).2
  · refine and_congr_right fun ht => and_congr_right fun ho => or_congr_right ?_
    exact and_congr_right fun hts => (h ht ho hts).1

/-- A transaction that finds no newer entity keeps the lower-case order resolved. -/
theorem persist_resolved (hdb : db.Resolved loc.lowerKey)
    (hnew : db.Stores e.entityId ∨ hasNewerEntity loc db e = false) :
    (persist loc hasTypeCol e db).Resolved loc.lowerKey := by
  by_cases hs : db.Stores e.entityId
  · exact hdb.of_deployments (persist_stored hs).1
  · have hnone := not_hasNewerEntity.mp (hnew.resolve_left hs)
    intro g hg
    rw [persist_entities hs, stands_union]
    rw [persist_entities hs] at hg
    rcases hg with hg | rfl
    · rw [persist_active_old hs hg, hdb g hg]
      refine and_congr_right fun _ => ?_
      simp [Stands]
    · refine ⟨fun _ => ⟨hnone, ?_⟩, fun _ => persist_active_new hs⟩
      rintro _ rfl
      exact Entity.follows_irrefl

theorem flushBatch_keeps_lower (choice : JoinChoice) {entities : List ParsedEntity}
    (hdb : db.Resolved loc.lowerKey)
    (halike : ∀ e ∈ entities, ¬ db.Stores e.entityId →
      (∀ d ∈ db.deployments, Alike loc (e.row loc) d.entity) ∧
        ∀ f ∈ entities, Alike loc (e.row loc) (f.row loc)) :
    (flushBatch loc choice entities db).Resolved loc.lowerKey := by
  refine flushBatch_resolved choice hdb fun e he hs f hf => ?_
  obtain ⟨hstored, hbatch⟩ := halike e he hs
  rcases hf with ⟨d, hd, rfl⟩ | ⟨g, hg, rfl⟩
  · exact (hstored d hd).follows
  · exact (hbatch g hg).follows

theorem step_resolved {s s' : Writers} {a : WriteAction} (hs : s.db.Resolved loc.lowerKey)
    (hok : Timely loc s a) (hstep : s.step loc hasTypeCol a = some s') :
    s'.db.Resolved loc.lowerKey := by
  cases a with
  | check e =>
    simp only [Writers.step] at hstep
    split at hstep <;> rw [← Option.some.inj hstep]
    · exact hs
    · exact hs
  | reject i =>
    obtain ⟨e, -, rfl⟩ := Option.map_eq_some_iff.mp hstep
    exact hs
  | persist i =>
    obtain ⟨e, hi, rfl⟩ := Option.map_eq_some_iff.mp hstep
    exact persist_resolved hs (hok e (by simp [hi]))
  | flush choice batch =>
    rw [← Option.some.inj hstep]
    exact flushBatch_keeps_lower choice hs hok

theorem run_resolved {as : List WriteAction} {s : Writers}
    (hok : Machine.Meets (Writers.step loc hasTypeCol) (Timely loc) Writers.new as)
    (hrun : Machine.run (Writers.step loc hasTypeCol) Writers.new as = some s) :
    s.db.Resolved loc.lowerKey := by
  refine Machine.run_invariant_of_meets (P := fun s : Writers => s.db.Resolved loc.lowerKey) _
    (fun s a t hs hok hstep => step_resolved hs hok hstep) as _ s hok hrun ?_
  rintro e ⟨d, hd, -⟩
  cases hd

/-- **The write paths agree.** In runs whose steps are all timely an active entity has no
stored follower in `(timestamp, lower-cased id)` order, and what is active is decided
by what is stored, whichever path it came through. -/
theorem write_paths_agree (loc : Locale) (hasTypeCol : Bool) (as bs : List WriteAction)
    (s u : Writers)
    (has : Machine.Meets (Writers.step loc hasTypeCol) (Timely loc) Writers.new as)
    (hs : Machine.run (Writers.step loc hasTypeCol) Writers.new as = some s)
    (hbs : Machine.Meets (Writers.step loc hasTypeCol) (Timely loc) Writers.new bs)
    (hu : Machine.run (Writers.step loc hasTypeCol) Writers.new bs = some u) :
    (∀ e, s.db.Active e → ∀ f ∈ s.db.entities, f.entityType = e.entityType → e.Overlaps f →
      ¬ e.Before loc.lowerKey f) ∧
    ((∀ e, e ∈ s.db.entities ↔ e ∈ u.db.entities) → ∀ e, s.db.Active e ↔ u.db.Active e) := by
  have hsr := run_resolved has hs
  have hur := run_resolved hbs hu
  constructor
  · intro e he f hf ht ho hb
    exact (hsr e he.mem).mp he f hf ⟨ht.symm, ho, hb⟩
  · intro hsame e
    have hents : s.db.entities = u.db.entities := Set.ext hsame
    constructor
    · intro he
      have hstands := (hsr e he.mem).mp he
      rw [hents] at hstands
      exact (hur e (hents ▸ he.mem)).mpr hstands
    · intro he
      have hstands := (hur e he.mem).mp he
      rw [← hents] at hstands
      exact (hsr e (hents ▸ he.mem)).mpr hstands

end Paths

section Examples

/-- Two entities of one timestamp that compare alike in either case, and a third one
that comes first as it is and last in lower case. -/
def hut : ParsedEntity := ⟨['a'], ['s'], 1, [['p']]⟩
def house : ParsedEntity := ⟨['b'], ['s'], 1, [['p']]⟩
def castle : ParsedEntity := ⟨['C'], ['s'], 1, [['p']]⟩
def palace : ParsedEntity := ⟨['d'], ['s'], 2, [['p']]⟩

def ParsedEntity.local (e : ParsedEntity) : Entity := e.row Locale.ascii

def localFirst : List WriteAction := [.check hut.local, .persist 0, .flush JoinChoice.first [house]]
def syncFirst : List WriteAction := [.flush JoinChoice.first [house, hut], .check house.local, .persist 0]

theorem write_paths_agree_house :
    (Machine.run (Writers.step Locale.ascii true) Writers.new localFirst).isSome ∧
      (Machine.run (Writers.step Locale.ascii true) Writers.new syncFirst).isSome ∧
      ∀ s u, Machine.run (Writers.step Locale.ascii true) Writers.new localFirst = some s →
        Machine.run (Writers.step Locale.ascii true) Writers.new syncFirst = some u →
          ∀ e, s.db.Active e ↔ u.db.Active e := by
  refine ⟨by decide, by decide, fun s u hs hu => ?_⟩
  refine (write_paths_agree Locale.ascii true localFirst syncFirst s u (by decide) hs
    (by decide) hu).2 fun e => ?_
  have hsd : s.db.deployments.map Deployment.entity = [hut.local, house.local] := by
    have h : (Machine.run (Writers.step Locale.ascii true) Writers.new localFirst).map
        (fun s => s.db.deployments.map Deployment.entity) = some [hut.local, house.local] := by decide
    rw [hs] at h
    exact Option.some.inj h
  have hud : u.db.deployments.map Deployment.entity = [house.local, hut.local] := by
    have h : (Machine.run (Writers.step Locale.ascii true) Writers.new syncFirst).map
        (fun s => s.db.deployments.map Deployment.entity) = some [house.local, hut.local] := by decide
    rw [hu] at h
    exact Option.some.inj h
  have hs' : e ∈ s.db.entities ↔ e ∈ s.db.deployments.map Deployment.entity := by
    simp [Database.entities]
  have hu' : e ∈ u.db.entities ↔ e ∈ u.db.deployments.map Deployment.entity := by
    simp [Database.entities]
  rw [hs', hu', hsd, hud]
  simp [or_comm]

/-- A flush between the check and the transaction leaves the older entity active beside
the newer one; and the sync path takes `a` over `C`, which follows it in lower case. -/
theorem checked_too_early :
    (∃ s, Machine.run (Writers.step Locale.ascii true) Writers.new
        [.check hut.local, .flush JoinChoice.first [palace], .persist 0] = some s ∧
      s.db.Active hut.local ∧ palace.local ∈ s.db.entities ∧
        palace.local.Follows Locale.ascii.lowerKey hut.local) ∧
    ∃ s, Machine.run (Writers.step Locale.ascii true) Writers.new
        [.flush JoinChoice.first [hut], .flush JoinChoice.first [castle]] = some s ∧
      s.db.Active hut.local ∧ castle.local ∈ s.db.entities ∧
        castle.local.Follows Locale.ascii.lowerKey hut.local := by
  constructor
  · have h : (Machine.run (Writers.step Locale.ascii true) Writers.new
        [.check hut.local, .flush JoinChoice.first [palace], .persist 0]).map
          (fun s => s.db.deployments) = some [⟨1, palace.local, none⟩, ⟨2, hut.local, none⟩] := by decide
    obtain ⟨s, hs, hd⟩ := Option.map_eq_some_iff.mp h
    refine ⟨s, hs, ⟨⟨2, hut.local, none⟩, ?_, rfl, rfl⟩, ⟨⟨1, palace.local, none⟩, ?_, rfl⟩, by decide⟩
    · rw [hd]
      simp
    · rw [hd]
      simp
  · have h : (Machine.run (Writers.step Locale.ascii true) Writers.new
        [.flush JoinChoice.first [hut], .flush JoinChoice.first [castle]]).map
          (fun s => s.db.deployments) = some [⟨1, hut.local, none⟩, ⟨2, castle.local, some 1⟩] := by
      decide
    obtain ⟨s, hs, hd⟩ := Option.map_eq_some_iff.mp h
    refine ⟨s, hs, ⟨⟨1, hut.local, none⟩, ?_, rfl, rfl⟩, ⟨⟨2, castle.local, some 1⟩, ?_, rfl⟩, by decide⟩
    · rw [hd]
      simp
    · rw [hd]
      simp

end Examples

end Catalyrst.Content
