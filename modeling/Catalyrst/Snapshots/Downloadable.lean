import Mathlib
import Catalyrst.Snapshots.Generator

/-!
# Advertised snapshots are downloadable

A file goes only after the rows that name it. That the rows of other intervals are
spared rests on the query for the hashes to keep, whose failure the generator reads
as "none". Where that query fails only when there was nothing to keep, every
snapshot a pass returns has its file.
-/

namespace Catalyrst.Snapshots

open Catalyrst.Lib

/-- The query for the hashes to keep fails only when it would have found none. -/
def KeepKnown (w : World) (o : Outcome) : Call → Prop
  | .hashesNotInTimeRange hashes r => o = .ok ∨ w.hashesNotIn hashes r = []
  | _ => True

/-- What holds of the table and the files throughout the passes until `e`. -/
structure Sound (fmt : Format) (init e : ℤ) (w : World) : Prop where
  /-- Every row is of an interval of a division so far. -/
  origin : ∀ s ∈ w.snapshots, ∃ e₀ ≤ e, s.timeRange ∈ intervalsUntil init e₀
  nodup : (w.snapshots.map SnapshotMetadata.timeRange).Nodup
  /-- The file a row names has that hash. -/
  genuine : ∀ s ∈ w.snapshots, ∀ h ∈ s.hash, ∀ b ∈ w.storage h, fmt.hashBytes b = h
  /-- A row that may be reused has its file, if its hash is verified. -/
  backed : ∀ s ∈ w.snapshots, s.timeRange ∈ intervalsUntil init e → ∀ h ∈ s.hash,
    h ∈ w.verified → (w.storage h).isSome

/-- The snapshots collected so far are rows with files. -/
def Kept (result : List SnapshotMetadata) (w : World) : Prop :=
  ∀ m ∈ result, m ∈ w.snapshots ∧ ∃ h ∈ m.hash, (w.storage h).isSome

section Preserve

variable {fmt : Format} {init e e' : ℤ} {w w' : World} {result : List SnapshotMetadata}

theorem Sound.quiet (h : Sound fmt init e w) (hq : Quiet w w') : Sound fmt init e w' := by
  obtain ⟨hs, hst, hv⟩ := hq
  constructor
  · rw [hs]
    exact h.origin
  · rw [hs]
    exact h.nodup
  · rw [hs, hst]
    exact h.genuine
  · rw [hs, hst, hv]
    exact h.backed

theorem Kept.quiet (h : Kept result w) (hq : Quiet w w') : Kept result w' := by
  rw [Kept, hq.1, hq.2.1]
  exact h

/-- The next pass may reach further: a row that is an interval of the later division was
one all the time. -/
theorem Sound.later (h : Sound fmt init e w) (he : e ≤ e') : Sound fmt init e' w := by
  refine ⟨fun s hs => ?_, h.nodup, h.genuine, fun s hs hr => ?_⟩
  · obtain ⟨e₀, he₀, hmem⟩ := h.origin s hs
    exact ⟨e₀, he₀.trans he, hmem⟩
  · obtain ⟨e₀, he₀, hmem⟩ := h.origin s hs
    exact h.backed s hs (mem_between he₀ he hmem hr)

/-- Rows may go. -/
theorem Sound.fewer (h : Sound fmt init e w) {rows : List SnapshotMetadata}
    (hsub : rows.Sublist w.snapshots) : Sound fmt init e { w with snapshots := rows } :=
  ⟨fun s hs => h.origin s (hsub.subset hs), h.nodup.sublist (hsub.map _),
    fun s hs => h.genuine s (hsub.subset hs), fun s hs => h.backed s (hsub.subset hs)⟩

theorem isSome_update_some {storage : Hash → Option Bytes} {x h : Hash} {b : Bytes}
    (hs : (storage x).isSome) : (Function.update storage h (some b) x).isSome := by
  by_cases hx : x = h
  · subst hx
    simp
  · rwa [Function.update_of_ne hx]

theorem Sound.store (h : Sound fmt init e w) {b : Bytes} :
    Sound fmt init e (w.storeFile (fmt.hashBytes b) b) := by
  refine ⟨h.origin, h.nodup, fun s hs x hx c hc => ?_, fun s hs hr x hx hv => ?_⟩
  · by_cases hxb : x = fmt.hashBytes b
    · have hcb : some b = some c := by
        rw [hxb] at hc
        simpa [World.storeFile] using hc
      rw [← Option.some.inj hcb, hxb]
    · exact h.genuine s hs x hx c (by simpa [World.storeFile, Function.update_of_ne hxb] using hc)
  · exact isSome_update_some (h.backed s hs hr x hx hv)

theorem Kept.store (h : Kept result w) (x : Hash) (b : Bytes) : Kept result (w.storeFile x b) := by
  intro m hm
  obtain ⟨hmem, y, hy, hs⟩ := h m hm
  exact ⟨hmem, y, hy, isSome_update_some hs⟩

theorem deleteFile_other {x y : Hash} (hyx : y ≠ x) : (w.deleteFile x).storage y = w.storage y :=
  Function.update_of_ne hyx _ _

/-- A file may go when no row that matters names it. -/
theorem Sound.deleteFile (h : Sound fmt init e w) {x : Hash}
    (hx : ∀ s ∈ w.snapshots, s.timeRange ∈ intervalsUntil init e → x ∉ s.hash) :
    Sound fmt init e (w.deleteFile x) := by
  refine ⟨h.origin, h.nodup, fun s hs y hy c hc => ?_, fun s hs hr y hy hv => ?_⟩
  · by_cases hyx : y = x
    · subst hyx
      simp [World.deleteFile] at hc
    · exact h.genuine s hs y hy c (by simpa [World.deleteFile, Function.update_of_ne hyx] using hc)
  · have hyx : y ≠ x := fun hyx => hx s hs hr (hyx ▸ hy)
    rw [deleteFile_other hyx]
    exact h.backed s hs hr y hy hv

theorem Kept.deleteFile (h : Kept result w) {x : Hash} (hx : ∀ m ∈ result, x ∉ m.hash) :
    Kept result (w.deleteFile x) := by
  intro m hm
  obtain ⟨hmem, y, hy, hs⟩ := h m hm
  have hyx : y ≠ x := fun hyx => hx m hm (hyx ▸ hy)
  refine ⟨hmem, y, hy, ?_⟩
  rw [deleteFile_other hyx]
  exact hs

theorem Sound.remember (h : Sound fmt init e w) {x : Hash} (hx : (w.storage x).isSome) :
    Sound fmt init e { w with verified := x :: w.verified } := by
  refine ⟨h.origin, h.nodup, h.genuine, fun s hs hr y hy hv => ?_⟩
  rcases List.mem_cons.mp hv with rfl | hv
  · exact hx
  · exact h.backed s hs hr y hy hv

/-- A new row for an interval that has none. -/
theorem Sound.save (h : Sound fmt init e w) {s : SnapshotMetadata}
    (hr : s.timeRange ∈ intervalsUntil init e) (hnew : w.hasRange s.timeRange = false) {b : Bytes}
    (hhash : s.hash = some (fmt.hashBytes b)) (hfile : w.storage (fmt.hashBytes b) = some b) :
    Sound fmt init e { w with snapshots := w.snapshots ++ [s] } := by
  have hcases : ∀ x ∈ w.snapshots ++ [s], x ∈ w.snapshots ∨ x = s := by
    intro x hx
    rcases List.mem_append.mp hx with hx | hx
    · exact Or.inl hx
    · exact Or.inr (List.mem_singleton.mp hx)
  constructor
  · intro x hx
    rcases hcases x hx with hx | rfl
    · exact h.origin x hx
    · exact ⟨e, le_rfl, hr⟩
  · rw [List.map_append, List.map_singleton]
    refine List.nodup_append.mpr ⟨h.nodup, List.nodup_singleton _, ?_⟩
    intro r hr y hy heq
    obtain ⟨x, hx, rfl⟩ := List.mem_map.mp hr
    rw [List.mem_singleton.mp hy] at heq
    exact absurd (decide_eq_true heq) (List.any_eq_false.mp hnew x hx)
  · intro x hx y hy c hc
    rcases hcases x hx with hx | rfl
    · exact h.genuine x hx y hy c hc
    · rw [hhash] at hy
      obtain rfl := Option.some.inj hy
      have hcb : some b = some c := hfile.symm.trans hc
      rw [Option.some.inj hcb]
  · intro x hx hrange y hy hv
    rcases hcases x hx with hx | rfl
    · exact h.backed x hx hrange y hy hv
    · rw [hhash] at hy
      obtain rfl := Option.some.inj hy
      simp [hfile]

end Preserve

/-- Whatever the calls answer, the pass ends as `Q` says. -/
abbrev Ensures {α : Type} (fmt : Format) (p : Pass α) (Q : α → World → Prop) (w : World) : Prop :=
  Prog.wp Quiet (answers fmt KeepKnown) p Q w

section Pass

variable {fmt : Format} {init e : ℤ} {w : World} {result rows : List SnapshotMetadata}

theorem ensures_call {α : Type} {c : Call} {k : Answer c → Pass α} {Q : α → World → Prop}
    (h : ∀ w₁, Quiet w w₁ → ∀ o r w₂, KeepKnown w₁ o c → serve fmt w₁ o c = (r, w₂) →
      Ensures fmt (k r) Q w₂) :
    Ensures fmt (.call c k) Q w := by
  rintro w₁ hq r w₂ ⟨o, hfit, hserve⟩
  exact h w₁ hq o r w₂ hfit hserve

theorem ensures_ret {α : Type} {a : α} {Q : α → World → Prop} (h : ∀ w₁, Quiet w w₁ → Q a w₁) :
    Ensures fmt (.ret a) Q w := h

/-- The rows are `rows`, and the pass is in order with the snapshots it has collected. -/
structure Steady (fmt : Format) (init e : ℤ) (result rows : List SnapshotMetadata) (w : World) :
    Prop where
  sound : Sound fmt init e w
  kept : Kept result w
  rows : w.snapshots = rows

theorem Steady.quiet {w' : World} (h : Steady fmt init e result rows w) (hq : Quiet w w') :
    Steady fmt init e result rows w' :=
  ⟨h.sound.quiet hq, h.kept.quiet hq, hq.1.trans h.rows⟩

/-- A candidate is reused only with its file; its name is never wrong, so nothing is re-keyed. -/
theorem reusableSnapshot_ensures {candidate : SnapshotMetadata}
    (h : Steady fmt init e result rows w) (hc : candidate ∈ rows)
    (hr : candidate.timeRange ∈ intervalsUntil init e) :
    Ensures fmt (reusableSnapshot candidate) (fun r w' => Steady fmt init e result rows w' ∧
      ∀ m ∈ r, m = candidate ∧ ∃ x ∈ m.hash, (w'.storage x).isSome) w := by
  unfold reusableSnapshot
  cases hhash : candidate.hash with
  | none => exact fun w₁ hq => ⟨h.quiet hq, fun m hm => nomatch hm⟩
  | some advertised =>
    refine ensures_call fun w₁ hq o r w' _ hserve => ?_
    obtain ⟨rfl, rfl⟩ := Prod.mk.inj hserve
    replace h := h.quiet hq
    have hrow : candidate ∈ w₁.snapshots := h.rows ▸ hc
    by_cases hseen : o = .ok ∧ advertised ∈ w₁.verified
    · rw [if_pos (decide_eq_true hseen)]
      refine ensures_ret fun w₂ hq₂ => ⟨h.quiet hq₂, ?_⟩
      have hfile := (h.sound.backed candidate hrow hr advertised hhash hseen.2)
      rintro m ⟨⟩
      exact ⟨rfl, advertised, hhash, hq₂.2.1 ▸ hfile⟩
    · rw [if_neg (by simpa using hseen)]
      refine ensures_call fun w₂ hq₂ o₂ r w' _ hserve => ?_
      obtain ⟨rfl, rfl⟩ := Prod.mk.inj hserve
      replace h := h.quiet hq₂
      have hrow : candidate ∈ w₂.snapshots := h.rows ▸ hc
      have hnone : Ensures fmt (.ret none : Pass (Option SnapshotMetadata)) (fun r w' =>
          Steady fmt init e result rows w' ∧
            ∀ m ∈ r, m = candidate ∧ ∃ x ∈ m.hash, (w'.storage x).isSome) w₂ :=
        ensures_ret fun w₃ hq₃ => ⟨h.quiet hq₃, fun m hm => nomatch hm⟩
      cases hfile : w₂.storage advertised with
      | none => cases o₂ <;> exact hnone
      | some b =>
        have hgen : fmt.hashBytes b = advertised :=
          h.sound.genuine candidate hrow advertised hhash b hfile
        cases o₂ with
        | failed => exact hnone
        | lost => exact hnone
        | ok =>
          simp only [Outcome.read, Option.map_some, hgen, if_true]
          refine ensures_call fun w₃ hq₃ o₃ r w' _ hserve => ?_
          obtain ⟨-, rfl⟩ := Prod.mk.inj hserve
          replace h := h.quiet hq₃
          have hsome : (w₃.storage advertised).isSome := by
            rw [hq₃.2.1, hfile]
            rfl
          have hsteady : Steady fmt init e result rows
              (if o₃ = .failed then w₃ else { w₃ with verified := advertised :: w₃.verified }) ∧
              ((if o₃ = .failed then w₃ else { w₃ with verified := advertised :: w₃.verified }).storage
                advertised).isSome := by
            split
            · exact ⟨h, hsome⟩
            · exact ⟨⟨h.sound.remember hsome, h.kept, h.rows⟩, hsome⟩
          refine ensures_ret fun w₄ hq₄ => ⟨hsteady.1.quiet hq₄, ?_⟩
          rintro m ⟨⟩
          exact ⟨rfl, advertised, hhash, hq₄.2.1 ▸ hsteady.2⟩

theorem tryReuse_ensures {interval : TimeRange} (h : Steady fmt init e result rows w)
    (hi : interval ∈ intervalsUntil init e) :
    Ensures fmt (tryReuse (rows.filter fun s => s.timeRange.Within interval) interval)
      (fun r w' => Steady fmt init e result rows w' ∧
        ∀ m ∈ r, m ∈ rows ∧ m.timeRange = interval ∧ ∃ x ∈ m.hash, (w'.storage x).isSome) w := by
  unfold tryReuse
  split
  · rename_i candidate heq
    have hmem : candidate ∈ (rows.filter fun s => s.timeRange.Within interval).filter
        fun s => s.timeRange = interval := by
      rw [heq]
      exact List.mem_singleton.mpr rfl
    obtain ⟨hrows, hrange⟩ := List.mem_filter.mp hmem
    replace hrows := (List.mem_filter.mp hrows).1
    replace hrange := of_decide_eq_true hrange
    refine ensures_call fun w₁ hq o r w' _ hserve => ?_
    obtain ⟨rfl, rfl⟩ := Prod.mk.inj hserve
    split
    · exact ensures_ret fun w₂ hq₂ => ⟨(h.quiet hq).quiet hq₂, fun m hm => nomatch hm⟩
    · refine Prog.wp_mono ?_ (reusableSnapshot_ensures (h.quiet hq) hrows (hrange ▸ hi))
      rintro r w' ⟨hsteady, hr⟩
      refine ⟨hsteady, fun m hm => ?_⟩
      obtain ⟨rfl, hx⟩ := hr m hm
      exact ⟨hrows, hrange, hx⟩
  · exact ensures_ret fun w₁ hq => ⟨h.quiet hq, fun m hm => nomatch hm⟩

/-- Files that no row names may go. -/
theorem deleteFiles_ensures {keep hashes : List Hash} (h : Steady fmt init e result rows w)
    (hfree : ∀ x ∈ hashes, x ∉ keep → ∀ s ∈ rows, x ∉ s.hash) :
    Ensures fmt (deleteFiles keep hashes) (fun _ w' => Steady fmt init e result rows w') w := by
  induction hashes generalizing w with
  | nil => exact ensures_ret fun w₁ hq => h.quiet hq
  | cons x hashes ih =>
    have hrest : ∀ y ∈ hashes, y ∉ keep → ∀ s ∈ rows, y ∉ s.hash :=
      fun y hy => hfree y (List.mem_cons_of_mem _ hy)
    unfold deleteFiles
    split
    · exact ih h hrest
    · rename_i hkeep
      refine ensures_call fun w₁ hq o r w' _ hserve => ih ?_ hrest
      replace h := h.quiet hq
      have hx := hfree x List.mem_cons_self hkeep
      have hgone : Steady fmt init e result rows (w₁.deleteFile x) := by
        refine ⟨h.sound.deleteFile fun s hs _ => hx s (h.rows ▸ hs), h.kept.deleteFile fun m hm => ?_,
          h.rows⟩
        exact hx m (h.rows ▸ (h.kept m hm).1)
      cases o <;> obtain ⟨-, rfl⟩ := Prod.mk.inj hserve
      · exact hgone
      · exact h
      · exact hgone

/-- Dropping what is stale leaves the collected snapshots of the other intervals alone. -/
theorem dropStale_ensures {interval : TimeRange} (h : Steady fmt init e result rows w)
    (hi : interval ∈ intervalsUntil init e)
    (hother : ∀ m ∈ result, m.timeRange ∈ intervalsUntil init e ∧ m.timeRange ≠ interval) :
    Ensures fmt (dropStale ((rows.filter fun s => s.timeRange.Within interval).filterMap
        SnapshotMetadata.hash) interval)
      (fun _ w' => Sound fmt init e w' ∧ Kept result w') w := by
  set stale := (rows.filter fun s => s.timeRange.Within interval).filterMap SnapshotMetadata.hash
  unfold dropStale
  split
  · exact ensures_ret fun w₁ hq => ⟨h.sound.quiet hq, h.kept.quiet hq⟩
  · refine ensures_call fun w₁ hq o keep w₁' hfit hserve => ?_
    obtain ⟨rfl, rfl⟩ := Prod.mk.inj hserve
    replace h := h.quiet hq
    -- what is kept is known, whether or not the query answered
    have hkeep : (o.read (w₁.hashesNotIn stale interval)).getD [] = w₁.hashesNotIn stale interval := by
      rcases hfit with rfl | hempty
      · rfl
      · rw [hempty]
        cases o <;> rfl
    dsimp only
    rw [hkeep]
    refine ensures_call fun w₂ hq₂ o₂ r w₂' _ hserve => ?_
    replace h := h.quiet hq₂
    have hkept : Kept result (w₂.deleteInRange stale interval) := by
      intro m hm
      obtain ⟨hmem, hfile⟩ := h.kept m hm
      refine ⟨List.mem_filter.mpr ⟨hmem, decide_eq_true ?_⟩, hfile⟩
      rintro ⟨hwithin, -⟩
      exact (hother m hm).2 (eq_of_within (hother m hm).1 hi hwithin.1 hwithin.2)
    have hfewer : Steady fmt init e result (w₂.deleteInRange stale interval).snapshots
        (w₂.deleteInRange stale interval) :=
      ⟨h.sound.fewer List.filter_sublist, hkept, rfl⟩
    cases o₂ with
    | failed =>
      obtain ⟨rfl, rfl⟩ := Prod.mk.inj hserve
      exact ensures_ret fun w₃ hq₃ => ⟨h.sound.quiet hq₃, h.kept.quiet hq₃⟩
    | lost =>
      obtain ⟨rfl, rfl⟩ := Prod.mk.inj hserve
      exact ensures_ret fun w₃ hq₃ => ⟨hfewer.sound.quiet hq₃, hfewer.kept.quiet hq₃⟩
    | ok =>
      obtain ⟨rfl, rfl⟩ := Prod.mk.inj hserve
      refine Prog.wp_mono (fun _ w' h' => ⟨h'.sound, h'.kept⟩)
        (deleteFiles_ensures hfewer fun x hx hnot s hs hxs => ?_)
      obtain ⟨hs, hstays⟩ := List.mem_filter.mp hs
      obtain ⟨e₀, he₀, hrange⟩ := h.sound.origin s hs
      have hproper := (interval_proper hrange).1
      rcases within_or_beside he₀ hrange hi with hwithin | hbeside
      · -- a row of the interval with this hash was deleted
        refine of_decide_eq_true hstays ⟨hwithin, ?_⟩
        rw [Option.mem_def.mp hxs, Option.any_some]
        exact decide_eq_true hx
      · -- a row beside it made the hash one to keep
        refine hnot (List.mem_filterMap.mpr ⟨s, List.mem_filter.mpr ⟨?_, decide_eq_true ?_⟩, ?_⟩)
        · rw [← hq₂.1]
          exact hs
        · exact ⟨hproper.le, hbeside⟩
        · rw [Option.mem_def.mp hxs]
          simp [hx]

/-- A row saved after its file. -/
theorem saveSnapshot_ensures {metadata : SnapshotMetadata} {b : Bytes} (hs : Sound fmt init e w)
    (hk : Kept result w) (hi : metadata.timeRange ∈ intervalsUntil init e)
    (hhash : metadata.hash = some (fmt.hashBytes b))
    (hfile : w.storage (fmt.hashBytes b) = some b) :
    Ensures fmt (.call (.saveSnapshot metadata) fun saved =>
        if saved = none then .ret none else .ret (some metadata))
      (fun r w' => Sound fmt init e w' ∧ ∀ m ∈ r, m = metadata ∧ Kept (result ++ [m]) w') w := by
  refine ensures_call fun w₁ hq o saved w₁' _ hserve => ?_
  replace hs := hs.quiet hq
  replace hk := hk.quiet hq
  rw [← hq.2.1] at hfile
  have hnone : ∀ w', Sound fmt init e w' →
      Ensures fmt (.ret none : Pass (Option SnapshotMetadata)) (fun r w' => Sound fmt init e w' ∧
        ∀ m ∈ r, m = metadata ∧ Kept (result ++ [m]) w') w' :=
    fun w' h => ensures_ret fun w₂ hq₂ => ⟨h.quiet hq₂, fun m hm => nomatch hm⟩
  simp only [serve] at hserve
  split at hserve
  · obtain ⟨rfl, rfl⟩ := Prod.mk.inj hserve
    exact hnone _ hs
  · rename_i hnew
    have hsaved := hs.save hi (Bool.eq_false_iff.mpr hnew) hhash hfile
    have hrows : Kept (result ++ [metadata])
        { w₁ with snapshots := w₁.snapshots ++ [metadata] } := by
      intro m hm
      rcases List.mem_append.mp hm with hm | hm
      · obtain ⟨hmem, hf⟩ := hk m hm
        exact ⟨List.mem_append_left _ hmem, hf⟩
      · rw [List.mem_singleton.mp hm]
        refine ⟨List.mem_append_right _ (List.mem_singleton.mpr rfl), _, hhash, ?_⟩
        simp [hfile]
    cases o with
    | failed =>
      obtain ⟨rfl, rfl⟩ := Prod.mk.inj hserve
      exact hnone _ hs
    | lost =>
      obtain ⟨rfl, rfl⟩ := Prod.mk.inj hserve
      exact hnone _ hsaved
    | ok =>
      obtain ⟨rfl, rfl⟩ := Prod.mk.inj hserve
      rw [if_neg (by simp)]
      refine ensures_ret fun w₂ hq₂ => ⟨hsaved.quiet hq₂, ?_⟩
      rintro m ⟨⟩
      exact ⟨rfl, hrows.quiet hq₂⟩

theorem generateSnapshot_ensures {interval : TimeRange} (replaced : List Hash)
    (hs : Sound fmt init e w) (hk : Kept result w) (hi : interval ∈ intervalsUntil init e) :
    Ensures fmt (generateSnapshot fmt interval replaced) (fun r w' => Sound fmt init e w' ∧
      ∀ m ∈ r, m.timeRange = interval ∧ Kept (result ++ [m]) w') w := by
  have hret : ∀ w', Sound fmt init e w' →
      Ensures fmt (.ret none : Pass (Option SnapshotMetadata)) (fun r w' => Sound fmt init e w' ∧
        ∀ m ∈ r, m.timeRange = interval ∧ Kept (result ++ [m]) w') w' :=
    fun w' h => ensures_ret fun w₁ hq => ⟨h.quiet hq, fun m hm => nomatch hm⟩
  unfold generateSnapshot
  refine ensures_call fun w₁ hq o generation w₁' _ hserve => ?_
  obtain ⟨rfl, rfl⟩ := Prod.mk.inj hserve
  replace hs : Sound fmt init e { w₁ with lastGeneration := some w₁.clock } :=
    (hs.quiet hq).quiet ⟨rfl, rfl, rfl⟩
  replace hk : Kept result { w₁ with lastGeneration := some w₁.clock } :=
    (hk.quiet hq).quiet ⟨rfl, rfl, rfl⟩
  refine ensures_call fun w₂ hq₂ o₂ deployments w₂' _ hserve => ?_
  obtain ⟨rfl, rfl⟩ := Prod.mk.inj hserve
  replace hs := hs.quiet hq₂
  replace hk := hk.quiet hq₂
  cases o₂ with
  | failed => exact hret _ hs
  | lost => exact hret _ hs
  | ok =>
    replace hs : Sound fmt init e (w₂.noteRead interval) := hs.quiet ⟨rfl, rfl, rfl⟩
    replace hk : Kept result (w₂.noteRead interval) := hk.quiet ⟨rfl, rfl, rfl⟩
    simp only [Outcome.read, if_true]
    split
    · exact hret _ hs
    refine ensures_call fun w₃ hq₃ o₃ stored w₃' _ hserve => ?_
    replace hs := hs.quiet hq₃
    replace hk := hk.quiet hq₃
    set b := fmt.render (w₂.activeIn interval) with hb
    cases o₃ with
    | failed =>
      obtain ⟨rfl, rfl⟩ := Prod.mk.inj hserve
      exact hret _ hs
    | lost =>
      obtain ⟨rfl, rfl⟩ := Prod.mk.inj hserve
      exact hret _ hs.store
    | ok =>
      obtain ⟨rfl, rfl⟩ := Prod.mk.inj hserve
      rw [if_neg (by simp)]
      refine Prog.wp_mono ?_ (saveSnapshot_ensures hs.store (hk.store _ _) hi rfl
        (Function.update_self _ _ _))
      rintro r w' ⟨hsound, hr⟩
      refine ⟨hsound, fun m hm => ?_⟩
      obtain ⟨rfl, hkept⟩ := hr m hm
      exact ⟨rfl, hkept⟩

theorem snapshotInterval_ensures {interval : TimeRange} (hs : Sound fmt init e w)
    (hk : Kept result w) (hi : interval ∈ intervalsUntil init e)
    (hother : ∀ m ∈ result, m.timeRange ∈ intervalsUntil init e ∧ m.timeRange ≠ interval) :
    Ensures fmt (snapshotInterval fmt interval) (fun r w' => Sound fmt init e w' ∧
      ∀ m ∈ r, m.timeRange = interval ∧ Kept (result ++ [m]) w') w := by
  unfold snapshotInterval
  refine ensures_call fun w₁ hq o saved w₁' _ hserve => ?_
  obtain ⟨rfl, rfl⟩ := Prod.mk.inj hserve
  have h : Steady fmt init e result w₁.snapshots w₁ := ⟨hs.quiet hq, hk.quiet hq, rfl⟩
  have hfail : Ensures fmt (.ret none : Pass (Option SnapshotMetadata)) (fun r w' =>
      Sound fmt init e w' ∧ ∀ m ∈ r, m.timeRange = interval ∧ Kept (result ++ [m]) w') w₁ :=
    ensures_ret fun w₂ hq₂ => ⟨h.sound.quiet hq₂, fun m hm => nomatch hm⟩
  cases o with
  | failed => exact hfail
  | lost => exact hfail
  | ok =>
    refine Prog.wp_bind quiet_refl (Prog.wp_mono ?_ (tryReuse_ensures h hi))
    rintro reused w₂ ⟨h₂, hreused⟩
    cases reused with
    | some metadata =>
      obtain ⟨hmem, hrange, hfile⟩ := hreused metadata rfl
      refine ensures_ret fun w₃ hq₃ => ⟨h₂.sound.quiet hq₃, ?_⟩
      rintro m ⟨⟩
      refine ⟨hrange, Kept.quiet ?_ hq₃⟩
      intro m hm
      rcases List.mem_append.mp hm with hm | hm
      · exact h₂.kept m hm
      · rw [List.mem_singleton.mp hm]
        exact ⟨h₂.rows ▸ hmem, hfile⟩
    | none =>
      refine Prog.wp_bind quiet_refl (Prog.wp_mono ?_ (dropStale_ensures h₂ hi hother))
      rintro _ w₃ ⟨hs₃, hk₃⟩
      exact generateSnapshot_ensures _ hs₃ hk₃ hi

/-- The loop over the intervals. -/
theorem snapshotIntervals_ensures {intervals : List TimeRange} (hs : Sound fmt init e w)
    (hk : Kept result w)
    (hall : intervalsUntil init e = result.map SnapshotMetadata.timeRange ++ intervals)
    (hnodup : (intervalsUntil init e).Nodup) :
    Ensures fmt (snapshotIntervals fmt intervals result) (fun r w' => Sound fmt init e w' ∧
      ∀ metas ∈ r, metas.map SnapshotMetadata.timeRange = intervalsUntil init e ∧ Kept metas w')
      w := by
  induction intervals generalizing result w with
  | nil =>
    refine ensures_ret fun w₁ hq => ⟨hs.quiet hq, ?_⟩
    rintro metas ⟨⟩
    exact ⟨by rw [hall, List.append_nil], hk.quiet hq⟩
  | cons interval intervals ih =>
    have hi : interval ∈ intervalsUntil init e := by
      rw [hall]
      simp
    have hother : ∀ m ∈ result, m.timeRange ∈ intervalsUntil init e ∧ m.timeRange ≠ interval := by
      intro m hm
      have hmem : m.timeRange ∈ result.map SnapshotMetadata.timeRange := List.mem_map.mpr ⟨m, hm, rfl⟩
      refine ⟨hall ▸ List.mem_append_left _ hmem, fun heq => ?_⟩
      rw [hall] at hnodup
      exact (List.nodup_append.mp hnodup).2.2 _ hmem _ List.mem_cons_self heq
    refine Prog.wp_bind quiet_refl (Prog.wp_mono ?_ (snapshotInterval_ensures hs hk hi hother))
    rintro metadata w₁ ⟨hs₁, hr⟩
    cases metadata with
    | none => exact ensures_ret fun w₂ hq₂ => ⟨hs₁.quiet hq₂, fun m hm => nomatch hm⟩
    | some metadata =>
      obtain ⟨hrange, hk₁⟩ := hr metadata rfl
      refine ih hs₁ hk₁ ?_
      rw [hall, List.map_append, List.map_singleton, hrange, List.append_assoc]
      rfl

/-- Pruning leaves the rows of the division and their files. -/
theorem pruneRows_ensures {all : List SnapshotMetadata} (hs : Sound fmt init e w)
    (hk : Kept result w) (hall : result.map SnapshotMetadata.timeRange = intervalsUntil init e) :
    Ensures fmt (pruneRows (result.filterMap SnapshotMetadata.hash)
        (result.map SnapshotMetadata.timeRange) all)
      (fun _ w' => Sound fmt init e w' ∧ Kept result w') w := by
  induction all generalizing w with
  | nil => exact ensures_ret fun w₁ hq => ⟨hs.quiet hq, hk.quiet hq⟩
  | cons snap all ih =>
    unfold pruneRows
    split
    · exact ih hs hk
    rename_i hout
    refine ensures_call fun w₁ hq o deleted w₁' _ hserve => ?_
    replace hs := hs.quiet hq
    replace hk := hk.quiet hq
    have hfewer : Sound fmt init e (w₁.deleteByRange snap.timeRange) :=
      hs.fewer List.filter_sublist
    have hkept : Kept result (w₁.deleteByRange snap.timeRange) := by
      intro m hm
      obtain ⟨hmem, hfile⟩ := hk m hm
      refine ⟨List.mem_filter.mpr ⟨hmem, decide_eq_true fun heq => hout ?_⟩, hfile⟩
      exact heq ▸ List.mem_map.mpr ⟨m, hm, rfl⟩
    cases o with
    | failed =>
      obtain ⟨rfl, rfl⟩ := Prod.mk.inj hserve
      exact ih hs hk
    | lost =>
      obtain ⟨rfl, rfl⟩ := Prod.mk.inj hserve
      exact ih hfewer hkept
    | ok =>
      obtain ⟨rfl, rfl⟩ := Prod.mk.inj hserve
      cases hhash : snap.hash with
      | none => exact ih hfewer hkept
      | some x =>
        dsimp only
        split
        · exact ih hfewer hkept
        rename_i hvalid
        have hunnamed : ∀ m ∈ result, x ∉ m.hash :=
          fun m hm hx => hvalid (List.mem_filterMap.mpr ⟨m, hm, hx⟩)
        refine ensures_call fun w₂ hq₂ o₂ r w₂' _ hserve => ?_
        have hs₂ := hfewer.quiet hq₂
        have hk₂ := hkept.quiet hq₂
        have hs₃ : Sound fmt init e (w₂.deleteFile x) := by
          refine hs₂.deleteFile fun s hs hrange => ?_
          -- the only row of an interval is the one collected
          rw [← hall] at hrange
          obtain ⟨m, hm, heq⟩ := List.mem_map.mp hrange
          rw [List.inj_on_of_nodup_map hs₂.nodup hs (hk₂ m hm).1 heq.symm]
          exact hunnamed m hm
        have hk₃ : Kept result (w₂.deleteFile x) := hk₂.deleteFile hunnamed
        cases o₂ <;> obtain ⟨-, rfl⟩ := Prod.mk.inj hserve
        · exact ih hs₃ hk₃
        · exact ih hs₂ hk₂
        · exact ih hs₃ hk₃

/-- A pass returns only snapshots that have their files. -/
theorem generateSnapshotsMulti_ensures (hs : Sound fmt init e w) :
    Ensures fmt (generateSnapshotsMulti fmt ⟨init, e⟩)
      (fun r w' => Sound fmt init e w' ∧ ∀ metas ∈ r, Kept metas w') w := by
  have hempty : Kept [] w := fun m hm => nomatch hm
  refine Prog.wp_bind quiet_refl (Prog.wp_mono ?_
    (snapshotIntervals_ensures hs hempty rfl intervalsUntil_nodup))
  rintro r w₁ ⟨hs₁, hr⟩
  cases r with
  | none => exact ensures_ret fun w₂ hq₂ => ⟨hs₁.quiet hq₂, fun m hm => nomatch hm⟩
  | some metas =>
    obtain ⟨hall, hk₁⟩ := hr metas rfl
    refine ensures_call fun w₂ hq₂ o r w₂' _ hserve => ?_
    obtain ⟨rfl, rfl⟩ := Prod.mk.inj hserve
    replace hs₁ := hs₁.quiet hq₂
    replace hk₁ := hk₁.quiet hq₂
    have hdone : ∀ w', Sound fmt init e w' → Kept metas w' →
        Ensures fmt (.ret (some metas) : Pass (Option (List SnapshotMetadata)))
          (fun r w' => Sound fmt init e w' ∧ ∀ metas ∈ r, Kept metas w') w' := by
      intro w' hs' hk'
      refine ensures_ret fun w₃ hq₃ => ⟨hs'.quiet hq₃, ?_⟩
      rintro m ⟨⟩
      exact hk'.quiet hq₃
    cases o with
    | failed => exact hdone _ hs₁ hk₁
    | lost => exact hdone _ hs₁ hk₁
    | ok =>
      refine Prog.wp_bind quiet_refl (Prog.wp_mono ?_ (pruneRows_ensures hs₁ hk₁ hall))
      rintro _ w₃ ⟨hs₃, hk₃⟩
      exact hdone _ hs₃ hk₃

end Pass

/-- The side condition on a step of the generator. -/
def Fits (g : Generator) : Step → Prop
  | .serve o =>
    match g.running with
    | some (.call c _) => KeepKnown g.world o c
    | _ => True
  | _ => True

instance (w : World) (o : Outcome) : (c : Call) → Decidable (KeepKnown w o c)
  | .hashesNotInTimeRange hashes r =>
    inferInstanceAs (Decidable (o = .ok ∨ w.hashesNotIn hashes r = []))
  | .findContained _ | .snapshotIsOutdated _ | .alreadyVerified _ | .rememberVerified _
  | .storedContentHash _ | .rekey _ _ | .updateSnapshotHash _ _ _ | .deleteSnapshots _ _
  | .deleteFile _ | .now | .streamActive _ | .store _ _ | .saveSnapshot _ | .getAllSnapshots
  | .deleteByTimeRange _ => isTrue trivial

instance (g : Generator) : (a : Step) → Decidable (Fits g a)
  | .serve o =>
    match h : g.running with
    | some (.call c _) => decidable_of_iff (KeepKnown g.world o c) (by simp [Fits, h])
    | some (.ret _) => isTrue (by simp [Fits, h])
    | none => isTrue (by simp [Fits, h])
  | .event _ | .start _ | .finish => isTrue trivial

section Runs

variable {fmt : Format} {init : ℤ} {g g' : Generator}

/-- Between passes the table is sound for the last range; a running pass will return what has
its files. -/
def Orderly (fmt : Format) (init : ℤ) (g : Generator) : Prop :=
  match g.running with
  | none => (∀ e ∈ g.lastEnd, Sound fmt init e g.world) ∧
      (g.lastEnd = none → g.world.snapshots = [])
  | some p => ∃ e, g.lastEnd = some e ∧
      Ensures fmt p (fun r w => Sound fmt init e w ∧ ∀ metas ∈ r, Kept metas w) g.world

theorem orderly_none (h : g.running = none) : Orderly fmt init g ↔
    (∀ e ∈ g.lastEnd, Sound fmt init e g.world) ∧ (g.lastEnd = none → g.world.snapshots = []) := by
  rw [Orderly, h]

theorem orderly_some {p : Pass (Option (List SnapshotMetadata))} (h : g.running = some p) :
    Orderly fmt init g ↔ ∃ e, g.lastEnd = some e ∧
      Ensures fmt p (fun r w => Sound fmt init e w ∧ ∀ metas ∈ r, Kept metas w) g.world := by
  rw [Orderly, h]

theorem sound_of_no_rows {w : World} (h : w.snapshots = []) (e : ℤ) : Sound fmt init e w := by
  refine ⟨?_, ?_, ?_, ?_⟩ <;> simp [h]

theorem Orderly.step {a : Step} (h : Orderly fmt init g) (hok : Fits g a)
    (hstep : g.step fmt init a = some g') : Orderly fmt init g' := by
  cases a with
  | event ev =>
    obtain ⟨w, hw, rfl⟩ := Option.map_eq_some_iff.mp hstep
    have hq := happen_quiet hw
    cases hr : g.running with
    | none =>
      obtain ⟨hsound, hnone⟩ := (orderly_none hr).mp h
      refine ⟨fun e he => ?_, fun hl => ?_⟩
      · exact (hsound e he).quiet hq
      · exact hq.1.trans (hnone hl)
    | some p =>
      obtain ⟨e, he, hp⟩ := (orderly_some hr).mp h
      exact ⟨e, he, Prog.wp_rely quiet_trans hp hq⟩
  | start e =>
    obtain ⟨hr, hle, rfl⟩ := Generator.step_start hstep
    obtain ⟨hsound, hnone⟩ := (orderly_none hr).mp h
    refine ⟨e, rfl, generateSnapshotsMulti_ensures ?_⟩
    cases hl : g.lastEnd with
    | none => exact sound_of_no_rows (hnone hl) e
    | some e₀ =>
      rw [hl, Option.all_some] at hle
      exact (hsound e₀ hl).later (of_decide_eq_true hle)
  | serve o =>
    obtain ⟨c, k, hr, rfl⟩ := Generator.step_serve hstep
    obtain ⟨e, he, hp⟩ := (orderly_some hr).mp h
    have hfit : KeepKnown g.world o c := by simpa only [Fits, hr] using hok
    exact ⟨e, he, Prog.wp_call quiet_refl hp ⟨o, hfit, rfl⟩⟩
  | finish =>
    obtain ⟨r, hr, rfl⟩ := Generator.step_finish hstep
    obtain ⟨e, he, hp⟩ := (orderly_some hr).mp h
    have hdone := Prog.wp_ret quiet_refl hp
    refine ⟨fun e' he' => ?_, fun hl => ?_⟩
    · have hee : some e = some e' := he.symm.trans he'
      rw [← Option.some.inj hee]
      exact hdone.1
    · have hl' : g.lastEnd = none := hl
      rw [he] at hl'
      cases hl'

theorem orderly_new (clock : ℤ) (storage : Hash → Option Bytes) :
    Orderly fmt init (Generator.new clock storage) :=
  ⟨fun _ he => (nomatch he), fun _ => rfl⟩

/-- **Advertised snapshots are downloadable.** In runs where the query for the hashes to keep
fails only when there are none, whatever else fails, every snapshot of a pass's
result has its file in storage when the pass returns. -/
theorem advertised_downloadable (fmt : Format) (init clock : ℤ) (storage : Hash → Option Bytes)
    (steps : List Step) (g : Generator)
    (hok : Machine.Meets (Generator.step fmt init) Fits (Generator.new clock storage) steps)
    (hrun : Machine.run (Generator.step fmt init) (Generator.new clock storage) steps = some g) :
    ∀ metas, g.running = some (.ret (some metas)) → ∀ m ∈ metas,
      ∃ h, m.hash = some h ∧ (g.world.storage h).isSome := by
  intro metas hret m hm
  have horderly := Machine.run_invariant_of_meets (P := Orderly fmt init) _
    (fun _ _ _ hs hfit hstep => hs.step hfit hstep) steps _ g hok hrun (orderly_new clock storage)
  obtain ⟨e, -, hp⟩ := (orderly_some hret).mp horderly
  obtain ⟨-, hkept⟩ := Prog.wp_ret quiet_refl hp
  obtain ⟨-, h, hh, hfile⟩ := hkept metas rfl m hm
  exact ⟨h, hh, hfile⟩

end Runs

section Examples

/-- Two days without a deployment: one file for both intervals. -/
def emptyPass : List Step := .start (2 * msPerDay) :: List.replicate 11 (.serve .ok)

theorem advertised_downloadable_emptyPass :
    (Machine.run (Generator.step plain 0) (Generator.new 0 fun _ => none) emptyPass).any
        (fun g => g.returned.isSome) ∧
      ∀ g, Machine.run (Generator.step plain 0) (Generator.new 0 fun _ => none) emptyPass = some g →
        ∀ metas, g.running = some (.ret (some metas)) → ∀ m ∈ metas,
          ∃ h, m.hash = some h ∧ (g.world.storage h).isSome :=
  ⟨by decide +kernel, fun g hg => advertised_downloadable plain 0 0 (fun _ => none) emptyPass g
    (by decide +kernel) hg⟩

/-- A deployment arrives on the second day. The next pass reuses the first day's snapshot, fails
to find out that its file is shared and deletes it with the second day's. -/
def lossyPasses : List Step :=
  emptyPass ++ [.finish, .event (.tick 5),
    .event (.begin [⟨['x'], ['s'], [['p']], [], 100000000⟩]), .event (.commit 0 [])] ++
    .start (2 * msPerDay) :: (List.replicate 7 (.serve .ok) ++ .serve .failed ::
      List.replicate 7 (.serve .ok))

theorem shared_file_deleted :
    ∃ g metas m h, Machine.run (Generator.step plain 0) (Generator.new 0 fun _ => none) lossyPasses =
        some g ∧ g.running = some (.ret (some metas)) ∧ m ∈ metas ∧ m.hash = some h ∧
      g.world.storage h = none := by
  have hrun : (Machine.run (Generator.step plain 0) (Generator.new 0 fun _ => none) lossyPasses).map
      (fun g => (g.returned.map fun metas => metas.map SnapshotMetadata.hash, g.world.storage [])) =
        some (some [some [], some ['x']], none) := by decide +kernel
  obtain ⟨g, hg, heq⟩ := Option.map_eq_some_iff.mp hrun
  obtain ⟨hret, hfile⟩ := Prod.mk.inj heq
  obtain ⟨metas, hmetas, hhashes⟩ := Option.map_eq_some_iff.mp hret
  have hmem : some [] ∈ metas.map SnapshotMetadata.hash := by
    rw [hhashes]
    exact List.mem_cons_self
  obtain ⟨m, hm, hmh⟩ := List.mem_map.mp hmem
  exact ⟨g, metas, m, [], hg, running_of_returned hmetas, hm, hmh, hfile⟩

end Examples

end Catalyrst.Snapshots
