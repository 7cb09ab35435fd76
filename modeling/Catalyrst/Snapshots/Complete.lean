import Mathlib
import Catalyrst.Snapshots.Generator

/-!
# Advertised snapshots are complete

A snapshot is reused unless a deployment of its interval has a `local_timestamp` after
the snapshot's generation. The local timestamp is taken when the transaction begins, and the
snapshot sees what has committed: a transaction that began before the generation
and is still open at the read is missed for good. Where there is none, a snapshot lists every
deployment of its interval, or the next pass will notice.
-/

namespace Catalyrst.Snapshots

open Catalyrst.Lib

/-- A transaction begins after the generation timestamps of the snapshots it would be missing
from. -/
def EventOk (w : World) : Event → Prop
  | .begin deploys => ∀ d ∈ deploys, ∀ p ∈ w.reads, p.1.Includes d.entityTimestamp → p.2 < w.clock
  | _ => True

/-- At a read no transaction is open that deploys into the interval and began by the
generation timestamp. -/
def ReadOk (w : World) (o : Outcome) : Call → Prop
  | .streamActive r => o = .ok → ∀ tx ∈ w.transactions, ∀ d ∈ tx.deploys,
      r.Includes d.entityTimestamp → ∀ t ∈ w.lastGeneration, t < tx.begun
  | _ => True

/-- What of its interval a snapshot does not list is noticed by `snapshot_is_outdated`. -/
structure Lists (fmt : Format) (s : SnapshotMetadata) (w : World) : Prop where
  read : (s.timeRange, s.generationTimestamp) ∈ w.reads
  listed : ∃ ds, s.hash = some (fmt.hashOf ds) ∧ ∀ d ∈ w.deployments, d.deleted = false →
    s.timeRange.Includes d.deployment.entityTimestamp →
      d.deployment ∈ ds ∨ s.generationTimestamp < d.localTimestamp
  pending : ∀ tx ∈ w.transactions, ∀ d ∈ tx.deploys, s.timeRange.Includes d.entityTimestamp →
    s.generationTimestamp < tx.begun

/-- The snapshot lists every active deployment of its interval. -/
def Complete (fmt : Format) (s : SnapshotMetadata) (w : World) : Prop :=
  ∃ ds, s.hash = some (fmt.hashOf ds) ∧ ∀ d ∈ w.deployments, d.deleted = false →
    s.timeRange.Includes d.deployment.entityTimestamp → d.deployment ∈ ds

structure Covered (fmt : Format) (w : World) : Prop where
  lists : ∀ s ∈ w.snapshots, Lists fmt s w
  genuine : ∀ s ∈ w.snapshots, ∀ h ∈ s.hash, ∀ b ∈ w.storage h, fmt.hashBytes b = h

section Events

variable {fmt : Format} {w w' : World} {s : SnapshotMetadata} {ev : Event}

theorem Lists.happen (h : Lists fmt s w) (hok : EventOk w ev) (hev : w.happen ev = some w') :
    Lists fmt s w' := by
  cases ev with
  | tick t =>
    simp only [World.happen] at hev
    split at hev
    · obtain rfl := Option.some.inj hev
      exact ⟨h.read, h.listed, h.pending⟩
    · cases hev
  | begin deploys =>
    obtain rfl := Option.some.inj hev
    refine ⟨h.read, h.listed, fun tx htx => ?_⟩
    rcases List.mem_append.mp htx with htx | htx
    · exact h.pending tx htx
    · rw [List.mem_singleton.mp htx]
      exact fun d hd hin => hok d hd _ h.read hin
  | commit i deleted =>
    obtain ⟨tx, htx, rfl⟩ := Option.map_eq_some_iff.mp hev
    have hmem : tx ∈ w.transactions := List.mem_of_getElem? htx
    obtain ⟨ds, hhash, hds⟩ := h.listed
    refine ⟨h.read, ⟨ds, hhash, fun d hd hact hin => ?_⟩, fun tx' htx' => ?_⟩
    · obtain ⟨d₀, hd₀, rfl⟩ := List.mem_map.mp hd
      split at hact
      · cases hact
      rename_i hkeep
      rw [if_neg hkeep] at hin ⊢
      rcases List.mem_append.mp hd₀ with hd₀ | hd₀
      · exact hds d₀ hd₀ hact hin
      · obtain ⟨x, hx, rfl⟩ := List.mem_map.mp hd₀
        exact Or.inr (h.pending tx hmem x hx hin)
    · exact h.pending tx' (List.mem_of_mem_eraseIdx htx')

theorem Covered.happen (h : Covered fmt w) (hok : EventOk w ev) (hev : w.happen ev = some w') :
    Covered fmt w' := by
  obtain ⟨hrows, hstorage, -⟩ := happen_quiet hev
  refine ⟨fun s hs => (h.lists s (hrows ▸ hs)).happen hok hev, ?_⟩
  rw [hrows, hstorage]
  exact h.genuine

theorem happen_lastGeneration (hev : w.happen ev = some w') :
    w'.lastGeneration = w.lastGeneration := by
  cases ev with
  | tick t =>
    simp only [World.happen] at hev
    split at hev
    · obtain rfl := Option.some.inj hev
      rfl
    · cases hev
  | begin deploys =>
    obtain rfl := Option.some.inj hev
    rfl
  | commit i deleted =>
    obtain ⟨tx, -, rfl⟩ := Option.map_eq_some_iff.mp hev
    rfl

/-- The snapshot of what is active at a read. -/
theorem lists_of_read {t : ℤ} {r : TimeRange} (hgen : w.lastGeneration = some t)
    (hok : ReadOk w .ok (.streamActive r)) (hhash : s.hash = some (fmt.hashOf (w.activeIn r)))
    (hr : s.timeRange = r) (ht : s.generationTimestamp = t) : Lists fmt s (w.noteRead r) := by
  subst hr ht
  refine ⟨?_, ⟨_, hhash, fun d hd hact hin => Or.inl ?_⟩, fun tx htx d hd hin => ?_⟩
  · simp [World.noteRead, hgen]
  · rw [World.activeIn, List.mem_insertionSort]
    exact List.mem_map.mpr ⟨d, List.mem_filter.mpr ⟨hd, decide_eq_true ⟨hact, hin⟩⟩, rfl⟩
  · exact hok rfl tx htx d hd hin _ hgen

theorem complete_of_read {r : TimeRange} (hhash : s.hash = some (fmt.hashOf (w.activeIn r)))
    (hr : s.timeRange = r) : Complete fmt s w := by
  subst hr
  refine ⟨_, hhash, fun d hd hact hin => ?_⟩
  rw [World.activeIn, List.mem_insertionSort]
  exact List.mem_map.mpr ⟨d, List.mem_filter.mpr ⟨hd, decide_eq_true ⟨hact, hin⟩⟩, rfl⟩

/-- A snapshot that is not outdated is complete. -/
theorem Lists.complete (h : Lists fmt s w) (hnew : w.isOutdated s = false) : Complete fmt s w := by
  obtain ⟨ds, hhash, hds⟩ := h.listed
  refine ⟨ds, hhash, fun d hd hact hin => (hds d hd hact hin).resolve_right fun hlate => ?_⟩
  exact List.any_eq_false.mp hnew d hd (decide_eq_true ⟨hact, hin, hlate⟩)

theorem Lists.frame (h : Lists fmt s w) (hd : w'.deployments = w.deployments)
    (ht : w'.transactions = w.transactions) (hr : w.reads ⊆ w'.reads) : Lists fmt s w' :=
  ⟨hr h.read, hd ▸ h.listed, ht ▸ h.pending⟩

end Events

/-- What goes on beside a pass, which answers its calls get, and what this means for the
snapshots it returns. -/
structure Regime (fmt : Format) where
  rely : World → World → Prop
  fits : World → Outcome → Call → Prop
  holds : SnapshotMetadata → World → Prop
  refl : ∀ w, rely w w
  trans : ∀ a b c, rely a b → rely b c → rely a c
  quiet : ∀ {w w'}, rely w w' → Quiet w w'
  generation : ∀ {w w'}, rely w w' → w'.lastGeneration = w.lastGeneration
  covered : ∀ {w w'}, rely w w' → Covered fmt w → Covered fmt w'
  lists : ∀ {w w' s}, rely w w' → Lists fmt s w → Lists fmt s w'
  stable : ∀ {w w' s}, rely w w' → holds s w → holds s w'
  frame : ∀ (w w' : World) {s}, w'.deployments = w.deployments → holds s w → holds s w'
  reads : ∀ {w o r}, fits w o (.streamActive r) → ReadOk w o (.streamActive r)
  reused : ∀ {w s}, Lists fmt s w → w.isOutdated s = false → holds s w
  generated : ∀ {w s r}, s.hash = some (fmt.hashOf (w.activeIn r)) → s.timeRange = r → holds s w

section Pass

variable {fmt : Format} {R : Regime fmt} {w w' : World} {result : List SnapshotMetadata}

abbrev Brings {α : Type} (R : Regime fmt) (p : Pass α) (Q : α → World → Prop) (w : World) : Prop :=
  Prog.wp R.rely (answers fmt R.fits) p Q w

theorem brings_call {α : Type} {c : Call} {k : Answer c → Pass α} {Q : α → World → Prop}
    (h : ∀ w₁, R.rely w w₁ → ∀ o r w₂, R.fits w₁ o c → serve fmt w₁ o c = (r, w₂) →
      Brings R (k r) Q w₂) :
    Brings R (.call c k) Q w := by
  rintro w₁ hq r w₂ ⟨o, hfit, hserve⟩
  exact h w₁ hq o r w₂ hfit hserve

theorem brings_ret {α : Type} {a : α} {Q : α → World → Prop} (h : ∀ w₁, R.rely w w₁ → Q a w₁) :
    Brings R (.ret a) Q w := h

/-- The table is covered, and what was collected is as it should be. -/
structure Fine (R : Regime fmt) (result : List SnapshotMetadata) (w : World) : Prop where
  covered : Covered fmt w
  holds : ∀ m ∈ result, R.holds m w

theorem Fine.rely (h : Fine R result w) (hr : R.rely w w') : Fine R result w' :=
  ⟨R.covered hr h.covered, fun m hm => R.stable hr (h.holds m hm)⟩

theorem Fine.fewer (h : Fine R result w) {rows : List SnapshotMetadata} (hsub : rows ⊆ w.snapshots) :
    Fine R result { w with snapshots := rows } := by
  refine ⟨⟨fun s hs => ?_, fun s hs => h.covered.genuine s (hsub hs)⟩,
    fun m hm => R.frame w _ rfl (h.holds m hm)⟩
  exact (h.covered.lists s (hsub hs)).frame rfl rfl (List.Subset.refl _)

theorem Fine.deleteFile (h : Fine R result w) (x : Hash) : Fine R result (w.deleteFile x) := by
  refine ⟨⟨fun s hs => ?_, fun s hs y hy b hb => ?_⟩, fun m hm => R.frame w _ rfl (h.holds m hm)⟩
  · exact (h.covered.lists s hs).frame rfl rfl (List.Subset.refl _)
  by_cases hyx : y = x
  · subst hyx
    simp [World.deleteFile] at hb
  · exact h.covered.genuine s hs y hy b
      (by simpa [World.deleteFile, Function.update_of_ne hyx] using hb)

theorem Fine.store (h : Fine R result w) (b : Bytes) :
    Fine R result (w.storeFile (fmt.hashBytes b) b) := by
  refine ⟨⟨fun s hs => ?_, fun s hs x hx c hc => ?_⟩, fun m hm => R.frame w _ rfl (h.holds m hm)⟩
  · exact (h.covered.lists s hs).frame rfl rfl (List.Subset.refl _)
  by_cases hxb : x = fmt.hashBytes b
  · have hcb : some b = some c := by
      rw [hxb] at hc
      simpa [World.storeFile] using hc
    rw [← Option.some.inj hcb, hxb]
  · exact h.covered.genuine s hs x hx c
      (by simpa [World.storeFile, Function.update_of_ne hxb] using hc)

theorem Fine.remember (h : Fine R result w) (hashes : List Hash) :
    Fine R result { w with verified := hashes } :=
  ⟨⟨fun s hs => (h.covered.lists s hs).frame rfl rfl (List.Subset.refl _), h.covered.genuine⟩,
    fun m hm => R.frame w _ rfl (h.holds m hm)⟩

theorem Fine.now (h : Fine R result w) :
    Fine R result { w with lastGeneration := some w.clock } :=
  ⟨⟨fun s hs => (h.covered.lists s hs).frame rfl rfl (List.Subset.refl _), h.covered.genuine⟩,
    fun m hm => R.frame w _ rfl (h.holds m hm)⟩

theorem Fine.noteRead (h : Fine R result w) (r : TimeRange) : Fine R result (w.noteRead r) :=
  ⟨⟨fun s hs => (h.covered.lists s hs).frame rfl rfl (List.subset_append_right _ _),
    h.covered.genuine⟩, fun m hm => R.frame w _ rfl (h.holds m hm)⟩

theorem Fine.save {s : SnapshotMetadata} {b : Bytes} (h : Fine R result w) (hl : Lists fmt s w)
    (hhash : s.hash = some (fmt.hashBytes b)) (hfile : w.storage (fmt.hashBytes b) = some b) :
    Fine R result { w with snapshots := w.snapshots ++ [s] } := by
  refine ⟨⟨fun x hx => ?_, fun x hx y hy c hc => ?_⟩,
    fun m hm => R.frame w _ rfl (h.holds m hm)⟩
  · rcases List.mem_append.mp hx with hx | hx
    · exact (h.covered.lists x hx).frame rfl rfl (List.Subset.refl _)
    · rw [List.mem_singleton.mp hx]
      exact hl.frame rfl rfl (List.Subset.refl _)
  · rcases List.mem_append.mp hx with hx | hx
    · exact h.covered.genuine x hx y hy c hc
    · rw [List.mem_singleton.mp hx, hhash] at hy
      obtain rfl := Option.some.inj hy
      have hbc : some b = some c := hfile.symm.trans hc
      rw [Option.some.inj hbc]

theorem Fine.append {m : SnapshotMetadata} (h : Fine R result w) (hm : R.holds m w) :
    Fine R (result ++ [m]) w := by
  refine ⟨h.covered, fun x hx => ?_⟩
  rcases List.mem_append.mp hx with hx | hx
  · exact h.holds x hx
  · rw [List.mem_singleton.mp hx]
    exact hm

theorem reusableSnapshot_brings {candidate : SnapshotMetadata} (h : Fine R result w)
    (hc : candidate ∈ w.snapshots) (hgood : R.holds candidate w) :
    Brings R (reusableSnapshot candidate) (fun r w' => Fine R result w' ∧
      ∀ m ∈ r, m = candidate ∧ R.holds m w') w := by
  have hyes : ∀ w', Fine R result w' → R.holds candidate w' →
      Brings R (.ret (some candidate) : Pass (Option SnapshotMetadata)) (fun r w' =>
        Fine R result w' ∧ ∀ m ∈ r, m = candidate ∧ R.holds m w') w' := by
    refine fun w' h' hg => brings_ret fun w₁ hr => ⟨h'.rely hr, ?_⟩
    rintro m ⟨⟩
    exact ⟨rfl, R.stable hr hg⟩
  have hno : ∀ w', Fine R result w' →
      Brings R (.ret none : Pass (Option SnapshotMetadata)) (fun r w' =>
        Fine R result w' ∧ ∀ m ∈ r, m = candidate ∧ R.holds m w') w' :=
    fun w' h' => brings_ret fun w₁ hr => ⟨h'.rely hr, fun m hm => nomatch hm⟩
  unfold reusableSnapshot
  cases hhash : candidate.hash with
  | none => exact hno w h
  | some advertised =>
    refine brings_call fun w₁ hr o seen w₁' _ hserve => ?_
    obtain ⟨rfl, rfl⟩ := Prod.mk.inj hserve
    replace h := h.rely hr
    replace hgood := R.stable hr hgood
    have hc₁ : candidate ∈ w₁.snapshots := (R.quiet hr).1 ▸ hc
    by_cases hseen : o = .ok ∧ advertised ∈ w₁.verified
    · rw [if_pos (decide_eq_true hseen)]
      exact hyes w₁ h hgood
    · rw [if_neg (by simpa using hseen)]
      refine brings_call fun w₂ hr₂ o₂ stored w₂' _ hserve => ?_
      obtain ⟨rfl, rfl⟩ := Prod.mk.inj hserve
      replace h := h.rely hr₂
      replace hgood := R.stable hr₂ hgood
      have hc₂ : candidate ∈ w₂.snapshots := (R.quiet hr₂).1 ▸ hc₁
      cases hfile : w₂.storage advertised with
      | none => cases o₂ <;> exact hno w₂ h
      | some b =>
        have hgen : fmt.hashBytes b = advertised :=
          h.covered.genuine candidate hc₂ advertised hhash b hfile
        cases o₂ with
        | failed => exact hno w₂ h
        | lost => exact hno w₂ h
        | ok =>
          simp only [Outcome.read, Option.map_some, hgen, if_true]
          refine brings_call fun w₃ hr₃ o₃ r w₃' _ hserve => ?_
          obtain ⟨-, rfl⟩ := Prod.mk.inj hserve
          replace h := h.rely hr₃
          replace hgood := R.stable hr₃ hgood
          split
          · exact hyes _ h hgood
          · exact hyes _ (h.remember _) (R.frame w₃ _ rfl hgood)

theorem tryReuse_brings {interval : TimeRange} {saved : List SnapshotMetadata}
    (h : Fine R result w) (hsaved : saved ⊆ w.snapshots) :
    Brings R (tryReuse saved interval) (fun r w' => Fine R result w' ∧
      ∀ m ∈ r, m.timeRange = interval ∧ R.holds m w') w := by
  unfold tryReuse
  split
  · rename_i candidate heq
    have hmem : candidate ∈ saved.filter fun s => s.timeRange = interval := by
      rw [heq]
      exact List.mem_singleton.mpr rfl
    obtain ⟨hrows, hrange⟩ := List.mem_filter.mp hmem
    refine brings_call fun w₁ hr o outdated w₁' _ hserve => ?_
    obtain ⟨rfl, rfl⟩ := Prod.mk.inj hserve
    have hc : candidate ∈ w₁.snapshots := (R.quiet hr).1 ▸ hsaved hrows
    split
    · exact brings_ret fun w₂ hr₂ => ⟨(h.rely hr).rely hr₂, fun m hm => nomatch hm⟩
    · rename_i hnew
      have hnew' : w₁.isOutdated candidate = false := by
        cases o with
        | ok => simpa [Outcome.read] using hnew
        | failed => exact absurd rfl hnew
        | lost => exact absurd rfl hnew
      have hgood : R.holds candidate w₁ := R.reused ((h.rely hr).covered.lists candidate hc) hnew'
      refine Prog.wp_mono ?_ (reusableSnapshot_brings (h.rely hr) hc hgood)
      rintro r w' ⟨hfine, hr⟩
      refine ⟨hfine, fun m hm => ?_⟩
      obtain ⟨rfl, hm⟩ := hr m hm
      exact ⟨of_decide_eq_true hrange, hm⟩
  · exact brings_ret fun w₁ hr => ⟨h.rely hr, fun m hm => nomatch hm⟩

theorem deleteFiles_brings {keep hashes : List Hash} (h : Fine R result w) :
    Brings R (deleteFiles keep hashes) (fun _ w' => Fine R result w') w := by
  induction hashes generalizing w with
  | nil => exact brings_ret fun w₁ hr => h.rely hr
  | cons x hashes ih =>
    unfold deleteFiles
    split
    · exact ih h
    · refine brings_call fun w₁ hr o r w₁' _ hserve => ih ?_
      cases o <;> obtain ⟨-, rfl⟩ := Prod.mk.inj hserve
      · exact (h.rely hr).deleteFile x
      · exact h.rely hr
      · exact (h.rely hr).deleteFile x

theorem dropStale_brings {stale : List Hash} {interval : TimeRange} (h : Fine R result w) :
    Brings R (dropStale stale interval) (fun _ w' => Fine R result w') w := by
  unfold dropStale
  split
  · exact brings_ret fun w₁ hr => h.rely hr
  · refine brings_call fun w₁ hr o keep w₁' _ hserve => ?_
    obtain ⟨rfl, rfl⟩ := Prod.mk.inj hserve
    refine brings_call fun w₂ hr₂ o₂ r w₂' _ hserve => ?_
    replace h := (h.rely hr).rely hr₂
    have hfewer : Fine R result (w₂.deleteInRange stale interval) :=
      h.fewer (List.filter_subset_self _)
    cases o₂ with
    | failed =>
      obtain ⟨rfl, rfl⟩ := Prod.mk.inj hserve
      exact brings_ret fun w₃ hr₃ => h.rely hr₃
    | lost =>
      obtain ⟨rfl, rfl⟩ := Prod.mk.inj hserve
      exact brings_ret fun w₃ hr₃ => hfewer.rely hr₃
    | ok =>
      obtain ⟨rfl, rfl⟩ := Prod.mk.inj hserve
      exact deleteFiles_brings hfewer

theorem saveSnapshot_brings {metadata : SnapshotMetadata} {b : Bytes} (h : Fine R result w)
    (hl : Lists fmt metadata w) (hgood : R.holds metadata w)
    (hhash : metadata.hash = some (fmt.hashBytes b))
    (hfile : w.storage (fmt.hashBytes b) = some b) :
    Brings R (.call (.saveSnapshot metadata) fun saved =>
        if saved = none then .ret none else .ret (some metadata))
      (fun r w' => Fine R result w' ∧ ∀ m ∈ r, m = metadata ∧ R.holds m w') w := by
  refine brings_call fun w₁ hr o saved w₁' _ hserve => ?_
  replace h := h.rely hr
  replace hl := R.lists hr hl
  replace hgood := R.stable hr hgood
  rw [← (R.quiet hr).2.1] at hfile
  have hnone : ∀ w', Fine R result w' →
      Brings R (.ret none : Pass (Option SnapshotMetadata)) (fun r w' => Fine R result w' ∧
        ∀ m ∈ r, m = metadata ∧ R.holds m w') w' :=
    fun w' h' => brings_ret fun w₂ hr₂ => ⟨h'.rely hr₂, fun m hm => nomatch hm⟩
  simp only [serve] at hserve
  split at hserve
  · obtain ⟨rfl, rfl⟩ := Prod.mk.inj hserve
    exact hnone _ h
  · have hsaved := h.save hl hhash hfile
    cases o with
    | failed =>
      obtain ⟨rfl, rfl⟩ := Prod.mk.inj hserve
      exact hnone _ h
    | lost =>
      obtain ⟨rfl, rfl⟩ := Prod.mk.inj hserve
      exact hnone _ hsaved
    | ok =>
      obtain ⟨rfl, rfl⟩ := Prod.mk.inj hserve
      rw [if_neg (by simp)]
      refine brings_ret fun w₂ hr₂ => ⟨hsaved.rely hr₂, ?_⟩
      rintro m ⟨⟩
      exact ⟨rfl, R.stable hr₂ (R.frame w₁ _ rfl hgood)⟩

/-- The timestamp is taken before the read, so no deployment that commits later and began later
goes unnoticed. -/
theorem generateSnapshot_brings {interval : TimeRange} (replaced : List Hash)
    (h : Fine R result w) :
    Brings R (generateSnapshot fmt interval replaced) (fun r w' => Fine R result w' ∧
      ∀ m ∈ r, m.timeRange = interval ∧ R.holds m w') w := by
  have hret : ∀ w', Fine R result w' →
      Brings R (.ret none : Pass (Option SnapshotMetadata)) (fun r w' => Fine R result w' ∧
        ∀ m ∈ r, m.timeRange = interval ∧ R.holds m w') w' :=
    fun w' h' => brings_ret fun w₁ hr => ⟨h'.rely hr, fun m hm => nomatch hm⟩
  unfold generateSnapshot
  refine brings_call fun w₁ hr o generation w₁' _ hserve => ?_
  obtain ⟨rfl, rfl⟩ := Prod.mk.inj hserve
  replace h := (h.rely hr).now
  refine brings_call fun w₂ hr₂ o₂ deployments w₂' hfit hserve => ?_
  obtain ⟨rfl, rfl⟩ := Prod.mk.inj hserve
  replace h := h.rely hr₂
  have hgen : w₂.lastGeneration = some w₁.clock := R.generation hr₂
  cases o₂ with
  | failed => exact hret _ h
  | lost => exact hret _ h
  | ok =>
    replace h := h.noteRead interval
    simp only [Outcome.read, if_true]
    split
    · exact hret _ h
    refine brings_call fun w₃ hr₃ o₃ stored w₃' _ hserve => ?_
    cases o₃ with
    | failed =>
      obtain ⟨rfl, rfl⟩ := Prod.mk.inj hserve
      exact hret _ (h.rely hr₃)
    | lost =>
      obtain ⟨rfl, rfl⟩ := Prod.mk.inj hserve
      exact hret _ ((h.rely hr₃).store _)
    | ok =>
      obtain ⟨rfl, rfl⟩ := Prod.mk.inj hserve
      rw [if_neg (by simp)]
      refine Prog.wp_mono ?_ (saveSnapshot_brings ((h.rely hr₃).store _) ?_ ?_ rfl
        (Function.update_self _ _ _))
      · rintro r w' ⟨hfine, hr⟩
        refine ⟨hfine, fun m hm => ?_⟩
        obtain ⟨rfl, hgood⟩ := hr m hm
        exact ⟨rfl, hgood⟩
      · exact (R.lists hr₃ (lists_of_read hgen (R.reads hfit) rfl rfl rfl)).frame rfl rfl
          (List.Subset.refl _)
      · exact R.frame w₃ _ rfl (R.stable hr₃
          (R.frame w₂ (w₂.noteRead interval) rfl (R.generated rfl rfl)))

theorem snapshotInterval_brings {interval : TimeRange} (h : Fine R result w) :
    Brings R (snapshotInterval fmt interval) (fun r w' => Fine R result w' ∧
      ∀ m ∈ r, m.timeRange = interval ∧ R.holds m w') w := by
  unfold snapshotInterval
  refine brings_call fun w₁ hr o saved w₁' _ hserve => ?_
  obtain ⟨rfl, rfl⟩ := Prod.mk.inj hserve
  replace h := h.rely hr
  have hfail : Brings R (.ret none : Pass (Option SnapshotMetadata)) (fun r w' =>
      Fine R result w' ∧ ∀ m ∈ r, m.timeRange = interval ∧ R.holds m w') w₁ :=
    brings_ret fun w₂ hr₂ => ⟨h.rely hr₂, fun m hm => nomatch hm⟩
  cases o with
  | failed => exact hfail
  | lost => exact hfail
  | ok =>
    refine Prog.wp_bind R.refl (Prog.wp_mono ?_ (tryReuse_brings h (List.filter_subset_self _)))
    rintro reused w₂ ⟨h₂, hreused⟩
    cases reused with
    | some metadata =>
      obtain ⟨hrange, hgood⟩ := hreused metadata rfl
      refine brings_ret fun w₃ hr₃ => ⟨h₂.rely hr₃, ?_⟩
      rintro m ⟨⟩
      exact ⟨hrange, R.stable hr₃ hgood⟩
    | none =>
      refine Prog.wp_bind R.refl (Prog.wp_mono ?_ (dropStale_brings h₂))
      rintro _ w₃ h₃
      exact generateSnapshot_brings _ h₃

theorem snapshotIntervals_brings {intervals : List TimeRange} (h : Fine R result w) :
    Brings R (snapshotIntervals fmt intervals result) (fun r w' => Covered fmt w' ∧
      ∀ metas ∈ r, metas.map SnapshotMetadata.timeRange =
        result.map SnapshotMetadata.timeRange ++ intervals ∧ Fine R metas w') w := by
  induction intervals generalizing result w with
  | nil =>
    refine brings_ret fun w₁ hr => ⟨(h.rely hr).covered, ?_⟩
    rintro metas ⟨⟩
    exact ⟨(List.append_nil _).symm, h.rely hr⟩
  | cons interval intervals ih =>
    refine Prog.wp_bind R.refl (Prog.wp_mono ?_ (snapshotInterval_brings h))
    rintro metadata w₁ ⟨h₁, hr⟩
    cases metadata with
    | none => exact brings_ret fun w₂ hr₂ => ⟨(h₁.rely hr₂).covered, fun m hm => nomatch hm⟩
    | some metadata =>
      obtain ⟨hrange, hgood⟩ := hr metadata rfl
      refine Prog.wp_mono ?_ (ih (h₁.append hgood))
      rintro r w₂ ⟨hcov, hmetas⟩
      refine ⟨hcov, fun metas hm => ?_⟩
      obtain ⟨hall, hfine⟩ := hmetas metas hm
      refine ⟨?_, hfine⟩
      rw [hall, List.map_append, List.map_singleton, hrange, List.append_assoc]
      rfl

theorem pruneRows_brings {validHashes : List Hash} {validRanges : List TimeRange}
    {all : List SnapshotMetadata} (h : Fine R result w) :
    Brings R (pruneRows validHashes validRanges all) (fun _ w' => Fine R result w') w := by
  induction all generalizing w with
  | nil => exact brings_ret fun w₁ hr => h.rely hr
  | cons snap all ih =>
    unfold pruneRows
    split
    · exact ih h
    refine brings_call fun w₁ hr o deleted w₁' _ hserve => ?_
    replace h := h.rely hr
    have hfewer : Fine R result (w₁.deleteByRange snap.timeRange) :=
      h.fewer (List.filter_subset_self _)
    cases o with
    | failed =>
      obtain ⟨rfl, rfl⟩ := Prod.mk.inj hserve
      exact ih h
    | lost =>
      obtain ⟨rfl, rfl⟩ := Prod.mk.inj hserve
      exact ih hfewer
    | ok =>
      obtain ⟨rfl, rfl⟩ := Prod.mk.inj hserve
      cases hhash : snap.hash with
      | none => exact ih hfewer
      | some x =>
        dsimp only
        split
        · exact ih hfewer
        refine brings_call fun w₂ hr₂ o₂ r w₂' _ hserve => ?_
        replace hfewer := hfewer.rely hr₂
        cases o₂ <;> obtain ⟨-, rfl⟩ := Prod.mk.inj hserve
        · exact ih (hfewer.deleteFile x)
        · exact ih hfewer
        · exact ih (hfewer.deleteFile x)

/-- What a pass over the time until `e` brings. -/
def Outcomes (R : Regime fmt) (init e : ℤ) (r : Option (List SnapshotMetadata)) (w : World) :
    Prop :=
  Covered fmt w ∧ ∀ metas ∈ r,
    metas.map SnapshotMetadata.timeRange = intervalsUntil init e ∧ ∀ m ∈ metas, R.holds m w

theorem generateSnapshotsMulti_brings {init e : ℤ} (h : Covered fmt w) :
    Brings R (generateSnapshotsMulti fmt ⟨init, e⟩) (Outcomes R init e) w := by
  have hnone : Fine R [] w := ⟨h, fun m hm => nomatch hm⟩
  refine Prog.wp_bind R.refl (Prog.wp_mono ?_ (snapshotIntervals_brings hnone))
  rintro r w₁ ⟨hcov, hr⟩
  cases r with
  | none => exact brings_ret fun w₂ hr₂ => ⟨R.covered hr₂ hcov, fun m hm => nomatch hm⟩
  | some metas =>
    obtain ⟨hall, h₁⟩ := hr metas rfl
    have hdone : ∀ w', Fine R metas w' →
        Brings R (.ret (some metas) : Pass (Option (List SnapshotMetadata)))
          (Outcomes R init e) w' := by
      intro w' h'
      refine brings_ret fun w₂ hr₂ => ⟨(h'.rely hr₂).covered, ?_⟩
      rintro m ⟨⟩
      exact ⟨hall, (h'.rely hr₂).holds⟩
    refine brings_call fun w₂ hr₂ o r w₂' _ hserve => ?_
    obtain ⟨rfl, rfl⟩ := Prod.mk.inj hserve
    replace h₁ := h₁.rely hr₂
    cases o with
    | failed => exact hdone _ h₁
    | lost => exact hdone _ h₁
    | ok =>
      refine Prog.wp_bind R.refl (Prog.wp_mono ?_ (pruneRows_brings h₁))
      exact fun _ w₃ h₃ => hdone w₃ h₃

end Pass

section Regimes

variable {fmt : Format} {w w' : World} {s : SnapshotMetadata}

/-- Deployments go on beside the pass. -/
abbrev Goes : World → World → Prop :=
  Relation.ReflTransGen fun w w' => ∃ ev, EventOk w ev ∧ w.happen ev = some w'

theorem Goes.quiet (h : Goes w w') : Quiet w w' := by
  induction h with
  | refl => exact quiet_refl w
  | tail _ hev ih =>
    obtain ⟨ev, -, hev⟩ := hev
    exact quiet_trans _ _ _ ih (happen_quiet hev)

theorem Goes.generation (h : Goes w w') : w'.lastGeneration = w.lastGeneration := by
  induction h with
  | refl => rfl
  | tail _ hev ih =>
    obtain ⟨ev, -, hev⟩ := hev
    exact (happen_lastGeneration hev).trans ih

theorem Goes.lists (h : Goes w w') (hl : Lists fmt s w) : Lists fmt s w' := by
  induction h with
  | refl => exact hl
  | tail _ hev ih =>
    obtain ⟨ev, hok, hev⟩ := hev
    exact ih.happen hok hev

theorem Goes.covered (h : Goes w w') (hc : Covered fmt w) : Covered fmt w' := by
  induction h with
  | refl => exact hc
  | tail _ hev ih =>
    obtain ⟨ev, hok, hev⟩ := hev
    exact ih.happen hok hev

/-- A pass beside deployments keeps the table covered. -/
def concurrent (fmt : Format) : Regime fmt where
  rely := Goes
  fits := ReadOk
  holds _ _ := True
  refl _ := .refl
  trans _ _ _ := .trans
  quiet := Goes.quiet
  generation := Goes.generation
  covered := Goes.covered
  lists := Goes.lists
  stable _ _ := trivial
  frame _ _ _ _ _ := trivial
  reads h := h
  reused _ _ := trivial
  generated _ _ := trivial

/-- Only time passes. -/
structure Stays (w w' : World) : Prop where
  quiet : Quiet w w'
  deployments : w'.deployments = w.deployments
  transactions : w'.transactions = w.transactions
  generation : w'.lastGeneration = w.lastGeneration
  reads : w'.reads = w.reads

theorem Stays.lists (h : Stays w w') (hl : Lists fmt s w) : Lists fmt s w' :=
  hl.frame h.deployments h.transactions (h.reads ▸ List.Subset.refl _)

theorem Stays.covered (h : Stays w w') (hc : Covered fmt w) : Covered fmt w' := by
  refine ⟨fun s hs => h.lists (hc.lists s (h.quiet.1 ▸ hs)), ?_⟩
  rw [h.quiet.1, h.quiet.2.1]
  exact hc.genuine

theorem Complete.frame (h : Complete fmt s w) (hd : w'.deployments = w.deployments) :
    Complete fmt s w' := by
  rw [Complete, hd]
  exact h

/-- A pass that nothing is deployed beside returns complete snapshots. -/
def undisturbed (fmt : Format) : Regime fmt where
  rely := Stays
  fits w _ _ := w.transactions = []
  holds := Complete fmt
  refl w := ⟨quiet_refl w, rfl, rfl, rfl, rfl⟩
  trans a b c h h' := ⟨quiet_trans a b c h.quiet h'.quiet, h'.deployments.trans h.deployments,
    h'.transactions.trans h.transactions, h'.generation.trans h.generation, h'.reads.trans h.reads⟩
  quiet h := h.quiet
  generation h := h.generation
  covered := Stays.covered
  lists := Stays.lists
  stable h hc := hc.frame h.deployments
  frame _ _ _ h hc := hc.frame h
  reads h _ tx htx := by
    rw [h] at htx
    cases htx
  reused := Lists.complete
  generated := complete_of_read

end Regimes

section Runs

variable {fmt : Format} {R : Regime fmt} {init : ℤ} {g g' : Generator} {a : Step}

/-- The regime allows for the step. -/
def Regime.Admits (R : Regime fmt) (g : Generator) : Step → Prop
  | .event ev => ∀ w, g.world.happen ev = some w → R.rely g.world w
  | .serve o => ∀ c k, g.running = some (.call c k) → R.fits g.world o c
  | _ => True

/-- Between passes the table is covered; a running pass will bring what it should. -/
def Progresses (R : Regime fmt) (init : ℤ) (g : Generator) : Prop :=
  match g.running with
  | none => Covered fmt g.world
  | some p => ∃ e, g.lastEnd = some e ∧ Brings R p (Outcomes R init e) g.world

theorem progresses_none (h : g.running = none) : Progresses R init g ↔ Covered fmt g.world := by
  rw [Progresses, h]

theorem progresses_some {p : Pass (Option (List SnapshotMetadata))} (h : g.running = some p) :
    Progresses R init g ↔
      ∃ e, g.lastEnd = some e ∧ Brings R p (Outcomes R init e) g.world := by
  rw [Progresses, h]

theorem Progresses.step (h : Progresses R init g) (hok : R.Admits g a)
    (hstep : g.step fmt init a = some g') : Progresses R init g' := by
  cases a with
  | event ev =>
    obtain ⟨w, hw, rfl⟩ := Option.map_eq_some_iff.mp hstep
    have hrely := hok w hw
    cases hr : g.running with
    | none => exact R.covered hrely ((progresses_none hr).mp h)
    | some p =>
      obtain ⟨e, he, hp⟩ := (progresses_some hr).mp h
      exact ⟨e, he, Prog.wp_rely R.trans hp hrely⟩
  | start e =>
    obtain ⟨hr, -, rfl⟩ := Generator.step_start hstep
    exact ⟨e, rfl, generateSnapshotsMulti_brings ((progresses_none hr).mp h)⟩
  | serve o =>
    obtain ⟨c, k, hr, rfl⟩ := Generator.step_serve hstep
    obtain ⟨e, he, hp⟩ := (progresses_some hr).mp h
    exact ⟨e, he, Prog.wp_call R.refl hp ⟨o, hok c k hr, rfl⟩⟩
  | finish =>
    obtain ⟨r, hr, rfl⟩ := Generator.step_finish hstep
    obtain ⟨e, he, hp⟩ := (progresses_some hr).mp h
    exact (Prog.wp_ret R.refl hp).1

/-- The side condition on a step beside deployments. -/
def Timely (g : Generator) : Step → Prop
  | .event ev => EventOk g.world ev
  | .serve o =>
    match g.running with
    | some (.call c _) => ReadOk g.world o c
    | _ => True
  | _ => True

theorem admits_of_timely (h : Timely g a) : (concurrent fmt).Admits g a := by
  cases a with
  | event ev => exact fun w hw => .single ⟨ev, h, hw⟩
  | serve o =>
    intro c k hr
    have hread : ReadOk g.world o c := by simpa only [Timely, hr] using h
    exact hread
  | start e => trivial
  | finish => trivial

/-- The steps of a pass that runs on its own. -/
def Lone : Step → Prop
  | .serve _ => True
  | .event (.tick _) => True
  | _ => False

theorem serve_transactions (w : World) (o : Outcome) (c : Call) :
    (serve fmt w o c).2.transactions = w.transactions := by
  cases c <;> simp only [serve] <;> cases o <;> (try split) <;> rfl

theorem lone_transactions (h : Lone a) (hstep : g.step fmt init a = some g') :
    g'.world.transactions = g.world.transactions := by
  cases a with
  | event ev =>
    obtain ⟨w, hw, rfl⟩ := Option.map_eq_some_iff.mp hstep
    cases ev with
    | tick t =>
      obtain rfl := happen_tick hw
      rfl
    | begin deploys => exact h.elim
    | commit i deleted => exact h.elim
  | serve o =>
    obtain ⟨c, k, -, rfl⟩ := Generator.step_serve hstep
    exact serve_transactions _ _ _
  | start e => exact h.elim
  | finish => exact h.elim

theorem admits_of_lone (h : Lone a) (ht : g.world.transactions = []) :
    (undisturbed fmt).Admits g a := by
  cases a with
  | event ev =>
    intro w hw
    have hq := happen_quiet hw
    cases ev with
    | tick t =>
      obtain rfl := happen_tick hw
      exact ⟨hq, rfl, rfl, rfl, rfl⟩
    | begin deploys => exact h.elim
    | commit i deleted => exact h.elim
  | serve o => exact fun c k _ => ht
  | start e => exact h.elim
  | finish => exact h.elim

theorem lone_lastEnd (h : Lone a) (hstep : g.step fmt init a = some g') :
    g'.lastEnd = g.lastEnd := by
  cases a with
  | event ev =>
    obtain ⟨w, -, rfl⟩ := Option.map_eq_some_iff.mp hstep
    rfl
  | serve o =>
    obtain ⟨c, k, -, rfl⟩ := Generator.step_serve hstep
    rfl
  | start e => exact h.elim
  | finish => exact h.elim

theorem covered_of_no_rows {w : World} (h : w.snapshots = []) : Covered fmt w := by
  refine ⟨?_, ?_⟩ <;> simp [h]

/-- **Advertised snapshots are complete.** In runs where no snapshot misses a transaction that
began by its generation timestamp, once all transactions have committed the next pass over
the time until `e` returns for each interval a snapshot of all its active deployments. -/
theorem advertised_complete (fmt : Format) (init clock e : ℤ) (storage : Hash → Option Bytes)
    (steps final : List Step) (g g' : Generator)
    (hok : Machine.Meets (Generator.step fmt init) Timely (Generator.new clock storage) steps)
    (hrun : Machine.run (Generator.step fmt init) (Generator.new clock storage) steps = some g)
    (hcommitted : g.world.transactions = []) (hfinal : ∀ a ∈ final, Lone a)
    (hlast : Machine.run (Generator.step fmt init) g (.start e :: final) = some g') :
    ∀ metas, g'.running = some (.ret (some metas)) →
      metas.map SnapshotMetadata.timeRange = intervalsUntil init e ∧
        ∀ m ∈ metas, Complete fmt m g'.world := by
  intro metas hret
  obtain ⟨g₁, hstart, hlone⟩ := Option.bind_eq_some_iff.mp hlast
  obtain ⟨hidle, -, rfl⟩ := Generator.step_start hstart
  -- the passes so far leave the table covered
  have hbefore : Progresses (concurrent fmt) init g :=
    Machine.run_invariant_of_meets (P := Progresses (concurrent fmt) init) _
      (fun _ _ _ hs htimely hstep => hs.step (admits_of_timely htimely) hstep) steps _ g hok hrun
      (covered_of_no_rows rfl)
  have hcovered : Covered fmt g.world := (progresses_none hidle).mp hbefore
  have hstarted : Progresses (undisturbed fmt) init { g with
      running := some (generateSnapshotsMulti fmt ⟨init, e⟩), lastEnd := some e } :=
    (progresses_some rfl).mpr ⟨e, rfl, generateSnapshotsMulti_brings hcovered⟩
  -- and the last one runs on its own
  obtain ⟨hdone, -, hend'⟩ := Machine.run_invariant_of_meets
    (P := fun g => Progresses (undisturbed fmt) init g ∧ g.world.transactions = [] ∧
      g.lastEnd = some e) _
    (fun _ _ _ hs hl hstep => ⟨hs.1.step (admits_of_lone hl hs.2.1) hstep,
      (lone_transactions hl hstep).trans hs.2.1, (lone_lastEnd hl hstep).trans hs.2.2⟩)
    final _ g' (Machine.meets_of_forall _ hfinal _) hlone ⟨hstarted, hcommitted, rfl⟩
  obtain ⟨e', he', hp⟩ := (progresses_some hret).mp hdone
  obtain rfl := Option.some.inj (hend'.symm.trans he')
  exact (Prog.wp_ret (undisturbed fmt).refl hp).2 metas rfl

instance (w : World) : (ev : Event) → Decidable (EventOk w ev)
  | .begin deploys => inferInstanceAs (Decidable (∀ d ∈ deploys, ∀ p ∈ w.reads,
      p.1.Includes d.entityTimestamp → p.2 < w.clock))
  | .tick _ | .commit _ _ => isTrue trivial

instance (w : World) (o : Outcome) : (c : Call) → Decidable (ReadOk w o c)
  | .streamActive r => inferInstanceAs (Decidable (o = .ok → ∀ tx ∈ w.transactions,
      ∀ d ∈ tx.deploys, r.Includes d.entityTimestamp → ∀ t ∈ w.lastGeneration, t < tx.begun))
  | .findContained _ | .snapshotIsOutdated _ | .alreadyVerified _ | .rememberVerified _
  | .storedContentHash _ | .rekey _ _ | .updateSnapshotHash _ _ _ | .hashesNotInTimeRange _ _
  | .deleteSnapshots _ _ | .deleteFile _ | .now | .store _ _ | .saveSnapshot _ | .getAllSnapshots
  | .deleteByTimeRange _ => isTrue trivial

instance (g : Generator) : (a : Step) → Decidable (Timely g a)
  | .event ev => inferInstanceAs (Decidable (EventOk g.world ev))
  | .serve o =>
    match h : g.running with
    | some (.call c _) => decidable_of_iff (ReadOk g.world o c) (by simp [Timely, h])
    | some (.ret _) => isTrue (by simp [Timely, h])
    | none => isTrue (by simp [Timely, h])
  | .start _ | .finish => isTrue trivial

instance : (a : Step) → Decidable (Lone a)
  | .serve _ => isTrue trivial
  | .event (.tick _) => isTrue trivial
  | .event (.begin _) | .event (.commit _ _) | .start _ | .finish => isFalse id

end Runs

section Examples

def scene : SnapshotSyncDeployment := ⟨['x'], ['s'], [['p']], [], 1000⟩

/-- A pass over the first day that finds no snapshot. -/
def firstPass : List Step := .start msPerDay :: List.replicate 6 (.serve .ok)

/-- The transaction is open while the snapshot of its day is generated. -/
def openAtRead : List Step :=
  [.event (.begin [scene]), .event (.tick 3)] ++ firstPass ++ [.finish, .event (.commit 0 [])]

/-- The transaction begins once the snapshot is there. -/
def afterRead : List Step :=
  firstPass ++ [.finish, .event (.tick 3), .event (.begin [scene]), .event (.commit 0 [])]

theorem advertised_complete_afterRead :
    ∃ g g' metas, Machine.run (Generator.step plain 0) (Generator.new 0 fun _ => none) afterRead =
        some g ∧ Machine.run (Generator.step plain 0) g
          (.start msPerDay :: List.replicate 10 (.serve .ok)) = some g' ∧
      g'.running = some (.ret (some metas)) ∧
      metas.map SnapshotMetadata.timeRange = intervalsUntil 0 msPerDay ∧
        ∀ m ∈ metas, Complete plain m g'.world := by
  have hrun : ((Machine.run (Generator.step plain 0) (Generator.new 0 fun _ => none) afterRead).bind
      fun g => (Machine.run (Generator.step plain 0) g
        (.start msPerDay :: List.replicate 10 (.serve .ok))).map fun g' =>
          (g.world.transactions, g'.returned.isSome)) = some ([], true) := by decide +kernel
  obtain ⟨g, hg, hnext⟩ := Option.bind_eq_some_iff.mp hrun
  obtain ⟨g', hg', heq⟩ := Option.map_eq_some_iff.mp hnext
  obtain ⟨hcommitted, hret⟩ := Prod.mk.inj heq
  obtain ⟨metas, hmetas⟩ := Option.isSome_iff_exists.mp hret
  exact ⟨g, g', metas, hg, hg', running_of_returned hmetas,
    advertised_complete plain 0 0 msPerDay (fun _ => none) afterRead _ g g' (by decide +kernel) hg
      hcommitted (by decide) hg' metas (running_of_returned hmetas)⟩

/-- The snapshot that misses the open transaction is reused for good: the deployment is older
than the snapshot. -/
theorem open_transaction_missed :
    ∃ g g' metas m, Machine.run (Generator.step plain 0) (Generator.new 0 fun _ => none)
        openAtRead = some g ∧ g.world.transactions = [] ∧
      Machine.run (Generator.step plain 0) g
        (.start msPerDay :: List.replicate 6 (.serve .ok)) = some g' ∧
      g'.running = some (.ret (some metas)) ∧ m ∈ metas ∧ ¬ Complete plain m g'.world := by
  have hrun : ((Machine.run (Generator.step plain 0) (Generator.new 0 fun _ => none)
      openAtRead).bind fun g => (Machine.run (Generator.step plain 0) g
        (.start msPerDay :: List.replicate 6 (.serve .ok))).map fun g' =>
          (g.world.transactions, g'.returned, g'.world.deployments)) =
      some ([], some [⟨some [], ⟨0, msPerDay⟩, [], 0, 3⟩], [⟨scene, false, 0⟩]) := by
    decide +kernel
  obtain ⟨g, hg, hnext⟩ := Option.bind_eq_some_iff.mp hrun
  obtain ⟨g', hg', heq⟩ := Option.map_eq_some_iff.mp hnext
  obtain ⟨hcommitted, heq⟩ := Prod.mk.inj heq
  obtain ⟨hmetas, hrows⟩ := Prod.mk.inj heq
  refine ⟨g, g', _, _, hg, hcommitted, hg', running_of_returned hmetas, List.mem_singleton.mpr rfl, ?_⟩
  rintro ⟨ds, hhash, hall⟩
  have hlisted : scene ∈ ds := by
    refine hall ⟨scene, false, 0⟩ ?_ rfl (by decide)
    rw [hrows]
    exact List.mem_singleton.mpr rfl
  -- a file that lists the scene is not empty
  have hempty : [] = ds.flatMap SnapshotSyncDeployment.entityId := Option.some.inj hhash
  have hx : 'x' ∈ ds.flatMap SnapshotSyncDeployment.entityId :=
    List.mem_flatMap.mpr ⟨scene, hlisted, List.mem_singleton.mpr rfl⟩
  rw [← hempty] at hx
  cases hx

end Examples

end Catalyrst.Snapshots
