import Mathlib
import Catalyrst.Lib.Machine
import Catalyrst.Sync.Orchestrator

/-!
# What the cursor of a server stands for

Once a server has finished its bootstrap, every entity it announced well before its
cursor should be deployed or recorded as failed. The resume mark is shared by all types:
the stream of one slice moves it past changes of the other, and only the passes that
come later bring those in. The conditions below say, pass by pass, when they do.
-/

namespace Catalyrst.Sync

open Catalyrst.Lib

theorem wanted_of_le {cfg : SyncOrchestratorConfig} {now now' : Timestamp} {d : SyncDeployment}
    (hle : now ≤ now') (h : cfg.wanted now' d = true) : cfg.wanted now d = true := by
  simp only [SyncOrchestratorConfig.wanted, SyncOrchestratorConfig.ageFiltered, Bool.and_eq_true,
    Bool.not_eq_true', decide_eq_false_iff_not, decide_eq_true_eq] at h ⊢
  refine ⟨⟨h.1.1, fun hage => h.1.2 ⟨hage.1, ?_⟩⟩, h.2⟩
  exact hage.2.trans_le (sub_le_sub_right hle cfg.profileMaxAgeMs)

section

variable {cfg : SyncOrchestratorConfig} {now : Timestamp} {d : SyncDeployment}

theorem wanted_congr {e : SyncDeployment} (htype : d.entityType = e.entityType)
    (hts : d.entityTimestamp = e.entityTimestamp) : cfg.wanted now d = cfg.wanted now e := by
  simp only [SyncOrchestratorConfig.wanted, SyncOrchestratorConfig.ageFiltered, htype, hts]

theorem wanted_passes (h : cfg.wanted now d = true) : passes cfg.entityTypes d.entityType = true := by
  simp only [SyncOrchestratorConfig.wanted, SyncOrchestratorConfig.syncedType,
    Bool.and_eq_true] at h
  exact h.1.1.1.1

theorem wanted_nonProfile (h : cfg.wanted now d = true) (hd : d.entityType ≠ profileType) :
    passes (some cfg.nonProfileFilter) d.entityType = true := by
  have hpass := wanted_passes h
  simp only [SyncOrchestratorConfig.wanted, SyncOrchestratorConfig.syncedType, Bool.and_eq_true,
    decide_eq_true_eq] at h
  exact passes_nonProfileFilter ((List.mem_cons.mp h.1.1.1.2).resolve_left hd) hpass

/-- A pass that covers the synced types lets every wanted entity through. -/
theorem wanted_passes_of_covers {f : Option (List EntityType)}
    (hf : passCoversAllSyncedTypes f cfg.entityTypes = true) (h : cfg.wanted now d = true) :
    passes f d.entityType = true :=
  passes_of_covers hf (wanted_passes h)

end

/-! ### Scripts -/

/-- What a bootstrap relies on in the order of its passes. -/
def Op.Placed (cfg : SyncOrchestratorConfig) (rest : List Op) : Op → Prop
  | .snapshots f false => f = some cfg.nonProfileFilter ∧ Op.reset ∈ rest
  | .snapshots f true => f = cfg.entityTypes ∨ f = some [profileType]
  | .start => Op.reset ∉ rest
  | _ => True

def Ordered (cfg : SyncOrchestratorConfig) : List Op → Prop
  | [] => True
  | op :: rest => (Op.resume ∉ rest ∧ op.Placed cfg rest) ∧ Ordered cfg rest

theorem ordered_runBootstrap (cfg : SyncOrchestratorConfig) : Ordered cfg (runBootstrap cfg) := by
  unfold runBootstrap
  split
  · simp [runPhasedBootstrap, Ordered, Op.Placed]
  · simp [runFullBootstrap, Ordered, Op.Placed]

theorem ordered_stragglerRound (cfg : SyncOrchestratorConfig) :
    Ordered cfg (stragglerRound cfg) := by
  simp [stragglerRound, Ordered, Op.Placed]

theorem resume_mem_runBootstrap (cfg : SyncOrchestratorConfig) : Op.resume ∈ runBootstrap cfg := by
  unfold runBootstrap
  split
  · simp [runPhasedBootstrap]
  · simp [runFullBootstrap]

/-! ### The property and the conditions -/

namespace Node

section

variable (peer : Peer) (cfg : SyncOrchestratorConfig) (n : Node)

/-- Every change before `t` that the node is to have is durable. -/
def AccountedBelow (t : Timestamp) : Prop :=
  ∀ c ∈ peer.history, cfg.wanted n.now c.delta = true → c.localTimestamp < t →
    c.entityId ∈ n.durable

/-- Every line of a snapshot that the node is to have is durable. -/
def Incorporated (h : Hash) : Prop :=
  ∀ d ∈ peer.contents h, cfg.wanted n.now d = true → d.entityId ∈ n.durable

/-- The snapshot phases and the pointer-changes phases of the server are over. -/
def Finished : Prop := n.phase = .syncing ∧ (n.syncTask ≠ none ∨ Op.reset ∉ n.todo)

def CursorSafe : Prop :=
  ∀ cur ∈ n.cursor, n.AccountedBelow peer cfg (cur - pointerChangesShiftMs)

/-- What a drained poll has handed to the deployer is durable. -/
def HonestPoll (f : Option (List EntityType)) (fromTimestamp : Timestamp) (p : Poll) : Prop :=
  p.drained = true → ∀ d ∈ (n.readPoll peer f fromTimestamp p).2, cfg.wanted n.now d = true →
    d.entityId ∈ n.durable ∪ p.written

/-- The mark of a poll overtakes a change where the change lies before the mark so far, or
before another plausible change of the poll. An outstanding change that is overtaken is one
the poll hands over: it is served, plausible and of the poll's types. -/
def NotOvertaken (f : Option (List EntityType)) (fromTimestamp bound : Timestamp) (p : Poll) :
    Prop :=
  p.drained = true → ∀ c ∈ peer.history, cfg.wanted n.now c.delta = true → c.entityId ∉ n.durable →
    (c.localTimestamp < bound ∨ ∃ d ∈ peer.history, fromTimestamp ≤ d.localTimestamp ∧
      d.localTimestamp ≤ p.horizon ∧ d.plausibleTimes n.now = true ∧
        c.localTimestamp < d.localTimestamp) →
    c.localTimestamp ≤ p.horizon ∧ c.plausibleTimes n.now = true ∧ passes f c.entityType = true

/-- What a snapshot pass has deployed without failure is durable. -/
def HonestPass (f : Option (List EntityType)) (p : SnapshotPass) : Prop :=
  ∀ h ∈ p.deployable n, p.failedOn peer n h = false → ∀ d ∈ peer.contents h,
    passes f d.entityType = true → cfg.wanted n.now d = true → d.entityId ∈ n.durable ∪ p.written

/-- The snapshots a pass leaves out, as replaced, stored or too old, have nothing new. -/
def NothingSkipped (p : SnapshotPass) : Prop :=
  ∀ h ∈ p.newlyMarked ++ (p.ownHashes n).filter (· ∈ p.skipped),
    ∀ d ∈ peer.contents h, cfg.wanted n.now d = true → d.entityId ∈ n.durable ∪ p.written

/-- The listed snapshots hold every outstanding change that the pointer changes, read from the
mark on, will not show again. -/
def SnapshotsReach (p : SnapshotPass) : Prop :=
  ∀ listing ∈ p.own n, ∀ c ∈ peer.history, cfg.wanted n.now c.delta = true →
    c.entityId ∉ n.durable → c.localTimestamp <
      max n.lastSnapshotTimestamp (SnapshotPass.lastTs cfg listing) - pointerChangesShiftMs →
    ∃ h ∈ listing.map Prod.fst, ∃ d ∈ peer.contents h, d.entityId = c.entityId ∧
      d.entityType = c.entityType ∧ d.entityTimestamp = c.entityTimestamp

/-- A server that is past its snapshots does not take over the mark of another. -/
def KeepsMark : Prop :=
  n.cursor = none → n.phase ≠ .bootstrappingSnapshots → n.syncFrontier ≤ n.lastSnapshotTimestamp

def CarefulSnapshots (p : SnapshotPass) : List Op → Prop
  | .snapshots f mark :: rest => n.HonestPass peer cfg f p ∧ n.NothingSkipped peer cfg p ∧
    (Op.reset ∉ rest → p.held peer cfg n f mark = false → n.SnapshotsReach peer cfg p)
  | _ => True

def CarefulPointers (p : Poll) : List Op → Prop
  | .pointers f :: rest => n.phase = .bootstrappingPointerChanges →
    Op.reset ∉ (if p.idle then rest else n.onError cfg rest) →
    n.HonestPoll peer cfg f n.streamFrom p ∧
      n.NotOvertaken peer cfg f n.streamFrom n.lastSnapshotTimestamp p
  | _ => True

/-- What keeps the cursor of the server behind what is outstanding. Snapshots and streams that
are followed by a reset need not: what they leave out is brought in after it. -/
def Careful : Action → Prop
  | .resume => n.KeepsMark
  | .snapshots p => n.CarefulSnapshots peer cfg p n.todo
  | .pointers p => n.CarefulPointers peer cfg p n.todo
  | .poll p => ∀ s ∈ n.syncTask, n.HonestPoll peer cfg cfg.entityTypes s.confirmedTimestamp p ∧
      n.NotOvertaken peer cfg cfg.entityTypes s.confirmedTimestamp s.confirmedTimestamp p
  | .elsewhere e => ∀ h ∈ e.newlyMarked, ∀ d ∈ peer.contents h,
      cfg.wanted (n.now + e.elapsed) d = true → d.entityId ∈ n.durable ∪ e.written
  | _ => True

end

/-! ### The invariant -/

section

variable (peer : Peer) (cfg : SyncOrchestratorConfig)

/-- The bookkeeping of the snapshots. -/
structure Books (n : Node) : Prop where
  processed : ∀ h ∈ n.processedSnapshots, n.Incorporated peer cfg h
  clean : ∀ h ∈ n.unmarkedCleanSnapshots, ∀ d ∈ peer.contents h, cfg.wanted n.now d = true →
    d.entityType ≠ profileType → d.entityId ∈ n.durable

/-- What the phase, the resume mark and the cursor of the server stand for. -/
structure Marks (n : Node) : Prop where
  ordered : Ordered cfg n.todo
  resets : Op.reset ∈ n.todo → Op.reset ∈ runBootstrap cfg
  nonneg : 0 ≤ n.lastSnapshotTimestamp
  pointerChanges : n.phase = .bootstrappingPointerChanges → Op.reset ∉ n.todo →
    n.AccountedBelow peer cfg (n.lastSnapshotTimestamp - pointerChangesShiftMs)
  synced : n.phase = .syncing → n.syncTask = none → Op.reset ∉ n.todo →
    n.AccountedBelow peer cfg n.lastSnapshotTimestamp
  cursor : n.syncTask = none → n.phase ≠ .bootstrappingSnapshots ∨ Op.resume ∉ n.todo →
    ∀ cur ∈ n.cursor, cur ≤ n.lastSnapshotTimestamp
  stream : ∀ s ∈ n.syncTask, n.phase = .syncing ∧
    n.AccountedBelow peer cfg s.confirmedTimestamp ∧ ∀ cur ∈ n.cursor, cur ≤ s.confirmedTimestamp

structure Inv (n : Node) : Prop where
  books : n.Books peer cfg
  marks : n.Marks peer cfg

end

section

variable {peer : Peer} {cfg : SyncOrchestratorConfig} {n n' : Node}

theorem AccountedBelow.grow {t t' : Timestamp} (h : n.AccountedBelow peer cfg t)
    (hnow : n.now ≤ n'.now) (hdur : n.durable ⊆ n'.durable) (ht : t' ≤ t) :
    n'.AccountedBelow peer cfg t' := fun c hc hw hlt =>
  hdur (h c hc (wanted_of_le hnow hw) (hlt.trans_le ht))

theorem Incorporated.grow {k : Hash} (h : n.Incorporated peer cfg k) (hnow : n.now ≤ n'.now)
    (hdur : n.durable ⊆ n'.durable) : n'.Incorporated peer cfg k := fun d hd hw =>
  hdur (h d hd (wanted_of_le hnow hw))

theorem Books.grow (h : n.Books peer cfg) (hnow : n.now ≤ n'.now) (hdur : n.durable ⊆ n'.durable)
    (hproc : ∀ k ∈ n'.processedSnapshots, k ∉ n.processedSnapshots → n'.Incorporated peer cfg k)
    (hclean : n'.unmarkedCleanSnapshots ⊆ n.unmarkedCleanSnapshots) : n'.Books peer cfg where
  processed k hk := by
    by_cases hold : k ∈ n.processedSnapshots
    · exact (h.processed k hold).grow hnow hdur
    · exact hproc k hk hold
  clean k hk d hd hw hne := hdur (h.clean k (hclean hk) d hd (wanted_of_le hnow hw) hne)

/-- The books depend on the database and on the cross-pass sets only. -/
theorem Books.of_eq (h : n.Books peer cfg) (hnow : n'.now = n.now) (hdur : n'.durable = n.durable)
    (hproc : n'.processedSnapshots = n.processedSnapshots)
    (hclean : n'.unmarkedCleanSnapshots ⊆ n.unmarkedCleanSnapshots) : n'.Books peer cfg :=
  h.grow hnow.ge hdur.ge (fun _ hk hold => absurd (hproc ▸ hk) hold) hclean

/-- More is durable, and the script goes on without forgetting a reset or a resume. -/
theorem Marks.grow (h : n.Marks peer cfg) (hnow : n.now ≤ n'.now) (hdur : n.durable ⊆ n'.durable)
    (hphase : n'.phase = n.phase) (hlast : n'.lastSnapshotTimestamp = n.lastSnapshotTimestamp)
    (htask : n'.syncTask = n.syncTask) (hcursor : n'.cursor = n.cursor)
    (hordered : Ordered cfg n'.todo) (hresets : Op.reset ∈ n'.todo → Op.reset ∈ runBootstrap cfg)
    (hreset : Op.reset ∉ n'.todo → Op.reset ∉ n.todo)
    (hresume : Op.resume ∉ n'.todo → Op.resume ∉ n.todo) : n'.Marks peer cfg where
  ordered := hordered
  resets := hresets
  nonneg := hlast ▸ h.nonneg
  pointerChanges hp hr := by
    rw [hphase] at hp
    exact (h.pointerChanges hp (hreset hr)).grow hnow hdur (by rw [hlast])
  synced hp ht hr := by
    rw [hphase] at hp
    rw [htask] at ht
    exact (h.synced hp ht (hreset hr)).grow hnow hdur hlast.le
  cursor ht hor := by
    rw [htask] at ht
    rw [hphase] at hor
    rw [hcursor, hlast]
    exact h.cursor ht (hor.imp_right hresume)
  stream := by
    rw [htask, hphase, hcursor]
    intro s hs
    obtain ⟨hp, hacc, hcur⟩ := h.stream s hs
    exact ⟨hp, hacc.grow hnow hdur le_rfl, hcur⟩

/-! ### Scripts go on -/

theorem not_mem_of_cons {op op' : Op} {rest : List Op} (hne : op' ≠ op) (h : op' ∉ rest) :
    op' ∉ op :: rest := fun hmem => (List.mem_cons.mp hmem).elim hne h

/-- After a pass that is no reset and no resume. -/
theorem Marks.advance (h : n.Marks peer cfg) {op : Op} {rest : List Op} (htodo : n.todo = op :: rest)
    (hreset : op ≠ .reset) (hresume : op ≠ .resume) : { n with todo := rest }.Marks peer cfg := by
  have hordered := h.ordered
  rw [htodo] at hordered
  refine h.grow le_rfl subset_rfl rfl rfl rfl rfl hordered.2 (fun hm => h.resets ?_) ?_ ?_
  · rw [htodo]
    exact List.mem_cons_of_mem op hm
  · intro hm
    rw [htodo]
    exact not_mem_of_cons hreset.symm hm
  · intro hm
    rw [htodo]
    exact not_mem_of_cons hresume.symm hm

theorem Marks.retry (h : n.Marks peer cfg) : { n with todo := runBootstrap cfg }.Marks peer cfg :=
  h.grow le_rfl subset_rfl rfl rfl rfl rfl (ordered_runBootstrap cfg) id
    (fun hm hold => hm (h.resets hold)) (fun hm => absurd (resume_mem_runBootstrap cfg) hm)

theorem Marks.fail (h : n.Marks peer cfg) {op : Op} {rest : List Op} (htodo : n.todo = op :: rest)
    (hreset : op ≠ .reset) (hresume : op ≠ .resume) :
    { n with todo := n.onError cfg rest }.Marks peer cfg := by
  have hcases : n.onError cfg rest = rest ∨ n.onError cfg rest = runBootstrap cfg := by
    unfold onError
    exact ite_eq_or_eq _ _ _
  rcases hcases with he | he
  · rw [he]
    exact h.advance htodo hreset hresume
  · rw [he]
    exact h.retry

/-- The next passes after a pass over pointer changes. -/
theorem Marks.proceed (h : n.Marks peer cfg) {op : Op} {rest : List Op} (htodo : n.todo = op :: rest)
    (hreset : op ≠ .reset) (hresume : op ≠ .resume) (ok : Bool) :
    { n with todo := if ok then rest else n.onError cfg rest }.Marks peer cfg := by
  cases ok with
  | true => exact h.advance htodo hreset hresume
  | false => exact h.fail htodo hreset hresume

/-! ### Resuming, resetting and starting -/

theorem resumeFromCursor_eq (n : Node) : n.resumeFromCursor =
    { n with lastSnapshotTimestamp := n.resumeFromCursor.lastSnapshotTimestamp } := by
  unfold resumeFromCursor
  dsimp only
  split
  · rfl
  · rfl

theorem Marks.resume (h : n.Marks peer cfg) {rest : List Op} (htodo : n.todo = .resume :: rest)
    (hkeeps : n.KeepsMark) : { n.resumeFromCursor with todo := rest }.Marks peer cfg := by
  have hle : n.lastSnapshotTimestamp ≤ n.resumeFromCursor.lastSnapshotTimestamp := by
    unfold resumeFromCursor
    dsimp only
    split
    · exact le_max_left _ _
    · exact le_rfl
  have hcur : ∀ cur ∈ n.cursor, cur ≤ n.resumeFromCursor.lastSnapshotTimestamp := by
    intro cur hc
    have hpoint : resumePoint n.cursor n.syncFrontier = cur := by
      rw [Option.mem_def.mp hc]
      rfl
    unfold resumeFromCursor
    rw [hpoint]
    dsimp only
    split
    · exact le_max_right _ _
    · rename_i hpos
      exact (not_lt.mp hpos).trans h.nonneg
  -- past the snapshots, neither the cursor nor the frontier is ahead of the mark
  have hstays : n.phase ≠ .bootstrappingSnapshots → n.syncTask = none →
      n.resumeFromCursor.lastSnapshotTimestamp = n.lastSnapshotTimestamp := by
    intro hphase htask
    have hpoint : resumePoint n.cursor n.syncFrontier ≤ n.lastSnapshotTimestamp := by
      cases hc : n.cursor with
      | none => exact hkeeps hc hphase
      | some cur => exact h.cursor htask (.inl hphase) cur hc
    unfold resumeFromCursor
    dsimp only
    split
    · exact max_eq_left hpoint
    · rfl
  have hordered := h.ordered
  rw [htodo] at hordered
  have hreset : Op.reset ∉ rest → Op.reset ∉ n.todo := fun hm => by
    rw [htodo]
    exact not_mem_of_cons Op.noConfusion hm
  rw [resumeFromCursor_eq]
  exact {
    ordered := hordered.2
    resets := fun hm => h.resets (htodo ▸ List.mem_cons_of_mem _ hm)
    nonneg := h.nonneg.trans hle
    pointerChanges := fun hp hr => by
      have htask : n.syncTask = none := by
        refine Option.eq_none_iff_forall_not_mem.mpr fun s hs => ?_
        rw [(h.stream s hs).1] at hp
        cases hp
      have hp' : n.phase = .bootstrappingPointerChanges := hp
      refine (h.pointerChanges hp (hreset hr)).grow le_rfl subset_rfl ?_
      exact sub_le_sub_right (hstays (by rw [hp']; exact ServerPhase.noConfusion) htask).le _
    synced := fun hp ht hr => by
      have hp' : n.phase = .syncing := hp
      refine (h.synced hp ht (hreset hr)).grow le_rfl subset_rfl ?_
      exact (hstays (by rw [hp']; exact ServerPhase.noConfusion) ht).le
    cursor := fun _ _ => hcur
    stream := h.stream }

theorem Marks.reset (h : n.Marks peer cfg) {rest : List Op} (htodo : n.todo = .reset :: rest) :
    { n.resetPhase with todo := rest }.Marks peer cfg := by
  have hordered := h.ordered
  rw [htodo] at hordered
  have hresume : Op.resume ∉ n.todo := by
    rw [htodo]
    exact not_mem_of_cons Op.noConfusion hordered.1.1
  have hresets : Op.reset ∈ rest → Op.reset ∈ runBootstrap cfg := fun _ =>
    h.resets (htodo ▸ List.mem_cons_self)
  unfold resetPhase
  split
  · rename_i htask
    exact {
      ordered := hordered.2
      resets := hresets
      nonneg := h.nonneg
      pointerChanges := fun hp => ServerPhase.noConfusion hp
      synced := fun hp => ServerPhase.noConfusion hp
      cursor := fun ht _ => h.cursor ht (.inr hresume)
      stream := fun s hs => by
        have hs' : s ∈ n.syncTask := hs
        rw [htask] at hs'
        cases hs' }
  · rename_i htask
    obtain ⟨s, hs⟩ := Option.ne_none_iff_exists'.mp htask
    exact {
      ordered := hordered.2
      resets := hresets
      nonneg := h.nonneg
      pointerChanges := fun hp => by
        have hp' : n.phase = .bootstrappingPointerChanges := hp
        rw [(h.stream s hs).1] at hp'
        cases hp'
      synced := fun _ ht => absurd ht htask
      cursor := fun ht => absurd ht htask
      stream := h.stream }

theorem Marks.start (h : n.Marks peer cfg) {rest : List Op} (htodo : n.todo = .start :: rest) :
    { n.startSteadyStateSync with todo := rest }.Marks peer cfg := by
  have hnext := h.advance htodo Op.noConfusion Op.noConfusion
  have hordered := h.ordered
  rw [htodo] at hordered
  have hreset : Op.reset ∉ n.todo := by
    rw [htodo]
    exact not_mem_of_cons Op.noConfusion hordered.1.2
  unfold startSteadyStateSync
  split
  · rename_i hsync
    exact {
      ordered := hnext.ordered
      resets := hnext.resets
      nonneg := h.nonneg
      pointerChanges := fun hp => by
        have hp' : n.phase = .bootstrappingPointerChanges := hp
        rw [hsync.1] at hp'
        cases hp'
      synced := fun _ ht => (Option.some_ne_none _ ht).elim
      cursor := fun ht => (Option.some_ne_none _ ht).elim
      stream := fun s hs => by
        obtain rfl := Option.some.inj hs
        refine ⟨hsync.1, h.synced hsync.1 hsync.2 hreset, h.cursor hsync.2 (.inl ?_)⟩
        rw [hsync.1]
        exact ServerPhase.noConfusion }
  · exact hnext

/-! ### Snapshot passes -/

section

variable {f : Option (List EntityType)} {mark : Bool} {p : SnapshotPass}

/-- A snapshot that is retired has every wanted entity durable: those of the pass's types, and
the others since they were cleanly deployed before. -/
theorem Books.retired (h : n.Books peer cfg) (hpass : n.HonestPass peer cfg f p)
    (hf : f = cfg.entityTypes ∨ f = some [profileType]) {k : Hash}
    (hk : k ∈ p.judged peer cfg n f mark .retire) {d : SyncDeployment} (hd : d ∈ peer.contents k)
    (hw : cfg.wanted n.now d = true) : d.entityId ∈ n.durable ∪ p.written := by
  obtain ⟨hdep, hverdict⟩ := Finset.mem_filter.mp hk
  obtain ⟨hfailed, -, hcovers | hclean⟩ := snapshotPassVerdict_retire hverdict
  · exact hpass k hdep hfailed d hd (wanted_passes_of_covers hcovers hw) hw
  · by_cases hprofile : d.entityType = profileType
    · refine hpass k hdep hfailed d hd ?_ hw
      rcases hf with rfl | rfl
      · exact wanted_passes hw
      · simp [passes, hprofile]
    · exact Finset.mem_union_left _ (h.clean k (of_decide_eq_true hclean) d hd hw hprofile)

theorem Books.conclude (h : n.Books peer cfg) {rest : List Op}
    (hplaced : (Op.snapshots f mark).Placed cfg rest) (hpass : n.HonestPass peer cfg f p)
    (hskip : n.NothingSkipped peer cfg p) : (n.concludePass peer cfg f mark p).Books peer cfg where
  processed k hk d hd hw := by
    rcases Finset.mem_union.mp hk with hk | hk
    · rcases Finset.mem_union.mp hk with hk | hk
      · exact Finset.mem_union_left _ (h.processed k hk d hd hw)
      · exact hskip k (List.mem_append_left _ (List.mem_toFinset.mp hk)) d hd hw
    · have hretire := (Finset.mem_sdiff.mp hk).1
      cases mark with
      | true => exact h.retired hpass hplaced hretire hd hw
      | false =>
        obtain ⟨hdep, hverdict⟩ := Finset.mem_filter.mp hretire
        rw [SnapshotPass.verdict] at hverdict
        revert hverdict
        cases p.failedOn peer n k <;> simp [snapshotPassVerdict]
  clean k hk d hd hw hne := by
    rcases Finset.mem_union.mp (Finset.mem_sdiff.mp hk).1 with hk | hk
    · exact Finset.mem_union_left _ (h.clean k (Finset.mem_sdiff.mp hk).1 d hd hw hne)
    · obtain ⟨hdep, hverdict⟩ := Finset.mem_filter.mp hk
      obtain ⟨hfailed, rfl⟩ := snapshotPassVerdict_cleanUnmarked hverdict
      obtain ⟨rfl, -⟩ := hplaced
      exact hpass k hdep hfailed d hd (wanted_nonProfile hw hne) hw

/-- The listed snapshots of a server that a marking pass lets go. -/
theorem Books.listed (h : n.Books peer cfg) (hpass : n.HonestPass peer cfg f p)
    (hskip : n.NothingSkipped peer cfg p) (hf : f = cfg.entityTypes ∨ f = some [profileType])
    (hheld : p.held peer cfg n f true = false) {k : Hash} (hk : k ∈ p.ownHashes n)
    {d : SyncDeployment} (hd : d ∈ peer.contents k) (hw : cfg.wanted n.now d = true) :
    d.entityId ∈ n.durable ∪ p.written := by
  by_cases hproc : k ∈ n.processedSnapshots
  · exact Finset.mem_union_left _ (h.processed k hproc d hd hw)
  by_cases hnew : k ∈ p.newlyMarked
  · exact hskip k (List.mem_append_left _ hnew) d hd hw
  by_cases hskipped : k ∈ p.skipped
  · refine hskip k (List.mem_append_right _ (List.mem_filter.mpr ⟨hk, ?_⟩)) d hd hw
    exact decide_eq_true hskipped
  have hdep : k ∈ p.deployable n := by
    refine Finset.mem_filter.mpr ⟨?_, hproc, hnew, hskipped⟩
    exact List.mem_toFinset.mpr (List.mem_append_left _ hk)
  simp only [SnapshotPass.held, Bool.or_eq_false_iff, List.any_eq_false, decide_eq_false_iff_not,
    Bool.or_eq_true, decide_eq_true_eq, not_or] at hheld
  obtain ⟨hfailed, hunproven⟩ := hheld.2 k hk
  have hretire : p.verdict peer cfg n f true k = .retire := by
    cases hv : p.verdict peer cfg n f true k with
    | failed => exact absurd (Finset.mem_filter.mpr ⟨hdep, hv⟩) hfailed
    | unproven => exact absurd (Finset.mem_filter.mpr ⟨hdep, hv⟩) hunproven
    | retire => rfl
    | cleanUnmarked => exact absurd (snapshotPassVerdict_cleanUnmarked hv).2 Bool.noConfusion
  exact h.retired hpass hf (Finset.mem_filter.mpr ⟨hdep, hretire⟩) hd hw

end

/-- A server whose snapshots are done may read the pointer changes from its new mark on. -/
theorem Inv.adopted {f : Option (List EntityType)} {mark : Bool} {p : SnapshotPass} {rest : List Op}
    (h : n.Inv peer cfg) (hplaced : (Op.snapshots f mark).Placed cfg rest)
    (hpass : n.HonestPass peer cfg f p) (hskip : n.NothingSkipped peer cfg p)
    {listing : List (Hash × Timestamp)} (hown : p.own n = some listing)
    (hheld : p.held peer cfg n f mark = false) (hreset : Op.reset ∉ rest)
    (hreach : n.SnapshotsReach peer cfg p) {c : Change} (hc : c ∈ peer.history)
    (hw : cfg.wanted n.now c.delta = true) (hlt : c.localTimestamp <
      max n.lastSnapshotTimestamp (SnapshotPass.lastTs cfg listing) - pointerChangesShiftMs) :
    c.entityId ∈ n.durable ∪ p.written := by
  by_cases hdur : c.entityId ∈ n.durable
  · exact Finset.mem_union_left _ hdur
  obtain ⟨k, hk, d, hd, hid, htype, hts⟩ := hreach listing hown c hc hw hdur hlt
  have hk' : k ∈ p.ownHashes n := by
    rw [SnapshotPass.ownHashes, hown]
    exact hk
  have hw' : cfg.wanted n.now d = true := (wanted_congr htype hts).trans hw
  -- the pass marks: a pass that does not is followed by a reset
  cases mark with
  | false => exact absurd hplaced.2 hreset
  | true => exact hid ▸ h.books.listed hpass hskip hplaced hheld hk' hd hw'

theorem advance_le {cursor : Option Timestamp} {written : Bool} {ts bound : Timestamp}
    (h : ∀ cur ∈ cursor, cur ≤ bound) (hle : ts ≤ bound) :
    ∀ cur ∈ (if written then advanceServerSyncCursor cursor ts else cursor), cur ≤ bound := by
  intro cur hcur
  cases written with
  | false => exact h cur hcur
  | true =>
    cases cursor with
    | none => exact (Option.some.inj hcur).ge.trans hle
    | some c => exact (Option.some.inj hcur).ge.trans (max_le (h c rfl) hle)

theorem Inv.snapshots {f : Option (List EntityType)} {mark : Bool} {p : SnapshotPass}
    {rest : List Op} (h : n.Inv peer cfg) (htodo : n.todo = .snapshots f mark :: rest)
    (hpass : n.HonestPass peer cfg f p) (hskip : n.NothingSkipped peer cfg p)
    (hreach : Op.reset ∉ rest → p.held peer cfg n f mark = false → n.SnapshotsReach peer cfg p) :
    { n.bootstrapFromSnapshots peer cfg f mark p with todo := rest }.Inv peer cfg := by
  have hordered := h.marks.ordered
  rw [htodo] at hordered
  have hbooks := h.books.conclude hordered.1.2 hpass hskip
  have hnext := h.marks.advance htodo Op.noConfusion Op.noConfusion
  have hsame : { n.concludePass peer cfg f mark p with todo := rest }.Inv peer cfg :=
    ⟨hbooks.of_eq rfl rfl rfl subset_rfl, hnext.grow le_rfl Finset.subset_union_left rfl rfl rfl rfl
      hnext.ordered hnext.resets id id⟩
  unfold bootstrapFromSnapshots
  dsimp only
  split
  · exact hsame
  · rename_i listing hown
    split
    · exact hsame
    · rename_i hheld
      have hheld' : p.held peer cfg n f mark = false := Bool.eq_false_iff.mpr hheld
      have hphase : n.phase = .bootstrappingSnapshots := by
        by_contra hne
        rw [SnapshotPass.own, if_neg hne] at hown
        cases hown
      have htask : n.syncTask = none := by
        refine Option.eq_none_iff_forall_not_mem.mpr fun s hs => ?_
        have hsync := (h.marks.stream s hs).1
        rw [hphase] at hsync
        cases hsync
      have hresume : Op.resume ∉ n.todo := by
        rw [htodo]
        exact not_mem_of_cons Op.noConfusion hordered.1.1
      refine ⟨hbooks.of_eq rfl rfl rfl subset_rfl, {
        ordered := hordered.2
        resets := hnext.resets
        nonneg := h.marks.nonneg.trans (le_max_left _ _)
        pointerChanges := fun _ hr c hc hw hlt => ?_
        synced := fun hp => ServerPhase.noConfusion hp
        cursor := fun _ _ => ?_
        stream := fun s hs => ?_ }⟩
      · exact h.adopted hordered.1.2 hpass hskip hown hheld' hr (hreach hr hheld') hc hw hlt
      · refine advance_le (fun cur hcur => ?_) le_rfl
        exact (h.marks.cursor htask (.inr hresume) cur hcur).trans (le_max_left _ _)
      · have hs' : s ∈ n.syncTask := hs
        rw [htask] at hs'
        cases hs'

/-! ### Polls -/

section

variable {f : Option (List EntityType)} {p : Poll} {fromTimestamp bound : Timestamp}

theorem mem_served {peer : Peer} {d : Change} (hd : d ∈ peer.history.filter fun c =>
    decide (fromTimestamp ≤ c.localTimestamp ∧ c.localTimestamp ≤ p.horizon)) :
    d ∈ peer.history ∧ fromTimestamp ≤ d.localTimestamp ∧ d.localTimestamp ≤ p.horizon := by
  obtain ⟨hmem, hrange⟩ := List.mem_filter.mp hd
  exact ⟨hmem, of_decide_eq_true hrange⟩

theorem le_readPoll (peer : Peer) (n : Node) (f : Option (List EntityType))
    (fromTimestamp : Timestamp) (p : Poll) :
    fromTimestamp ≤ (n.readPoll peer f fromTimestamp p).1 :=
  le_readItems_mark _ fun _ hc => (mem_served hc).2.1

theorem readPoll_mark (peer : Peer) (n : Node) (f : Option (List EntityType))
    (fromTimestamp : Timestamp) (p : Poll) :
    (n.readPoll peer f fromTimestamp p).1 = fromTimestamp ∨ ∃ d ∈ peer.history,
      fromTimestamp ≤ d.localTimestamp ∧ d.localTimestamp ≤ p.horizon ∧ d.plausibleTimes n.now = true ∧
        d.localTimestamp = (n.readPoll peer f fromTimestamp p).1 := by
  refine (readItems_mark fromTimestamp fun _ hc => (mem_served hc).2.1).imp id ?_
  rintro ⟨d, hd, htimes, hmark⟩
  obtain ⟨hmem, hfrom, hhorizon⟩ := mem_served hd
  exact ⟨d, hmem, hfrom, hhorizon, htimes, hmark⟩

/-- After a drained poll everything before its mark is durable. -/
theorem accountedBelow_poll (hdrained : p.drained = true)
    (hhonest : n.HonestPoll peer cfg f fromTimestamp p)
    (hover : n.NotOvertaken peer cfg f fromTimestamp bound p) (hle : fromTimestamp ≤ bound)
    (hfrom : ∀ c ∈ peer.history, cfg.wanted n.now c.delta = true → c.entityId ∉ n.durable →
      c.plausibleTimes n.now = true → fromTimestamp ≤ c.localTimestamp)
    {c : Change} (hc : c ∈ peer.history) (hw : cfg.wanted n.now c.delta = true)
    (hlt : c.localTimestamp < max bound (n.readPoll peer f fromTimestamp p).1) :
    c.entityId ∈ n.durable ∪ p.written := by
  by_cases hdur : c.entityId ∈ n.durable
  · exact Finset.mem_union_left _ hdur
  have hovertaken : c.localTimestamp < bound ∨ ∃ d ∈ peer.history,
      fromTimestamp ≤ d.localTimestamp ∧ d.localTimestamp ≤ p.horizon ∧
        d.plausibleTimes n.now = true ∧ c.localTimestamp < d.localTimestamp := by
    rcases lt_max_iff.mp hlt with hlt | hlt
    · exact .inl hlt
    · rcases readPoll_mark peer n f fromTimestamp p with hm | ⟨d, hd, hge, hhorizon, hp, hm⟩
      · exact .inl ((hlt.trans_eq hm).trans_le hle)
      · exact .inr ⟨d, hd, hge, hhorizon, hp, hlt.trans_eq hm.symm⟩
  obtain ⟨hhorizon, htimes, hpasses⟩ := hover hdrained c hc hw hdur hovertaken
  have hge := hfrom c hc hw hdur htimes
  refine hhonest hdrained c.delta (mem_readItems fromTimestamp
    (fun _ hd => (mem_served hd).2.1) ?_ htimes hpasses) hw
  exact List.mem_filter.mpr ⟨hc, decide_eq_true ⟨hge, hhorizon⟩⟩

end

theorem persistBoundary_eq (n : Node) (last confirmed : Timestamp) (w w' : Bool) :
    n.persistBoundary last confirmed w w' =
      { n with
        cursor := (n.persistBoundary last confirmed w w').cursor
        syncFrontier := (n.persistBoundary last confirmed w w').syncFrontier } := by
  unfold persistBoundary
  split
  · rfl
  · rfl

theorem persistBoundary_cursor_le {last confirmed ts : Timestamp} {w w' : Bool}
    (h : ∀ cur ∈ n.cursor, cur ≤ ts) (hle : confirmed ≤ ts) :
    ∀ cur ∈ (n.persistBoundary last confirmed w w').cursor, cur ≤ ts := by
  unfold persistBoundary
  split
  · exact advance_le h hle
  · exact h

theorem Marks.streamFrom_le (h : n.Marks peer cfg) : n.streamFrom ≤ n.lastSnapshotTimestamp :=
  max_le (sub_le_self _ (by decide)) h.nonneg

theorem Inv.pointers {f : Option (List EntityType)} {p : Poll} {rest : List Op}
    (h : n.Inv peer cfg) (htodo : n.todo = .pointers f :: rest)
    (hcare : n.phase = .bootstrappingPointerChanges →
      Op.reset ∉ (if p.idle then rest else n.onError cfg rest) →
      n.HonestPoll peer cfg f n.streamFrom p ∧
        n.NotOvertaken peer cfg f n.streamFrom n.lastSnapshotTimestamp p) :
    { n.bootstrapFromPointerChanges peer f p with
      todo := if p.idle then rest else n.onError cfg rest }.Inv peer cfg := by
  have hnext := h.marks.proceed htodo Op.noConfusion Op.noConfusion p.idle
  have hsub : n.durable ⊆ n.durable ∪ p.written := Finset.subset_union_left
  unfold bootstrapFromPointerChanges
  dsimp only
  split
  · rename_i hphase
    split
    · rename_i hdrained
      rw [persistBoundary_eq]
      refine ⟨h.books.grow le_rfl hsub (fun _ hk hold => absurd hk hold) subset_rfl, {
        ordered := hnext.ordered
        resets := hnext.resets
        nonneg := h.marks.nonneg.trans (le_max_left _ _)
        pointerChanges := fun hp => ServerPhase.noConfusion hp
        synced := fun _ _ hr c hc hw hlt => ?_
        cursor := fun ht _ => ?_
        stream := fun s hs => ?_ }⟩
      · obtain ⟨hhonest, hover⟩ := hcare hphase hr
        refine accountedBelow_poll hdrained hhonest hover h.marks.streamFrom_le ?_ hc hw hlt
        intro c hc hw hdur htimes
        refine max_le (not_lt.mp fun hlt => hdur ?_) ?_
        · exact hnext.pointerChanges hphase hr c hc hw hlt
        · exact (of_decide_eq_true (Bool.and_eq_true_iff.mp htimes).2).1
      · refine persistBoundary_cursor_le (fun cur hcur => ?_) (le_max_right _ _)
        have hne : n.phase ≠ .bootstrappingSnapshots := by
          rw [hphase]
          exact ServerPhase.noConfusion
        exact (h.marks.cursor ht (.inl hne) cur hcur).trans (le_max_left _ _)
      · have hsync := (h.marks.stream s hs).1
        rw [hphase] at hsync
        cases hsync
    · exact ⟨h.books.grow le_rfl hsub (fun _ hk hold => absurd hk hold) subset_rfl,
        hnext.grow le_rfl hsub rfl (max_eq_left h.marks.streamFrom_le) rfl rfl hnext.ordered
          hnext.resets id id⟩
  · exact ⟨h.books.grow le_rfl hsub (fun _ hk hold => absurd hk hold) subset_rfl,
      hnext.grow le_rfl hsub rfl rfl rfl rfl hnext.ordered hnext.resets id id⟩

/-- A change to a server with a stream. -/
theorem Marks.streaming (h : n.Marks peer cfg) {s : SteadyStream} (hs : n'.syncTask = some s)
    (hphase : n'.phase = .syncing) (htodo : n'.todo = n.todo)
    (hlast : n.lastSnapshotTimestamp ≤ n'.lastSnapshotTimestamp)
    (hacc : n'.AccountedBelow peer cfg s.confirmedTimestamp)
    (hcur : ∀ cur ∈ n'.cursor, cur ≤ s.confirmedTimestamp) : n'.Marks peer cfg where
  ordered := htodo ▸ h.ordered
  resets := htodo ▸ h.resets
  nonneg := h.nonneg.trans hlast
  pointerChanges hp := by
    rw [hphase] at hp
    cases hp
  synced _ ht := by
    rw [hs] at ht
    cases ht
  cursor ht := by
    rw [hs] at ht
    cases ht
  stream s' hs' := by
    rw [hs] at hs'
    obtain rfl := Option.some.inj hs'
    exact ⟨hphase, hacc, hcur⟩

theorem Inv.poll {p : Poll} {s : SteadyStream} (h : n.Inv peer cfg) (hs : n.syncTask = some s)
    (hhonest : n.HonestPoll peer cfg cfg.entityTypes s.confirmedTimestamp p)
    (hover : n.NotOvertaken peer cfg cfg.entityTypes s.confirmedTimestamp s.confirmedTimestamp p) :
    (n.pollSteady peer cfg s p).Inv peer cfg := by
  obtain ⟨hphase, hacc, hcur⟩ := h.marks.stream s hs
  have hsub : n.durable ⊆ n.durable ∪ p.written := Finset.subset_union_left
  have hmark := le_readPoll peer n cfg.entityTypes s.confirmedTimestamp p
  unfold pollSteady
  dsimp only
  split
  · rename_i hdrained
    rw [persistBoundary_eq]
    refine ⟨h.books.grow le_rfl hsub (fun _ hk hold => absurd hk hold) subset_rfl,
      h.marks.streaming rfl hphase rfl le_rfl ?_ ?_⟩
    · intro c hc hw hlt
      refine accountedBelow_poll hdrained hhonest hover le_rfl ?_ hc hw (lt_max_of_lt_right hlt)
      intro c hc hw hdur _
      exact not_lt.mp fun hlt => hdur (hacc c hc hw hlt)
    · exact persistBoundary_cursor_le (fun cur hc => (hcur cur hc).trans hmark) le_rfl
  · exact ⟨h.books.grow le_rfl hsub (fun _ hk hold => absurd hk hold) subset_rfl,
      h.marks.streaming hs hphase rfl le_rfl (hacc.grow le_rfl hsub le_rfl) hcur⟩

theorem Inv.reconnect {s : SteadyStream} (h : n.Inv peer cfg) (hs : n.syncTask = some s)
    (w w' : Bool) : (n.reconnect s w w').Inv peer cfg := by
  obtain ⟨hphase, hacc, hcur⟩ := h.marks.stream s hs
  unfold Node.reconnect
  rw [persistBoundary_eq]
  exact ⟨h.books.of_eq rfl rfl rfl subset_rfl, h.marks.streaming rfl hphase rfl (le_max_left _ _)
    (hacc.grow le_rfl subset_rfl le_rfl) (persistBoundary_cursor_le hcur le_rfl)⟩

theorem Inv.elsewhere {e : Elsewhere} (h : n.Inv peer cfg)
    (hmarked : ∀ k ∈ e.newlyMarked, ∀ d ∈ peer.contents k,
      cfg.wanted (n.now + e.elapsed) d = true → d.entityId ∈ n.durable ∪ e.written) :
    (n.elsewhere e).Inv peer cfg := by
  have hnow : n.now ≤ n.now + e.elapsed := le_add_of_nonneg_right (Int.natCast_nonneg _)
  have hsub : n.durable ⊆ n.durable ∪ e.written := Finset.subset_union_left
  refine ⟨h.books.grow hnow hsub (fun k hk hold => ?_) subset_rfl, h.marks.grow hnow hsub rfl rfl rfl
    rfl h.marks.ordered h.marks.resets id id⟩
  have hk := (Finset.mem_union.mp hk).resolve_left hold
  exact hmarked k (List.mem_toFinset.mp hk)

theorem Marks.addServer (peer : Peer) (cfg : SyncOrchestratorConfig) (n : Node) :
    (n.addServer cfg).Marks peer cfg where
  ordered := ordered_runBootstrap cfg
  resets := id
  nonneg := cfg.fromTimestamp_nonneg
  pointerChanges hp := ServerPhase.noConfusion hp
  synced hp := ServerPhase.noConfusion hp
  cursor _ hor := hor.elim (fun hne => absurd rfl hne)
    fun hm => absurd (resume_mem_runBootstrap cfg) hm
  stream _ hs := (Option.some_ne_none _ hs.symm).elim

theorem inv_new (peer : Peer) (cfg : SyncOrchestratorConfig) (now : Timestamp) :
    (new cfg now).Inv peer cfg where
  books := ⟨fun k hk => absurd hk (Finset.notMem_empty k),
    fun k hk => absurd hk (Finset.notMem_empty k)⟩
  marks := Marks.addServer peer cfg (new cfg now)

theorem Inv.resume (h : n.Inv peer cfg) {rest : List Op} (htodo : n.todo = .resume :: rest)
    (hkeeps : n.KeepsMark) : { n.resumeFromCursor with todo := rest }.Inv peer cfg := by
  refine ⟨?_, h.marks.resume htodo hkeeps⟩
  rw [resumeFromCursor_eq]
  exact h.books.of_eq rfl rfl rfl subset_rfl

theorem Inv.reset (h : n.Inv peer cfg) {rest : List Op} (htodo : n.todo = .reset :: rest) :
    { n.resetPhase with todo := rest }.Inv peer cfg := by
  refine ⟨?_, h.marks.reset htodo⟩
  unfold resetPhase
  split
  · exact h.books.of_eq rfl rfl rfl subset_rfl
  · exact h.books.of_eq rfl rfl rfl subset_rfl

theorem Inv.start (h : n.Inv peer cfg) {rest : List Op} (htodo : n.todo = .start :: rest) :
    { n.startSteadyStateSync with todo := rest }.Inv peer cfg := by
  refine ⟨?_, h.marks.start htodo⟩
  unfold startSteadyStateSync
  split
  · exact h.books.of_eq rfl rfl rfl subset_rfl
  · exact h.books.of_eq rfl rfl rfl subset_rfl

theorem Inv.retry (h : n.Inv peer cfg) : { n with todo := runBootstrap cfg }.Inv peer cfg :=
  ⟨h.books.of_eq rfl rfl rfl subset_rfl, h.marks.retry⟩

theorem Inv.fail (h : n.Inv peer cfg) {op : Op} {rest : List Op} (htodo : n.todo = op :: rest)
    (hreset : op ≠ .reset) (hresume : op ≠ .resume) :
    { n with todo := n.onError cfg rest }.Inv peer cfg :=
  ⟨h.books.of_eq rfl rfl rfl subset_rfl, h.marks.fail htodo hreset hresume⟩

theorem Inv.straggle (h : n.Inv peer cfg) (htodo : n.todo = []) :
    { n with todo := stragglerRound cfg, straggling := true }.Inv peer cfg := by
  refine ⟨h.books.of_eq rfl rfl rfl subset_rfl, h.marks.grow le_rfl subset_rfl rfl rfl rfl rfl
    (ordered_stragglerRound cfg) (fun hm => ?_) (fun _ => ?_) (fun _ => ?_)⟩
  · simp [stragglerRound] at hm
  · rw [htodo]
    exact List.not_mem_nil
  · rw [htodo]
    exact List.not_mem_nil

theorem Inv.forget (h : n.Inv peer cfg) : n.clearBookkeeping.Inv peer cfg :=
  ⟨h.books.of_eq rfl rfl rfl (Finset.empty_subset _), h.marks.grow le_rfl subset_rfl rfl rfl rfl rfl
    h.marks.ordered h.marks.resets id id⟩

theorem Inv.rebootstrap (h : n.Inv peer cfg) : (n.rebootstrap cfg).Inv peer cfg := by
  have hretry := h.marks.retry
  exact ⟨h.books.of_eq rfl rfl rfl subset_rfl,
    hretry.grow le_rfl subset_rfl rfl rfl rfl rfl hretry.ordered hretry.resets id id⟩

theorem Inv.addServer (h : n.Inv peer cfg) : (n.addServer cfg).Inv peer cfg :=
  ⟨h.books.of_eq rfl rfl rfl subset_rfl, Marks.addServer peer cfg n⟩

theorem Inv.step (h : n.Inv peer cfg) {a : Action} (hcare : n.Careful peer cfg a)
    (hstep : Node.step peer cfg n a = some n') : n'.Inv peer cfg := by
  cases a with
  | resume =>
    simp only [Node.step] at hstep
    split at hstep
    · rename_i rest htodo
      obtain rfl := Option.some.inj hstep
      exact h.resume htodo hcare
    · cases hstep
  | snapshots p =>
    simp only [Node.step] at hstep
    split at hstep
    · rename_i f mark rest htodo
      obtain rfl := Option.some.inj hstep
      simp only [Careful, htodo, CarefulSnapshots] at hcare
      exact h.snapshots htodo hcare.1 hcare.2.1 hcare.2.2
    · cases hstep
  | pointers p =>
    simp only [Node.step] at hstep
    split at hstep
    · rename_i f rest htodo
      obtain rfl := Option.some.inj hstep
      simp only [Careful, htodo, CarefulPointers] at hcare
      exact h.pointers htodo hcare
    · cases hstep
  | reset =>
    simp only [Node.step] at hstep
    split at hstep
    · rename_i rest htodo
      obtain rfl := Option.some.inj hstep
      exact h.reset htodo
    · cases hstep
  | start =>
    simp only [Node.step] at hstep
    split at hstep
    · rename_i rest htodo
      obtain rfl := Option.some.inj hstep
      exact h.start htodo
    · cases hstep
  | fail =>
    simp only [Node.step] at hstep
    split at hstep
    · obtain rfl := Option.some.inj hstep
      exact h.retry
    · rename_i htodo
      obtain rfl := Option.some.inj hstep
      exact h.fail htodo Op.noConfusion Op.noConfusion
    · rename_i htodo
      obtain rfl := Option.some.inj hstep
      exact h.fail htodo Op.noConfusion Op.noConfusion
    · cases hstep
  | straggle =>
    simp only [Node.step] at hstep
    split at hstep
    · rename_i htodo
      obtain rfl := Option.some.inj hstep
      exact h.straggle htodo
    · cases hstep
  | forget =>
    simp only [Node.step] at hstep
    split at hstep
    · obtain rfl := Option.some.inj hstep
      exact h.forget
    · cases hstep
  | rebootstrap =>
    obtain rfl := Option.some.inj hstep
    exact h.rebootstrap
  | addServer =>
    obtain rfl := Option.some.inj hstep
    exact h.addServer
  | restart =>
    obtain rfl := Option.some.inj hstep
    exact h.addServer.forget
  | poll p =>
    obtain ⟨s, hs, rfl⟩ := Option.map_eq_some_iff.mp hstep
    exact h.poll hs (hcare s hs).1 (hcare s hs).2
  | reconnect w w' =>
    obtain ⟨s, hs, rfl⟩ := Option.map_eq_some_iff.mp hstep
    exact h.reconnect hs w w'
  | elsewhere e =>
    obtain rfl := Option.some.inj hstep
    exact h.elsewhere hcare

/-- The invariant gives more than the property: nothing before the cursor is outstanding. -/
theorem Inv.cursorSafe (h : n.Inv peer cfg) (hfin : n.Finished) : n.CursorSafe peer cfg := by
  intro cur hcur
  have hshift : cur - pointerChangesShiftMs ≤ cur := sub_le_self _ (by decide)
  cases htask : n.syncTask with
  | none =>
    have hreset := hfin.2.resolve_left (not_not.mpr htask)
    have hne : n.phase ≠ .bootstrappingSnapshots := by
      rw [hfin.1]
      exact ServerPhase.noConfusion
    have hle := h.marks.cursor htask (.inl hne) cur hcur
    exact (h.marks.synced hfin.1 htask hreset).grow le_rfl subset_rfl (hshift.trans hle)
  | some s =>
    obtain ⟨-, hacc, hle⟩ := h.marks.stream s htask
    exact hacc.grow le_rfl subset_rfl (hshift.trans (hle cur hcur))

end

end Node

/-- In a run that keeps to the conditions, nothing that a server announced long enough before its
cursor is missing once the server has finished its bootstrap. -/
theorem cursor_behind_outstanding (peer : Peer) (cfg : SyncOrchestratorConfig) (now : Timestamp)
    (actions : List Node.Action) (n : Node)
    (hcare : Machine.Meets (Node.step peer cfg) (fun n a => n.Careful peer cfg a) (Node.new cfg now)
      actions)
    (hrun : Machine.run (Node.step peer cfg) (Node.new cfg now) actions = some n)
    (hfin : n.Finished) : n.CursorSafe peer cfg := by
  have hinv : n.Inv peer cfg := by
    refine Machine.run_invariant_of_meets (Node.step peer cfg) ?_ actions _ n hcare hrun
      (Node.inv_new peer cfg now)
    intro s a t hs hc hst
    exact hs.step hc hst
  exact hinv.cursorSafe hfin

/-! ### Two phased bootstraps -/

namespace Node

section

variable (peer : Peer) (cfg : SyncOrchestratorConfig) (n : Node)

instance (t : Timestamp) : Decidable (n.AccountedBelow peer cfg t) :=
  inferInstanceAs (Decidable (∀ c ∈ peer.history, cfg.wanted n.now c.delta = true →
    c.localTimestamp < t → c.entityId ∈ n.durable))

instance : Decidable n.Finished :=
  inferInstanceAs (Decidable (n.phase = .syncing ∧ (n.syncTask ≠ none ∨ Op.reset ∉ n.todo)))

instance : Decidable (n.CursorSafe peer cfg) :=
  inferInstanceAs (Decidable (∀ cur ∈ n.cursor,
    n.AccountedBelow peer cfg (cur - pointerChangesShiftMs)))

instance (f : Option (List EntityType)) (fromTimestamp : Timestamp) (p : Poll) :
    Decidable (n.HonestPoll peer cfg f fromTimestamp p) :=
  inferInstanceAs (Decidable (p.drained = true → ∀ d ∈ (n.readPoll peer f fromTimestamp p).2,
    cfg.wanted n.now d = true → d.entityId ∈ n.durable ∪ p.written))

instance (f : Option (List EntityType)) (fromTimestamp bound : Timestamp) (p : Poll) :
    Decidable (n.NotOvertaken peer cfg f fromTimestamp bound p) :=
  inferInstanceAs (Decidable (p.drained = true → ∀ c ∈ peer.history,
    cfg.wanted n.now c.delta = true → c.entityId ∉ n.durable →
    (c.localTimestamp < bound ∨ ∃ d ∈ peer.history, fromTimestamp ≤ d.localTimestamp ∧
      d.localTimestamp ≤ p.horizon ∧ d.plausibleTimes n.now = true ∧
        c.localTimestamp < d.localTimestamp) →
    c.localTimestamp ≤ p.horizon ∧ c.plausibleTimes n.now = true ∧ passes f c.entityType = true))

instance (f : Option (List EntityType)) (p : SnapshotPass) :
    Decidable (n.HonestPass peer cfg f p) :=
  inferInstanceAs (Decidable (∀ h ∈ p.deployable n, p.failedOn peer n h = false →
    ∀ d ∈ peer.contents h, passes f d.entityType = true → cfg.wanted n.now d = true →
      d.entityId ∈ n.durable ∪ p.written))

instance (p : SnapshotPass) : Decidable (n.NothingSkipped peer cfg p) :=
  inferInstanceAs (Decidable (∀ h ∈ p.newlyMarked ++ (p.ownHashes n).filter (· ∈ p.skipped),
    ∀ d ∈ peer.contents h, cfg.wanted n.now d = true → d.entityId ∈ n.durable ∪ p.written))

instance (p : SnapshotPass) : Decidable (n.SnapshotsReach peer cfg p) :=
  inferInstanceAs (Decidable (∀ listing ∈ p.own n, ∀ c ∈ peer.history,
    cfg.wanted n.now c.delta = true → c.entityId ∉ n.durable → c.localTimestamp <
      max n.lastSnapshotTimestamp (SnapshotPass.lastTs cfg listing) - pointerChangesShiftMs →
    ∃ h ∈ listing.map Prod.fst, ∃ d ∈ peer.contents h, d.entityId = c.entityId ∧
      d.entityType = c.entityType ∧ d.entityTimestamp = c.entityTimestamp))

instance (p : SnapshotPass) : DecidablePred (n.CarefulSnapshots peer cfg p)
  | .snapshots f mark :: rest => inferInstanceAs (Decidable (n.HonestPass peer cfg f p ∧
      n.NothingSkipped peer cfg p ∧ (Op.reset ∉ rest → p.held peer cfg n f mark = false →
        n.SnapshotsReach peer cfg p)))
  | [] => isTrue trivial
  | .resume :: _ => isTrue trivial
  | .pointers _ :: _ => isTrue trivial
  | .reset :: _ => isTrue trivial
  | .start :: _ => isTrue trivial

instance (p : Poll) : DecidablePred (n.CarefulPointers peer cfg p)
  | .pointers f :: rest => inferInstanceAs (Decidable (n.phase = .bootstrappingPointerChanges →
      Op.reset ∉ (if p.idle then rest else n.onError cfg rest) →
      n.HonestPoll peer cfg f n.streamFrom p ∧
        n.NotOvertaken peer cfg f n.streamFrom n.lastSnapshotTimestamp p))
  | [] => isTrue trivial
  | .resume :: _ => isTrue trivial
  | .snapshots _ _ :: _ => isTrue trivial
  | .reset :: _ => isTrue trivial
  | .start :: _ => isTrue trivial

instance : DecidablePred (n.Careful peer cfg)
  | .resume => inferInstanceAs (Decidable (n.cursor = none →
      n.phase ≠ .bootstrappingSnapshots → n.syncFrontier ≤ n.lastSnapshotTimestamp))
  | .snapshots p => inferInstanceAs (Decidable (n.CarefulSnapshots peer cfg p n.todo))
  | .pointers p => inferInstanceAs (Decidable (n.CarefulPointers peer cfg p n.todo))
  | .poll p => inferInstanceAs (Decidable (∀ s ∈ n.syncTask,
      n.HonestPoll peer cfg cfg.entityTypes s.confirmedTimestamp p ∧
        n.NotOvertaken peer cfg cfg.entityTypes s.confirmedTimestamp s.confirmedTimestamp p))
  | .elsewhere e => inferInstanceAs (Decidable (∀ h ∈ e.newlyMarked, ∀ d ∈ peer.contents h,
      cfg.wanted (n.now + e.elapsed) d = true → d.entityId ∈ n.durable ∪ e.written))
  | .reset => isTrue trivial
  | .start => isTrue trivial
  | .fail => isTrue trivial
  | .straggle => isTrue trivial
  | .forget => isTrue trivial
  | .rebootstrap => isTrue trivial
  | .addServer => isTrue trivial
  | .restart => isTrue trivial
  | .reconnect _ _ => isTrue trivial

end

/-- A pass over what the server lists, without a failure. -/
def cleanPass (listing : List (Hash × Timestamp)) (written : Finset EntityId) : SnapshotPass where
  listing := some listing
  discarded := 0
  others := []
  newlyMarked := []
  skipped := []
  failed := []
  written := written
  unmarked := []
  cursorWritten := true

def cleanPoll (horizon : Timestamp) (written : Finset EntityId) : Poll where
  horizon := horizon
  written := written
  drained := true
  cursorWritten := true
  frontierWritten := true
  idle := true

/-- A phased bootstrap in which nothing fails, up to the stream of the server. -/
def phasedRun (listing : List (Hash × Timestamp)) (horizon : Timestamp)
    (w₁ w₂ w₄ w₅ : Finset EntityId) : List Action :=
  [.resume, .snapshots (cleanPass listing w₁), .pointers (cleanPoll horizon w₂), .reset,
    .snapshots (cleanPass listing w₄), .pointers (cleanPoll horizon w₅), .start]

def scene (id : Char) (ts : Timestamp) : Change := ⟨[id], ['s', 'c', 'e', 'n', 'e'], ts, ts⟩

def profile (id : Char) (ts : Timestamp) : Change := ⟨[id], profileType, ts, ts⟩

end Node

open Node in
/-- The snapshot holds a scene and a profile; a profile and a scene come within twenty minutes
of each other, and another scene once the server has its stream. -/
def steadyPeer : Peer where
  history := [scene 'a' 1000, profile 'b' 2000, profile 'c' 2900000, scene 'd' 3000000,
    scene 'e' 3500000]
  contents _ := [(scene 'a' 1000).delta, (profile 'b' 2000).delta]

open Node in
def steadyRun : List Action :=
  phasedRun [(['h'], 2000)] 3000000 {['a']} {['d']} {['b']} {['c']} ++
    [.poll (cleanPoll 4000000 {['e']})]

open Node in
theorem cursor_behind_outstanding_steady : ∃ n,
    Machine.run (step steadyPeer defaultConfig) (new defaultConfig 5000000) steadyRun = some n ∧
      n.cursor = some 3500000 ∧ n.CursorSafe steadyPeer defaultConfig := by
  have hfacts : (Machine.run (step steadyPeer defaultConfig) (new defaultConfig 5000000)
      steadyRun).map (fun n => (decide n.Finished, n.cursor)) = some (true, some 3500000) := by
    decide
  obtain ⟨n, hrun, hn⟩ := Option.map_eq_some_iff.mp hfacts
  obtain ⟨hfin, hcursor⟩ := Prod.mk.inj hn
  exact ⟨n, hrun, hcursor, cursor_behind_outstanding steadyPeer defaultConfig 5000000 steadyRun n
    (by decide) hrun (of_decide_eq_true hfin)⟩

open Node in
/-- No snapshots; a profile, and a scene more than twenty minutes later. -/
def quietPeer : Peer where
  history := [profile 'p' 1000000, scene 's' 5000000]
  contents _ := []

open Node in
/-- The stream of the non-profile types moves the mark to the scene, and that of the profiles
starts twenty minutes before it: the profile is never read. -/
theorem cursor_passes_profile : ∃ n,
    Machine.run (step quietPeer defaultConfig) (new defaultConfig 6000000)
        (phasedRun [] 5000000 ∅ {['s']} ∅ ∅) = some n ∧
      n.Finished ∧ ¬ n.CursorSafe quietPeer defaultConfig := by
  have hfacts : (Machine.run (step quietPeer defaultConfig) (new defaultConfig 6000000)
      (phasedRun [] 5000000 ∅ {['s']} ∅ ∅)).map (fun n =>
        (decide n.Finished, decide (n.CursorSafe quietPeer defaultConfig))) = some (true, false) := by
    decide
  obtain ⟨n, hrun, hn⟩ := Option.map_eq_some_iff.mp hfacts
  obtain ⟨hfin, hsafe⟩ := Prod.mk.inj hn
  exact ⟨n, hrun, of_decide_eq_true hfin, of_decide_eq_false hsafe⟩

end Catalyrst.Sync
