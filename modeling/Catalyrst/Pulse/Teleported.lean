import Catalyrst.Pulse.Audience

/-!
# Teleports that an observer is told of

Once the subject has teleported past the snapshot last sent, the next report has a
teleport in it, found in the ring or read off the latest snapshot. It is told of once,
unless an emote is stopped by a copy of a teleport that was told of already.
-/

namespace Catalyrst.Pulse
open Catalyrst.Lib

namespace Audience

/-- Between any two teleports that it was told of, the subject teleported. -/
def ToldOnce (a : Audience) : Prop := a.heard.Pairwise fun m m' =>
  ∃ T ∈ a.teleports, m.sequence < T.1 ∧ T.1 ≤ m'.sequence

instance (a : Audience) : Decidable a.ToldOnce := inferInstanceAs (Decidable (List.Pairwise _ _))

/-- An emote is not stopped right on a teleport that was told of. -/
def steady (x : U32) (a : Audience) (e : WatchEvent) : Prop :=
  a.room x e ∧ match e with
    | .emoteStop _ => ∀ latest ∈ a.board.last x, latest.isEmoting = true →
        latest.isTeleport = true → ∀ m ∈ a.heard, m.sequence ≠ latest.seq
    | _ => True

instance (x : U32) (a : Audience) (e : WatchEvent) : Decidable (a.steady x e) :=
  match e with
  | .emoteStop now =>
    have : Decidable (∀ latest ∈ a.board.last x, latest.isEmoting = true →
        latest.isTeleport = true → ∀ m ∈ a.heard, m.sequence ≠ latest.seq) :=
      Option.decidableForallMem _
    inferInstanceAs (Decidable (a.room x (.emoteStop now) ∧ _))
  | .input now state emote => decidable_of_iff (a.room x (.input now state emote)) (by simp [steady])
  | .teleport now request => decidable_of_iff (a.room x (.teleport now request)) (by simp [steady])
  | .tick t => decidable_of_iff (a.room x (.tick t)) (by simp [steady])

variable {base : ObserverCtx} {mode : SeqEncoding} {x : U32} {a : Audience} {t : WatchTick}

/-- What was told of teleports is over for the view, and no stop copies it. -/
structure Told (x : U32) (a : Audience) (story : Story) : Prop where
  once : a.ToldOnce
  past : ∀ m ∈ a.heard, a.board.lastSeq x ≠ NO_SEQ ∧ m.sequence ≤ a.board.lastSeq x
  seen : ∀ v, a.views[x]? = some v → ∀ m ∈ a.heard, m.sequence ≤ v.lastSentSnapshot.seq
  copied : a.board.lastSeq x ≠ NO_SEQ → ∀ n ≤ (a.board.lastSeq x).val,
    (story n).1.isTeleport = true → (story n).2 = none → ∀ m ∈ a.heard, m.sequence.val + 1 ≠ n

theorem told_new (ringCapacity : ℕ) (x : U32) (story : Story) :
    (Audience.new ringCapacity x).Told x story := by
  refine ⟨List.Pairwise.nil, fun m hm => ?_, fun v hv m hm => ?_, fun _ n _ _ _ m hm => ?_⟩
  · cases hm
  · cases hm
  · cases hm

/-- Publishing leaves everything told behind. -/
theorem Told.entry {story : Story} (hinv : a.Inv x story) (h : a.Told x story)
    {snapshot : PeerSnapshot} {realm : Option Text} (hroom : a.board.lastSeq x ≠ NO_SEQ - 1)
    (hseq : snapshot.seq = a.board.lastSeq x + 1)
    (hentry : Entry (a.board.last x) (a.board.inherited x snapshot) realm)
    (hfree : snapshot.isTeleport = true → realm = none → ∀ latest ∈ a.board.last x,
      latest.isEmoting = true → latest.isTeleport = true → ∀ m ∈ a.heard, m.sequence ≠ latest.seq) :
    Told x { a with
        board := a.board.publish x snapshot
        teleports := a.teleports ++ (realm.map fun r => (snapshot.seq, r)).toList }
      (Function.update story snapshot.seq.val (a.board.inherited x snapshot, realm)) := by
  obtain ⟨hlast, hne, hval⟩ := Session.publish_next hroom hseq
  refine ⟨?_, fun m hm => ?_, h.seen, fun _ n hn hflag hnone m hm => ?_⟩
  · refine List.Pairwise.imp (fun ⟨T, hT, hbetween⟩ => ?_) h.once
    exact ⟨T, List.mem_append_left _ hT, hbetween⟩
  · obtain ⟨hold, hle⟩ := h.past m hm
    rw [if_neg hold] at hval
    dsimp only
    rw [hlast]
    exact ⟨hne, hle.trans (Fin.le_def.mpr (by omega))⟩
  · obtain ⟨hold, hle⟩ := h.past m hm
    have hle' := Fin.le_def.mp hle
    rw [if_neg hold] at hval
    dsimp only at hn
    rw [hlast] at hn
    by_cases hnew : n = snapshot.seq.val
    · -- a stop takes the flag over from the latest snapshot
      rw [hnew, Function.update_self] at hflag hnone
      dsimp only at hflag hnone
      rw [hnone] at hentry
      cases hentry with
      | moved _ flag => exact absurd (hflag.symm.trans flag) (by decide)
      | started _ _ _ _ flag => exact absurd (hflag.symm.trans flag) (by decide)
      | stopped p _ running emoting _ _ _ flag =>
        have hp := hinv.session.last_eq hold
        rw [running] at hp
        have hseqp : p.seq = a.board.lastSeq x := by
          rw [Option.some.inj hp]
          exact hinv.session.seq_latest hold
        have hfresh := hfree hflag hnone p running emoting (flag.symm.trans hflag) m hm
        rw [hseqp] at hfresh
        intro heq
        exact hfresh (Fin.ext (by omega))
    · rw [Function.update_of_ne hnew] at hflag hnone
      exact h.copied hold n (by omega) hflag hnone m hm

/-- The teleport that a report tells of is one since everything that was told. -/
theorem Told.teleport_between {story : Story} (hinv : a.Inv x story) (h : a.Told x story)
    {view : PeerToPeerView} (hview : a.views[x]? = some view) {tp : PeerSnapshot} {n : ℕ}
    (hn : Session.LastTeleport a.board x view.lastSentSnapshot.seq story tp n)
    {m : TeleportPerformed} (hm : m ∈ a.heard) :
    ∃ T ∈ a.teleports, m.sequence < T.1 ∧ T.1 ≤ tp.seq := by
  obtain ⟨hlast, hle, -⟩ := hinv.views view hview
  have hseen := Fin.le_def.mp (h.seen view hview m hm)
  obtain ⟨hafter, hbefore, hflag⟩ := hn.flag
  have hupTo := hn.readable.2.1
  have htp : tp.seq.val = n := by
    rw [hn.entry]
    exact hinv.session.seq_story hlast hupTo
  have hlt := (a.board.lastSeq x).isLt
  -- any teleport of the subject between will do
  have hfound : ∀ k : ℕ, (story k).2.isSome = true → m.sequence.val < k → k ≤ n →
      ∃ T ∈ a.teleports, m.sequence < T.1 ∧ T.1 ≤ tp.seq := by
    intro k hsome hlow hhigh
    obtain ⟨realm, hrealm⟩ := Option.isSome_iff_exists.mp hsome
    have hval : (Fin.ofNat 4294967296 k).val = k := Nat.mod_eq_of_lt (by omega)
    refine ⟨(Fin.ofNat 4294967296 k, realm), (hinv.teleports _ _).mpr ⟨hlast, ?_, ?_⟩, ?_, ?_⟩
    · rw [Fin.le_def, hval]
      omega
    · rw [hval]
      exact hrealm
    · rw [Fin.lt_def, hval]
      exact hlow
    · rw [Fin.le_def, hval, htp]
      exact hhigh
  by_cases hown : (story tp.lastTeleportSeq.val).2.isSome = true
  · exact hfound _ hown (hseen.trans_lt hafter) hbefore
  · rcases hinv.session.flag_origin hlast (hbefore.trans hupTo) hflag with hsome |
      ⟨k, hk, hsome, -, -⟩
    · exact absurd hsome hown
    · have hnone : (story tp.lastTeleportSeq.val).2 = none := Option.not_isSome_iff_eq_none.mp hown
      have hcopied := h.copied hlast _ (hbefore.trans hupTo) hflag hnone m hm
      exact hfound k hsome (by omega) (by omega)

theorem Told.tick {story : Story} (hinv : a.Inv x story) (h : a.Told x story) (t : WatchTick) :
    (a.next base mode x (.tick t)).Told x story := by
  have hstart : (a.start x t).teleportsSent = [] := rfl
  have hquiet : (a.serve base mode x t).teleportsSent = [] →
      (a.next base mode x (.tick t)).heard = a.heard := by
    intro hsent
    show a.heard ++ (a.serve base mode x t).teleportsSent = a.heard
    rw [hsent, List.append_nil]
  rcases serve_cases base mode x a t with hkept |
    ⟨latest, hread, hjoined⟩ | ⟨view, latest, hproc⟩
  · have hheard := hquiet (hkept.teleports.trans hstart)
    refine ⟨?_, hheard ▸ h.past, fun v hv m hm => ?_, hheard ▸ h.copied⟩
    · rw [ToldOnce, hheard]
      exact h.once
    · obtain ⟨v0, hv0, hsnapshot, -⟩ := hkept.views v hv
      rw [hsnapshot]
      exact h.seen v0 hv0 m (hheard ▸ hm)
  · have hheard := hquiet (hjoined.teleports.trans hstart)
    refine ⟨?_, hheard ▸ h.past, fun v hv m hm => ?_, hheard ▸ h.copied⟩
    · rw [ToldOnce, hheard]
      exact h.once
    · have hlast := Session.lastSeq_of_tryRead hread
      have hlatest : latest.seq = a.board.lastSeq x := by
        rw [← Option.some.inj ((hinv.session.tryRead_eq hlast).symm.trans hread)]
        exact hinv.session.seq_latest hlast
      rw [(hjoined.views v hv).1, hlatest]
      exact (h.past m (hheard ▸ hm)).2
  · obtain ⟨view', hr⟩ := hinv.reports mode hproc
    have hafter : ∀ v, (a.next base mode x (.tick t)).views[x]? = some v → v = view' :=
      fun v hv => Option.some.inj (hv.symm.trans hr.after)
    rcases hr.reported.teleport with ⟨-, hsent, -⟩ | ⟨tp, hfound, -, hsent, -, hbehind⟩
    · have hheard := hquiet (hsent.trans hstart)
      refine ⟨?_, hheard ▸ h.past, fun v hv m hm => ?_, hheard ▸ h.copied⟩
      · rw [ToldOnce, hheard]
        exact h.once
      · rw [hafter v hv]
        exact (h.seen view hr.known m (hheard ▸ hm)).trans hr.reported.since
    · obtain ⟨-, hle, -⟩ := hinv.views view hr.known
      rw [hr.read] at hfound
      obtain ⟨n, hn⟩ := (hinv.session.scan_lastTeleport hr.last hle).1 tp hfound
      have htp : tp.seq.val = n := by
        rw [hn.entry]
        exact hinv.session.seq_story hr.last hn.readable.2.1
      have hheard : (a.next base mode x (.tick t)).heard =
          a.heard ++ [ObserverCtx.teleportMessage x tp] := by
        show a.heard ++ (a.serve base mode x t).teleportsSent = _
        rw [hsent, hstart, List.nil_append]
      have hin : ∀ m ∈ (a.next base mode x (.tick t)).heard,
          m ∈ a.heard ∨ m = ObserverCtx.teleportMessage x tp := by
        intro m hm
        rw [hheard] at hm
        exact (List.mem_append.mp hm).imp_right List.mem_singleton.mp
      refine ⟨?_, fun m hm => ?_, fun v hv m hm => ?_, fun hlast k hk hflag hnone m hm => ?_⟩
      · rw [ToldOnce, hheard, List.pairwise_append]
        refine ⟨h.once, List.pairwise_singleton _ _, fun m hm m' hm' => ?_⟩
        rw [List.mem_singleton.mp hm']
        exact h.teleport_between hinv hr.known hn hm
      · rcases hin m hm with hold | rfl
        · exact h.past m hold
        · exact ⟨hr.last, Fin.le_def.mpr (htp.trans_le hn.readable.2.1)⟩
      · rw [hafter v hv]
        rcases hin m hm with hold | rfl
        · exact (h.seen view hr.known m hold).trans hr.reported.since
        · exact hbehind
      · rcases hin m hm with hold | rfl
        · exact h.copied hlast k hk hflag hnone m hold
        · have hkn := hn.last k hk hflag
          have hseq : (ObserverCtx.teleportMessage x tp).sequence.val = n := htp
          omega

theorem next_told {e : WatchEvent} (h : ∃ story, a.Inv x story ∧ a.Told x story)
    (hsteady : a.steady x e) :
    ∃ story, (a.next base mode x e).Inv x story ∧ (a.next base mode x e).Told x story := by
  obtain ⟨story, hinv, h⟩ := h
  by_cases htick : ∃ t, e = .tick t
  · obtain ⟨t, rfl⟩ := htick
    exact ⟨story, hinv.tick t, h.tick hinv t⟩
  · have hmoves : ∀ t, e ≠ .tick t := fun t ht => htick ⟨t, ht⟩
    have hroom := Observed.room_of_published hmoves hsteady.1
    have hmoved := moved base mode x a hmoves
    generalize a.next base mode x e = a' at hmoved ⊢
    cases hmoved with
    | same => exact ⟨story, hinv, h⟩
    | entry snapshot realm hseq hentry hcopied =>
      refine ⟨_, hinv.entry hroom hseq hentry, h.entry hinv hroom hseq hentry fun hflag hnone => ?_⟩
      obtain ⟨now, rfl⟩ := hcopied hflag hnone
      exact hsteady.2

/-- A report tells of the latest teleport, when that is later than the snapshot last sent. -/
theorem Inv.told_latest {story : Story} (h : a.Inv x story) {view : PeerToPeerView}
    {latest : PeerSnapshot} (hproc : a.Processes base x t view latest) {T : U32} {realm : Text}
    (hT : (T, realm) ∈ a.teleports) (hlatest : ∀ T' ∈ a.teleports, T'.1 ≤ T)
    (hafter : view.lastSentSnapshot.seq < T) :
    ∃ m ∈ (a.serve base mode x t).teleportsSent, T ≤ m.sequence ∧ m.realm = realm ∧
      ∃ s, a.board.tryReadSeq x m.sequence = some s ∧ m = ObserverCtx.teleportMessage x s := by
  obtain ⟨view', hr⟩ := h.reports mode hproc
  obtain ⟨hlast, hle, hbehind, -⟩ := h.views view hr.known
  obtain ⟨-, hTle, hrealm⟩ := (h.teleports T realm).mp hT
  obtain ⟨hone, hnone⟩ := h.session.scan_lastTeleport hlast hle
  have hflag : (story T.val).1.isTeleport = true := by
    have hentry := h.session.entries hlast T.val hTle
    rw [hrealm] at hentry
    cases hentry with
    | teleported _ _ flag => exact flag
  have htold := hr.reported.teleport
  rw [hr.read] at htold
  rcases htold with ⟨hold, -⟩ | ⟨tp, hfound, -, hsent, -⟩
  · -- the scan has found one, and it is later than what the view remembers
    cases hscan : (scanIntermediateEvents a.board x view.lastSentSnapshot.seq
        (story (a.board.lastSeq x).val).1).lastTeleport with
    | none => exact absurd (hnone hscan T.val hTle hflag) (not_le.mpr hafter)
    | some tp =>
      obtain ⟨n, hn⟩ := hone tp hscan
      exact absurd (hold tp hscan) (not_le.mpr (hbehind.trans_lt (Fin.lt_def.mpr hn.flag.1)))
  · obtain ⟨n, hn⟩ := hone tp hfound
    obtain ⟨-, hupTo, hkept⟩ := hn.readable
    have htp : tp.seq.val = n := by
      rw [hn.entry]
      exact h.session.seq_story hlast hupTo
    have hTn : T.val ≤ n := hn.last T.val hTle hflag
    have hsince : ∀ k, T.val < k → k ≤ n → (story k).2 = none := by
      intro k hk hkn
      cases hother : (story k).2 with
      | none => rfl
      | some realm' =>
        have hlt := (a.board.lastSeq x).isLt
        have hval : (Fin.ofNat 4294967296 k).val = k := Nat.mod_eq_of_lt (by omega)
        have hmem := (h.teleports (Fin.ofNat 4294967296 k) realm').mpr
          ⟨hlast, by rw [Fin.le_def, hval]; omega, by rw [hval]; exact hother⟩
        have hle' := Fin.le_def.mp (hlatest _ hmem)
        rw [hval] at hle'
        omega
    refine ⟨ObserverCtx.teleportMessage x tp, ?_, ?_, ?_, tp, ?_, rfl⟩
    · rw [hsent]
      exact List.mem_append_right _ (List.mem_singleton_self _)
    · exact Fin.le_def.mpr (htp ▸ hTn)
    · have hkeeps := h.session.realm_since hlast hrealm hTn hupTo hsince
      show tp.realm.getD [] = realm
      rw [hn.entry, hkeeps]
      rfl
    · show a.board.tryReadSeq x tp.seq = some tp
      rw [h.session.tryReadSeq_eq hlast (htp ▸ hupTo), htp, if_pos hkept, hn.entry]

theorem run_told {ringCapacity : ℕ} (hpos : 0 < ringCapacity) {events : List WatchEvent}
    (hmeets : Machine.Meets (step base mode x) (steady x) (Audience.new ringCapacity x) events)
    (hrun : Machine.run (step base mode x) (Audience.new ringCapacity x) events = some a) :
    ∃ story, a.Inv x story ∧ a.Told x story :=
  Machine.run_invariant_of_meets (step base mode x)
    (P := fun a => ∃ story, a.Inv x story ∧ a.Told x story)
    (fun _ _ _ h hok hstep => Option.some.inj hstep ▸ next_told h hok) events _ a hmeets hrun
    ⟨fun _ => (PeerSnapshot.default, none), inv_new hpos x _, told_new ringCapacity x _⟩

end Audience

/-- In every run that leaves room for each entry, and in which no emote is stopped right on a
teleport that was told of, no teleport is told of twice, and a tick that processes the subject
tells of its latest teleport when that is later than the snapshot last sent. -/
theorem teleports_told (base : ObserverCtx) (mode : SeqEncoding) (x : U32) (ringCapacity : ℕ)
    (hpos : 0 < ringCapacity) (events : List WatchEvent) (a : Audience)
    (hmeets : Machine.Meets (Audience.step base mode x) (Audience.steady x)
      (Audience.new ringCapacity x) events)
    (hrun : Machine.run (Audience.step base mode x) (Audience.new ringCapacity x) events = some a) :
    a.ToldOnce ∧
    ∀ (t : WatchTick) (view : PeerToPeerView) (latest : PeerSnapshot) (T : U32) (realm : Text),
      a.Processes base x t view latest → (T, realm) ∈ a.teleports →
      (∀ T' ∈ a.teleports, T'.1 ≤ T) → view.lastSentSnapshot.seq < T →
      ∃ m ∈ (a.serve base mode x t).teleportsSent, T ≤ m.sequence ∧ m.realm = realm ∧
        ∃ s, a.board.tryReadSeq x m.sequence = some s ∧ m = ObserverCtx.teleportMessage x s := by
  obtain ⟨story, hinv, htold⟩ := Audience.run_told hpos hmeets hrun
  exact ⟨htold.once, fun t view latest T realm hproc hT hlatest hafter =>
    hinv.told_latest hproc hT hlatest hafter⟩

/-! An emote goes on through a teleport and is stopped after `moves` more moves. -/

def waving : TeleportRequest := ⟨0, 0, 0, 0, ['r']⟩

def jumps (moves : ℕ) : List WatchEvent :=
  [.input 1 stillState (some ⟨['w'], none, none⟩), .tick (served 1), .teleport 2 waving,
    .tick (served 2)] ++ List.replicate moves (.input 3 stillState none) ++
    [.emoteStop 4, .tick (served 3)]

theorem teleports_told_jumps :
    ∃ a, Machine.run (Audience.step plainCtx .absolute 1) (Audience.new 10 1) (jumps 1) = some a ∧
      a.heard.length = 1 ∧ a.ToldOnce := by
  have hmeets : Machine.Meets (Audience.step plainCtx .absolute 1) (Audience.steady 1)
      (Audience.new 10 1) (jumps 1) := by decide
  have hrun : ((Machine.run (Audience.step plainCtx .absolute 1) (Audience.new 10 1) (jumps 1)).map
      fun a => a.heard.length) = some 1 := by decide
  obtain ⟨a, ha, hlength⟩ := Option.map_eq_some_iff.mp hrun
  exact ⟨a, ha, hlength,
    (teleports_told plainCtx .absolute 1 10 (by decide) (jumps 1) a hmeets ha).1⟩

/-- Right on the teleport, the stop is a teleport again. -/
theorem teleport_told_twice :
    ¬ ∀ (base : ObserverCtx) (mode : SeqEncoding) (x : U32) (ringCapacity : ℕ)
      (events : List WatchEvent) (a : Audience), 0 < ringCapacity →
      Machine.run (Audience.step base mode x) (Audience.new ringCapacity x) events = some a →
      a.ToldOnce := by
  have hrun : ((Machine.run (Audience.step plainCtx .absolute 1) (Audience.new 10 1) (jumps 0)).map
      fun a => decide a.ToldOnce) = some false := by decide
  obtain ⟨a, ha, htwice⟩ := Option.map_eq_some_iff.mp hrun
  intro h
  exact of_decide_eq_false htwice (h plainCtx .absolute 1 10 (jumps 0) a (by decide) ha)

end Catalyrst.Pulse
