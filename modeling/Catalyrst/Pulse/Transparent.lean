import Catalyrst.Pulse.Sequences

/-!
# The caches over whole runs

A tick's caches do not show as long as every view that an observer goes by is of the
history of its subject's slot. Clean-ups leave views behind, so that this depends on who
is admitted on a slot afterwards. The sequence before `NO_SEQ` must not be passed either:
the slot would count as one that has published nothing.
-/

namespace Catalyrst.Pulse
open Catalyrst.Lib

/-- The rings are recorded in some history, and so are the views that are not outdated. -/
def Tracked (server : PulseServer) : Prop :=
  ∃ history, server.board.Recorded history ∧
    Current server (server.board.Known history) server.observerViews

namespace Tracked

variable {env : Env} {server server' : PulseServer} {p : U32}

theorem keeps (h : Tracked server) (hk : PulseServer.Keeps server server')
    (hgrows : SnapshotBoard.Grows server.board server'.board) : Tracked server' := by
  obtain ⟨history, hrec, hviews⟩ := h
  obtain ⟨history', hrec', hknown⟩ := hgrows history hrec
  refine ⟨history', hrec', fun o views x v ho hx => ?_⟩
  rw [hk.observerViews] at ho
  rcases hviews o views x v ho hx with hold | hs
  · left
    simpa only [Outdated, walletSeen, hk.active, hk.identity] using hold
  · exact Or.inr (hknown x _ hs)

theorem releasePreAuth (h : Tracked server) (p : U32) : Tracked (server.releasePreAuth p) := by
  refine h.keeps (PulseServer.Keeps.releasePreAuth server p) ?_
  rw [(PulseServer.releasePreAuth_fields server p).2.2.2]
  exact SnapshotBoard.Grows.refl _

/-- Views of a cleared slot are outdated. -/
theorem cleanup (h : Tracked server) (env : Env) (p : U32) :
    Tracked (PulseServer.cleanupPeer env server p).2 := by
  obtain ⟨history, hrec, hviews⟩ := h
  rw [PulseServer.cleanupPeer_server]
  refine ⟨history, hrec.clear p, fun o views x v ho hx => ?_⟩
  simp only [OrdMap.find_erase] at ho
  split at ho
  · cases ho
  · by_cases hxp : p = x
    · left
      left
      simp [hxp]
    · rcases hviews o views x v ho hx with hold | hs
      · left
        simpa [Outdated, walletSeen, hxp] using hold
      · exact Or.inr (SnapshotBoard.known_clear hxp hs)

theorem evict (h : Tracked server) (env : Env) (duplicateOf : Option U32) :
    Tracked (PulseServer.evictDuplicate env server duplicateOf).2 := by
  cases duplicateOf with
  | none => exact h
  | some dup => exact (h.releasePreAuth dup).cleanup env dup

theorem admission (h : Tracked server) {w : Text} {f : PeerState → PeerState} {activates : Bool}
    (hadmits : PulseServer.Admits env server server' p w f activates)
    (hgrows : SnapshotBoard.Grows server.board server'.board)
    (hself : server.observerViews[p]? = none)
    (hfresh : activates = false ∧ (server.board.ring p).active = false ∨
      ∀ (o : U32) (views : OrdMap U32 PeerToPeerView) (v : PeerToPeerView),
        server.observerViews[o]? = some views → views[p]? = some v →
        ObserverCtx.sameWallet v.lastSentWalletId (some w) = false) : Tracked server' := by
  obtain ⟨history, hrec, hviews⟩ := h
  obtain ⟨history', hrec', hknown⟩ := hgrows history hrec
  refine ⟨history', hrec', fun o views x v ho hx => ?_⟩
  rw [hadmits.observerViews] at ho
  by_cases hxp : p = x
  · subst hxp
    exact Or.inl (hadmits.outdated hself hfresh ho hx)
  · rcases hviews o views x v ho hx with hold | hs
    · left
      simpa [Outdated, walletSeen, hadmits.active, hadmits.identity, hxp] using hold
    · exact Or.inr (hknown x _ hs)

theorem admitPlayer_grows (env : Env) (server : PulseServer) {p : U32} (wallet : Text)
    (initialState : Option PlayerInitialState) (features now : U32)
    (hroom : server.board.lastSeq p ≠ NO_SEQ - 1) :
    SnapshotBoard.Grows server.board
      (server.admitPlayer env p wallet initialState features now).board := by
  have hboard := (PulseServer.releasePreAuth_fields (server.modifyPeer p fun s =>
    { s with
      walletId := some wallet
      connectionState := .authenticated
      features := features }) p).2.2.2
  have hactive := SnapshotBoard.grows_setActive server.board p
  unfold PulseServer.admitPlayer
  dsimp only
  generalize (server.modifyPeer p fun s => { s with
    walletId := some wallet
    connectionState := .authenticated
    features := features }).releasePreAuth p = server1 at hboard ⊢
  have hboard' : server1.board = server.board := hboard
  rw [hboard']
  cases initialState with
  | none => exact hactive
  | some init =>
    dsimp only
    unfold PulseServer.seedInitialState
    split
    · exact hactive
    · refine hactive.trans (SnapshotBoard.grows_publish rfl ?_)
      rw [SnapshotBoard.lastSeq, SnapshotBoard.ring_setActive, if_pos rfl]
      exact hroom

theorem room_evict {server : PulseServer} {p : U32} (h : server.board.lastSeq p ≠ NO_SEQ - 1)
    (env : Env) (duplicateOf : Option U32) :
    (PulseServer.evictDuplicate env server duplicateOf).2.board.lastSeq p ≠ NO_SEQ - 1 := by
  cases duplicateOf with
  | none => exact h
  | some dup =>
    simp only [PulseServer.evictDuplicate]
    rw [PulseServer.cleanupPeer_server]
    dsimp only
    rw [(PulseServer.releasePreAuth_fields server dup).2.2.2, SnapshotBoard.lastSeq_clearActive]
    split
    · decide
    · exact h

theorem apply (h : Tracked server) (hs : server.Sound env) {r : Action × PulseServer}
    (hd : PulseServer.Dispatched env server p r) (hpub : Published server.board r.2.board p)
    (hquiet : r.2.board = server.board ∨ PulseServer.admits r.1 = none)
    (hroom : server.board.lastSeq p ≠ NO_SEQ - 1)
    (hunseen : ∀ admitted initialState features, r.1 = .authenticated admitted initialState features →
      System.unseen server p admitted = true) (now : U32) :
    Tracked (r.2.apply env p r.1 now).2 := by
  have hr := h.keeps hd.keeps (hpub.grows hroom)
  have hself : server.isAuthenticated p = false → r.2.observerViews[p]? = none := by
    intro hauth
    rw [hd.keeps.observerViews]
    exact hs.unviewed hauth
  have happlied := r.2.apply_cases env p r.1 now
  obtain ⟨action, s⟩ := r
  dsimp only at hr hself happlied ⊢
  generalize s.apply env p action now = r' at happlied ⊢
  cases happlied with
  | silent => exact hr
  | reply message => exact hr
  | reject reply reason => exact hr.releasePreAuth p
  | player admitted initialState features hsome =>
    obtain ⟨hauth, -⟩ := hd.admits admitted rfl
    have hboard : s.board = server.board := hquiet.resolve_right fun hnone => nomatch hnone
    refine (hr.evict env admitted.duplicateOf).admission
      (PulseServer.admitPlayer_spec env _ p admitted.wallet initialState features now)
      (admitPlayer_grows env _ _ _ _ _ (room_evict (hboard ▸ hroom) env _))
      (PulseServer.unviewed_evict (hself hauth) env _) (Or.inr fun o views v ho hv => ?_)
    obtain ⟨hne, ho⟩ := PulseServer.observerViews_evict ho
    rw [hd.keeps.observerViews] at ho
    exact System.unseen_other (hunseen admitted initialState features rfl) ho hne hv
  | listener admitted listener features hsome =>
    obtain ⟨hauth, -⟩ := hd.admits admitted rfl
    have hinactive : (s.board.ring p).active = false := by
      rw [hd.keeps.active]
      exact hs.inactive hauth
    refine (hr.evict env admitted.duplicateOf).admission
      (PulseServer.admitListener_spec env _ p admitted.wallet listener features) ?_
      (PulseServer.unviewed_evict (hself hauth) env _)
      (Or.inl ⟨rfl, PulseServer.inactive_evict hinactive env _⟩)
    unfold PulseServer.admitListener
    dsimp only
    rw [(PulseServer.releasePreAuth_fields _ p).2.2.2]
    exact SnapshotBoard.Grows.refl _

theorem foldl_reap (env : Env) (expired : List (U32 × PulseServer.ExpiredReason))
    (r : List OutgoingMessage × PulseServer) (h : Tracked r.2) :
    Tracked (expired.foldl (PulseServer.reap env) r).2 := by
  induction expired generalizing r with
  | nil => exact h
  | cons e expired ih =>
    refine ih (PulseServer.reap env r e) ?_
    unfold PulseServer.reap
    dsimp only
    split
    · exact (h.releasePreAuth e.1).cleanup env e.1
    · exact h.cleanup env e.1

/-- With any tick counter. -/
theorem simulateTick (h : Tracked server) (tickCounter now : U32) (input : PulseServer.TickInput) :
    ({ server with tickCounter := tickCounter }.simulateTick now input).outbox =
      ({ server with tickCounter := tickCounter }.simulateTickUncached now input).outbox ∧
    Tracked { server with
      observerViews :=
        ({ server with tickCounter := tickCounter }.simulateTick now input).observerViews } := by
  obtain ⟨history, hrec, hviews⟩ := h
  have hc : Chronicle { server with tickCounter := tickCounter }.board (server.board.Known history) :=
    hrec.chronicle
  have hviews' : Current { server with tickCounter := tickCounter } (server.board.Known history)
      { server with tickCounter := tickCounter }.observerViews := hviews
  obtain ⟨hout, hcurrent⟩ := PulseServer.simulateTick_agree hc hviews' now input
  exact ⟨hout, history, hrec, hcurrent⟩

theorem runTick (h : Tracked server) (env : Env) (now : U32) (input : PulseServer.TickInput) :
    Tracked (server.runTick env now input).2 := by
  unfold PulseServer.runTick
  dsimp only
  refine foldl_reap env _ _ ?_
  obtain ⟨-, htracked⟩ := h.simulateTick (server.tickCounter + 1) now input
  exact htracked

end Tracked

/-! ### Runs -/

namespace System

/-- The slot can number one more snapshot. -/
def roomLeft (s : System) : Event → Bool
  | .receive peer _ _ _ => decide (s.hosted.server.board.lastSeq peer ≠ NO_SEQ - 1)
  | _ => true

theorem step_tracked {env : Env} {s s' : System} {e : Event} (hinv : Inv env s)
    (h : Tracked s.hosted.server) (hok : s.firstSight env e = true) (hroom : s.roomLeft e = true)
    (hstep : s.step env e = some s') : Tracked s'.hosted.server := by
  obtain ⟨⟨out, h'⟩, hhosted, rfl⟩ := Option.map_eq_some_iff.mp hstep
  obtain ⟨-, r, hhappens, -, rfl⟩ := Hosted.step_happens hhosted
  cases hhappens with
  | connect peer ip now hlt =>
    obtain ⟨hidentity, hviews, hboard, _⟩ := s.hosted.server.connect_spec peer ip now
    unfold Tracked Current Outdated walletSeen at h ⊢
    rw [hidentity, hviews, hboard]
    exact h
  | receive peer decoded nowMs now hlt =>
    obtain ⟨hpub, hquiet⟩ := s.hosted.server.dispatch_published env peer decoded nowMs now
    refine h.apply hinv.hosted.sound (s.hosted.server.dispatch_spec env peer decoded nowMs now)
      hpub hquiet (of_decide_eq_true hroom) (fun a i f ha => ?_) now
    simpa only [firstSight, ha] using hok
  | corrupt peer now hlt =>
    refine h.keeps (s.hosted.server.corrupt_keeps peer now) ?_
    rw [s.hosted.server.corrupt_board peer now]
    exact SnapshotBoard.Grows.refl _
  | disconnect peer hlt =>
    have hreleased : Tracked { s.hosted.server.releasePreAuth peer with
        corruptedLimiter := (s.hosted.server.releasePreAuth peer).corruptedLimiter.release peer } :=
      h.releasePreAuth peer
    exact hreleased.cleanup env peer
  | tick now input hvalid =>
    exact h.runTick env now input

end System

/-- In every run in which a player is only ever admitted on a slot that no observer has a
view of for its wallet, and no slot numbers a snapshot with `NO_SEQ`, every tick sends what it
would send without its caches. -/
theorem tick_caches_transparent (env : Env) (config : PulseConfig) (events : List Event) (s : System)
    (hmeets : Machine.Meets (System.step env)
      (fun s e => s.firstSight env e = true ∧ s.roomLeft e = true) (System.new config) events)
    (hrun : Machine.run (System.step env) (System.new config) events = some s)
    (tickCounter now : U32) (input : PulseServer.TickInput) :
    ({ s.hosted.server with tickCounter := tickCounter }.simulateTick now input).outbox =
      ({ s.hosted.server with tickCounter := tickCounter }.simulateTickUncached now input).outbox := by
  have htracked := Machine.run_invariant_of_meets (System.step env)
    (P := fun s => System.Inv env s ∧ Tracked s.hosted.server)
    (fun _ _ _ hs hok hstep => ⟨System.step_inv hs.1 hok.1 hstep,
      System.step_tracked hs.1 hs.2 hok.1 hok.2 hstep⟩) events _ s hmeets hrun
    ⟨System.inv_new env config, fun _ _ => PeerSnapshot.default,
      SnapshotBoard.recorded_new _ _, fun o views x v ho _ => by
        simp [System.new, Hosted.new, PulseServer.new] at ho⟩
  exact (htracked.2.simulateTick tickCounter now input).1

/-! Two listeners watch a row of parcels, the first and the third from slot 0, the second
and the third from slot 2. A player on slot 1 is seen on the first parcel and leaves;
somebody joins on slot 1 and is seen on the second; both times the sequence is 0. The third
parcel, with sequence 1, is watched by both listeners. -/

def rowParcel (x : ℤ) : ℤ := ParcelEncoder.default.encode x 0

def listenerOnRow (peer : U32) (chain : Bytes) (x x' : ℤ) : List Event :=
  [.connect peer [] 0,
    .receive peer (some (some (.sceneListenerHandshake
      ⟨chain, ['r'], [⟨x, 0, x, 0⟩, ⟨x', 0, x', 0⟩], 0⟩))) 0 1]

def playerOnRow (peer : U32) (chain : Bytes) (x : ℤ) (positionX : U32) : List Event :=
  [.connect peer [] 0, .receive peer (some (some (.handshake ⟨chain, none, 0⟩))) 0 1,
    .receive peer (some (some (.teleport ⟨rowParcel x, positionX, 0, 0, ['r']⟩))) 0 1]

def rowInput (order : List U32) : PulseServer.TickInput :=
  ⟨order, fun _ => [], fun o => [rowParcel (if o = 0 then 0 else 1), rowParcel 2]⟩

/-- The slot is taken over by the wallet of `chain`. -/
def baselineReused (chain : Bytes) : List Event :=
  listenerOnRow 0 [76, 49] 0 2 ++ listenerOnRow 2 [77, 49] 1 2 ++ playerOnRow 1 [66, 49] 0 0 ++
    [.tick 2 (rowInput [0, 1, 2]), .disconnect 1] ++ playerOnRow 1 chain 1 5 ++
    [.tick 2 (rowInput [0, 1, 2]),
      .receive 1 (some (some (.input (some { stillState with parcelIndex := rowParcel 2 })))) 0 3]

/-- Of every delta, its receiver and the coordinate it carries. -/
def deltaXs (out : List OutgoingMessage) : List (U32 × Option U32) :=
  out.filterMap fun m => match m.message with
    | .playerStateDelta d => some (m.target, d.positionX)
    | _ => none

/-- Another wallet is announced afresh to whoever saw the slot before. -/
theorem tick_caches_transparent_baselineReused :
    Machine.Meets (System.step Env.sample)
      (fun s e => s.firstSight Env.sample e = true ∧ s.roomLeft e = true)
      (System.new PulseConfig.default) (baselineReused [67, 49]) ∧
    ∃ s, Machine.run (System.step Env.sample) (System.new PulseConfig.default)
        (baselineReused [67, 49]) = some s ∧
      deltaXs ({ s.hosted.server with tickCounter := 3 }.simulateTick 4 (rowInput [0, 2, 1])).outbox =
        [(2, some 0)] ∧
      ({ s.hosted.server with tickCounter := 3 }.simulateTick 4 (rowInput [0, 2, 1])).outbox =
        ({ s.hosted.server with tickCounter := 3 }.simulateTickUncached 4 (rowInput [0, 2, 1])).outbox := by
  have hmeets : Machine.Meets (System.step Env.sample)
      (fun s e => s.firstSight Env.sample e = true ∧ s.roomLeft e = true)
      (System.new PulseConfig.default) (baselineReused [67, 49]) := by decide
  have hrun : ((Machine.run (System.step Env.sample) (System.new PulseConfig.default)
      (baselineReused [67, 49])).map fun s => deltaXs
        ({ s.hosted.server with tickCounter := 3 }.simulateTick 4 (rowInput [0, 2, 1])).outbox) =
      some [(2, some 0)] := by decide
  obtain ⟨s, hs, hdeltas⟩ := Option.map_eq_some_iff.mp hrun
  exact ⟨hmeets, s, hs, hdeltas, tick_caches_transparent Env.sample PulseConfig.default
    (baselineReused [67, 49]) s hmeets hs 3 4 (rowInput [0, 2, 1])⟩

/-- The same wallet is not: the second listener is sent the delta from a snapshot it never had,
without the coordinate that changed. -/
theorem rejoin_poisons_delta_cache :
    ¬ ∀ (env : Env) (config : PulseConfig) (events : List Event) (s : System),
      Machine.run (System.step env) (System.new config) events = some s →
      ∀ (now : U32) (input : PulseServer.TickInput), input.Valid s.hosted.server →
        ({ s.hosted.server with tickCounter := s.hosted.server.tickCounter + 1 }.simulateTick now
          input).outbox =
        ({ s.hosted.server with tickCounter := s.hosted.server.tickCounter + 1 }.simulateTickUncached
          now input).outbox := by
  have hrun : ((Machine.run (System.step Env.sample) (System.new PulseConfig.default)
      (baselineReused [66, 50])).map fun s =>
        (decide ((rowInput [0, 2, 1]).Valid s.hosted.server),
        deltaXs ({ s.hosted.server with tickCounter := s.hosted.server.tickCounter + 1 }.simulateTick 4
          (rowInput [0, 2, 1])).outbox,
        deltaXs ({ s.hosted.server with tickCounter :=
          s.hosted.server.tickCounter + 1 }.simulateTickUncached 4 (rowInput [0, 2, 1])).outbox)) =
      some (true, [(0, none), (2, none)], [(0, none), (2, some 0)]) := by decide
  obtain ⟨s, hs, hdeltas⟩ := Option.map_eq_some_iff.mp hrun
  simp only [Prod.mk.injEq, decide_eq_true_eq] at hdeltas
  obtain ⟨hvalid, hcached, huncached⟩ := hdeltas
  intro h
  have heq := h Env.sample PulseConfig.default (baselineReused [66, 50]) s hs 4 (rowInput [0, 2, 1]) hvalid
  rw [heq, huncached] at hcached
  exact absurd hcached (by decide)

end Catalyrst.Pulse
