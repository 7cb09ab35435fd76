import Catalyrst.Pulse.Server

/-!
# Sessions of the server

What a packet leaves as it was, however it is dispatched: the identities, the
views, which slots are active, and of every session its wallet, its listener and
whether it is authenticated. Authentication itself is left to `apply`.
-/

namespace Catalyrst.Pulse
open Catalyrst.Lib

/-- A session that goes on: at most it is turned from not authenticated to
`PendingDisconnect`. -/
structure PeerState.Keeps (st st' : PeerState) : Prop where
  walletId : st'.walletId = st.walletId
  sceneListener : st'.sceneListener = st.sceneListener
  connectionState : st'.connectionState = st.connectionState ∨
    st.connectionState ≠ .authenticated ∧ st'.connectionState = .pendingDisconnect

namespace PeerState.Keeps

variable {st st' st'' : PeerState}

theorem refl (st : PeerState) : PeerState.Keeps st st := ⟨rfl, rfl, Or.inl rfl⟩

theorem trans (h : PeerState.Keeps st st') (h' : PeerState.Keeps st' st'') :
    PeerState.Keeps st st'' := by
  refine ⟨h'.walletId.trans h.walletId, h'.sceneListener.trans h.sceneListener, ?_⟩
  rcases h'.connectionState with heq | ⟨hne, hpending⟩
  · rw [heq]
    exact h.connectionState
  · rcases h.connectionState with heq | ⟨hne', _⟩
    · rw [heq] at hne
      exact Or.inr ⟨hne, hpending⟩
    · exact Or.inr ⟨hne', hpending⟩

theorem isAuthenticated (h : PeerState.Keeps st st') :
    st'.isAuthenticated = st.isAuthenticated := by
  unfold PeerState.isAuthenticated
  rcases h.connectionState with heq | ⟨hne, hpending⟩
  · rw [heq]
  · simp [hne, hpending]

/-- A rejected session stays rejected. -/
theorem pendingDisconnect (h : PeerState.Keeps st st')
    (hst : st.connectionState = .pendingDisconnect) : st'.connectionState = .pendingDisconnect := by
  rcases h.connectionState with heq | ⟨_, hpending⟩
  · rw [heq, hst]
  · exact hpending

end PeerState.Keeps

namespace PulseServer

theorem exists_session {server : PulseServer} {q : U32} (h : server.isAuthenticated q = true) :
    ∃ st, server.peers[q]? = some st := by
  unfold isAuthenticated at h
  cases hq : server.peers[q]? with
  | none => simp [hq] at h
  | some st => exact ⟨st, rfl⟩

/-- The same sessions go on in both tables. -/
def KeepsPeers (peers peers' : OrdMap U32 PeerState) : Prop :=
  ∀ q : U32, Option.Rel PeerState.Keeps peers[q]? peers'[q]?

namespace KeepsPeers

variable {peers peers' peers'' : OrdMap U32 PeerState}

theorem refl (peers : OrdMap U32 PeerState) : KeepsPeers peers peers := by
  intro q
  cases peers[q]? with
  | none => exact Option.Rel.none
  | some st => exact Option.Rel.some (PeerState.Keeps.refl st)

theorem trans (h : KeepsPeers peers peers') (h' : KeepsPeers peers' peers'') :
    KeepsPeers peers peers'' := by
  intro q
  have hq := h q
  have hq' := h' q
  generalize peers[q]? = a at hq ⊢
  generalize peers'[q]? = b at hq hq'
  generalize peers''[q]? = c at hq' ⊢
  cases hq with
  | none =>
    cases hq'
    exact Option.Rel.none
  | some hkeep =>
    cases hq' with
    | some hkeep' => exact Option.Rel.some (hkeep.trans hkeep')

theorem modify (peers : OrdMap U32 PeerState) (peer : U32) {f : PeerState → PeerState}
    (h : ∀ st, peers[peer]? = some st → PeerState.Keeps st (f st)) :
    KeepsPeers peers (peers.modify peer f) := by
  intro q
  rw [OrdMap.find_modify]
  split
  · rename_i hq
    subst hq
    cases hp : peers[peer]? with
    | none => exact Option.Rel.none
    | some st => exact Option.Rel.some (h st hp)
  · exact refl peers q

theorem isSome (h : KeepsPeers peers peers') (q : U32) :
    peers'[q]?.isSome = peers[q]?.isSome := by
  have hq := h q
  generalize peers[q]? = a at hq ⊢
  generalize peers'[q]? = b at hq ⊢
  cases hq with
  | none => rfl
  | some hkeep => rfl

theorem isAuthenticated (h : KeepsPeers peers peers') (q : U32) :
    peers'[q]?.any PeerState.isAuthenticated = peers[q]?.any PeerState.isAuthenticated := by
  have hq := h q
  generalize peers[q]? = a at hq ⊢
  generalize peers'[q]? = b at hq ⊢
  cases hq with
  | none => rfl
  | some hkeep => exact hkeep.isAuthenticated

theorem find (h : KeepsPeers peers peers') {q : U32} {st : PeerState} (hq : peers[q]? = some st) :
    ∃ st', peers'[q]? = some st' ∧ PeerState.Keeps st st' := by
  have hrel := h q
  rw [hq] at hrel
  generalize peers'[q]? = b at hrel ⊢
  cases hrel with
  | some hkeep => exact ⟨_, rfl, hkeep⟩

theorem find_rev (h : KeepsPeers peers peers') {q : U32} {st' : PeerState}
    (hq : peers'[q]? = some st') : ∃ st, peers[q]? = some st ∧ PeerState.Keeps st st' := by
  have hrel := h q
  rw [hq] at hrel
  generalize peers[q]? = a at hrel ⊢
  cases hrel with
  | some hkeep => exact ⟨_, rfl, hkeep⟩

end KeepsPeers

structure Keeps (server server' : PulseServer) : Prop where
  peers : KeepsPeers server.peers server'.peers
  identity : server'.identity = server.identity
  observerViews : server'.observerViews = server.observerViews
  active : ∀ x, (server'.board.ring x).active = (server.board.ring x).active

namespace Keeps

variable {server server' server'' : PulseServer}

theorem refl (server : PulseServer) : Keeps server server :=
  ⟨KeepsPeers.refl _, rfl, rfl, fun _ => rfl⟩

theorem trans (h : Keeps server server') (h' : Keeps server' server'') : Keeps server server'' :=
  ⟨h.peers.trans h'.peers, h'.identity.trans h.identity, h'.observerViews.trans h.observerViews,
    fun x => (h'.active x).trans (h.active x)⟩

/-- Nothing that matters here was touched. -/
theorem of_eq (hpeers : server'.peers = server.peers) (hidentity : server'.identity = server.identity)
    (hviews : server'.observerViews = server.observerViews) (hboard : server'.board = server.board) :
    Keeps server server' :=
  ⟨hpeers ▸ KeepsPeers.refl _, hidentity, hviews, fun x => by rw [hboard]⟩

theorem isAuthenticated (h : Keeps server server') (q : U32) :
    server'.isAuthenticated q = server.isAuthenticated q := h.peers.isAuthenticated q

theorem modifyPeer (server : PulseServer) (peer : U32) {f : PeerState → PeerState}
    (h : ∀ st, server.peers[peer]? = some st → PeerState.Keeps st (f st)) :
    Keeps server (server.modifyPeer peer f) :=
  ⟨KeepsPeers.modify server.peers peer h, rfl, rfl, fun _ => rfl⟩

theorem setPendingDisconnect {server : PulseServer} {peer : U32}
    (h : server.isAuthenticated peer = false) :
    Keeps server (server.setPendingDisconnect peer) := by
  refine modifyPeer server peer fun st hst => ⟨rfl, rfl, Or.inr ⟨fun hauth => ?_, rfl⟩⟩
  rw [PulseServer.isAuthenticated, hst] at h
  simp [PeerState.isAuthenticated, hauth] at h

theorem releasePreAuth (server : PulseServer) (peer : U32) :
    Keeps server (server.releasePreAuth peer) := by
  unfold PulseServer.releasePreAuth
  split
  · exact of_eq rfl rfl rfl rfl
  · exact of_eq rfl rfl rfl rfl

/-- What a disconnect does before the clean-up. -/
theorem disconnect (server : PulseServer) (peer : U32) :
    Keeps server { server.releasePreAuth peer with
      corruptedLimiter := (server.releasePreAuth peer).corruptedLimiter.release peer } :=
  (releasePreAuth server peer).trans (of_eq rfl rfl rfl rfl)

end Keeps

/-! ### Dispatch -/

/-- The messages an action replies with, other than on success. -/
def replies : Action → List ServerMessage
  | .reply message => [message]
  | .reject reply _ => reply.toList
  | _ => []

/-- Who an action admits. -/
def admits : Action → Option Admitted
  | .authenticated admitted _ _ => some admitted
  | .authenticatedListener admitted _ _ => some admitted
  | _ => none

/-- The other peer that is in a session of the wallet. -/
def otherSession (env : Env) (identity : IdentityBoard) (peer : U32) (wallet : Text) : Option U32 :=
  (identity.peerByWallet env.toLowercase wallet).filter fun p => decide (p ≠ peer)

theorem otherSession_ne (env : Env) (identity : IdentityBoard) (peer : U32) (wallet : Text) :
    otherSession env identity peer wallet ≠ some peer := by
  intro h
  obtain ⟨_, hne⟩ := Option.filter_eq_some_iff.mp h
  simp at hne

/-- What holds of every dispatch for `peer`. -/
structure Dispatched (env : Env) (server : PulseServer) (peer : U32) (r : Action × PulseServer) :
    Prop where
  keeps : Keeps server r.2
  replies : ∀ m ∈ replies r.1, ∃ response, m = .handshake response
  admits : ∀ admitted, admits r.1 = some admitted → server.isAuthenticated peer = false ∧
    admitted.duplicateOf = otherSession env server.identity peer admitted.wallet

namespace Dispatched

variable {env : Env} {server server' : PulseServer} {peer : U32}

theorem ignore (h : Keeps server server') : Dispatched env server peer (.ignore, server') :=
  ⟨h, fun _ hm => (nomatch hm), fun _ ha => nomatch ha⟩

theorem applied (h : Keeps server server') : Dispatched env server peer (.applied, server') :=
  ⟨h, fun _ hm => (nomatch hm), fun _ ha => nomatch ha⟩

theorem reject (h : Keeps server server') (reason : DisconnectReason) :
    Dispatched env server peer (.reject none reason, server') :=
  ⟨h, fun _ hm => (nomatch hm), fun _ ha => nomatch ha⟩

end Dispatched

/-- Either a refusal, or the wallet and another peer it is in use by. -/
theorem verifyAndAdmit_spec (env : Env) (server : PulseServer) (peer : U32) (authChain : Bytes)
    (now : U32) (nowMs : ℤ) (h : server.isAuthenticated peer = false) :
    Keeps server (verifyAndAdmit env server peer authChain now nowMs).2 ∧
    match (verifyAndAdmit env server peer authChain now nowMs).1 with
    | .error action => (∀ m ∈ replies action, ∃ response, m = .handshake response) ∧
        admits action = none
    | .ok admitted => admitted.duplicateOf =
        otherSession env server.identity peer admitted.wallet := by
  unfold verifyAndAdmit
  split
  · exact ⟨Keeps.refl server, fun _ hm => (nomatch hm), rfl⟩
  · split
    · exact ⟨Keeps.setPendingDisconnect h, fun _ hm => (nomatch hm), rfl⟩
    · rename_i next _
      have hattempt : Keeps server (server.modifyPeer peer fun s =>
          { s with handshakeAttempts := next }) :=
        Keeps.modifyPeer server peer fun st _ => ⟨rfl, rfl, Or.inl rfl⟩
      dsimp only
      generalize server.modifyPeer peer (fun s => { s with handshakeAttempts := next }) = server1
        at hattempt ⊢
      have h1 : server1.isAuthenticated peer = false := (hattempt.isAuthenticated peer).trans h
      split
      · exact ⟨hattempt, fun m hm => ⟨_, List.mem_singleton.mp hm⟩, rfl⟩
      · split
        · exact ⟨hattempt.trans (Keeps.setPendingDisconnect h1),
            fun m hm => ⟨_, List.mem_singleton.mp hm⟩, rfl⟩
        · rename_i verified _ _
          generalize server1.replayPolicy.tryAdmit env.toLowercase now verified.userAddress
            verified.timestamp = r
          have hpolicy : Keeps server { server1 with replayPolicy := r.2 } :=
            hattempt.trans (Keeps.of_eq rfl rfl rfl rfl)
          split
          · exact ⟨hpolicy.trans (Keeps.setPendingDisconnect h1), fun _ hm => (nomatch hm), rfl⟩
          · refine ⟨hpolicy, ?_⟩
            rw [← hpolicy.identity]
            rfl

theorem Handshaken.dispatched {env : Env} {server : PulseServer} {peer now : U32}
    {authChain : Bytes} {nowMs : ℤ} {initialState : Option PlayerInitialState}
    {r : Action × PulseServer} (h : server.isAuthenticated peer = false)
    (hr : Handshaken peer initialState (verifyAndAdmit env server peer authChain now nowMs) r) :
    Dispatched env server peer r := by
  obtain ⟨hkeeps, hspec⟩ := verifyAndAdmit_spec env server peer authChain now nowMs h
  generalize verifyAndAdmit env server peer authChain now nowMs = v at hr hkeeps hspec
  cases hr with
  | denied action server' => exact ⟨hkeeps, hspec.1, fun _ ha => by simp [hspec.2] at ha⟩
  | invalid admitted server' response =>
    have h' : server'.isAuthenticated peer = false := (hkeeps.isAuthenticated peer).trans h
    refine ⟨hkeeps.trans (Keeps.setPendingDisconnect h'), fun m hm => ?_, fun _ ha => nomatch ha⟩
    obtain ⟨response, -, heq⟩ := Option.map_eq_some_iff.mp (Option.mem_toList.mp hm)
    exact ⟨response, heq.symm⟩
  | player admitted server' features _ =>
    exact ⟨hkeeps, fun _ hm => (nomatch hm), fun a ha => ⟨h, Option.some.inj ha ▸ hspec⟩⟩
  | listener admitted server' listener features _ =>
    exact ⟨hkeeps, fun _ hm => (nomatch hm), fun a ha => ⟨h, Option.some.inj ha ▸ hspec⟩⟩

theorem handleHandshake_spec (env : Env) (server : PulseServer) (peer : U32)
    (req : HandshakeRequest) (nowMs : ℤ) (now : U32) :
    Dispatched env server peer (handleHandshake env server peer req nowMs now) := by
  rcases handleHandshake_cases env server peer req nowMs now with ⟨-, heq⟩ | ⟨hauth, hr⟩
  · rw [heq]
    exact Dispatched.ignore (Keeps.refl server)
  · exact hr.dispatched hauth

theorem handleSceneListenerHandshake_spec (env : Env) (server : PulseServer) (peer : U32)
    (req : SceneListenerHandshakeRequest) (nowMs : ℤ) (now : U32) :
    Dispatched env server peer (handleSceneListenerHandshake env server peer req nowMs now) := by
  rcases handleSceneListenerHandshake_cases env server peer req nowMs now with
    ⟨-, heq⟩ | ⟨-, hauth, hr⟩
  · rw [heq]
    exact Dispatched.ignore (Keeps.refl server)
  · exact hr.dispatched hauth

theorem playGameplay_spec (env : Env) (server : PulseServer) (peer now : U32) (msg : ClientMessage) :
    Dispatched env server peer (server.playGameplay peer now msg) := by
  have hboard : ∀ board : SnapshotBoard,
      (∀ x, (board.ring x).active = (server.board.ring x).active) →
      Keeps server { server with board := board } := fun board hb =>
    ⟨KeepsPeers.refl _, rfl, rfl, hb⟩
  cases msg with
  | handshake req => exact Dispatched.ignore (Keeps.refl server)
  | sceneListenerHandshake req => exact Dispatched.ignore (Keeps.refl server)
  | input state =>
    cases state with
    | none => exact Dispatched.ignore (Keeps.refl server)
    | some state =>
      unfold playGameplay
      dsimp only
      split
      · exact Dispatched.ignore (Keeps.refl server)
      · exact Dispatched.applied (hboard _ fun x => active_publishFromPlayerState _ _ _ _ _ _)
  | teleport t =>
    unfold playGameplay
    dsimp only
    split
    · exact Dispatched.ignore (Keeps.refl server)
    · exact Dispatched.applied (hboard _ fun x => active_publishTeleport _ _ _ _ _)
  | emoteStart e =>
    unfold playGameplay
    dsimp only
    split
    · exact Dispatched.reject (Keeps.refl server) _
    · split
      · exact Dispatched.ignore (Keeps.refl server)
      · split
        · exact Dispatched.ignore (Keeps.refl server)
        · exact Dispatched.applied (hboard _ fun x => active_publishFromPlayerState _ _ _ _ _ _)
  | emoteStop => exact Dispatched.applied (hboard _ fun x => active_publishEmoteStop _ _ _ _)
  | profileAnnouncement version =>
    unfold playGameplay
    dsimp only
    split
    · exact Dispatched.applied (Keeps.of_eq rfl rfl rfl rfl)
    · exact Dispatched.applied (Keeps.refl server)
  | resync subjectId knownSeq =>
    exact Dispatched.applied (Keeps.modifyPeer server peer fun st _ => ⟨rfl, rfl, Or.inl rfl⟩)

theorem acceptGameplay_keeps (server : PulseServer) (peer now : U32) (msg : ClientMessage) :
    Keeps server (server.acceptGameplay peer now msg).2 := by
  cases msg <;> exact Keeps.of_eq rfl rfl rfl rfl

theorem applyGameplay_spec (env : Env) (server : PulseServer) (peer now : U32) (msg : ClientMessage) :
    Dispatched env server peer (server.applyGameplay peer now msg) := by
  have hkeeps := acceptGameplay_keeps server peer now msg
  unfold applyGameplay
  dsimp only
  generalize server.acceptGameplay peer now msg = r at hkeeps ⊢
  split
  · have hplay := playGameplay_spec env r.2 peer now msg
    refine ⟨hkeeps.trans hplay.keeps, hplay.replies, fun admitted ha => ?_⟩
    rw [← hkeeps.isAuthenticated peer, ← hkeeps.identity]
    exact hplay.admits admitted ha
  · exact Dispatched.ignore hkeeps

theorem admits_playGameplay (server : PulseServer) (peer now : U32) (msg : ClientMessage) :
    admits (server.playGameplay peer now msg).1 = none := by
  cases msg with
  | input state =>
    cases state with
    | none => rfl
    | some state =>
      unfold playGameplay
      dsimp only
      split <;> rfl
  | teleport t =>
    unfold playGameplay
    dsimp only
    split <;> rfl
  | emoteStart e =>
    unfold playGameplay
    dsimp only
    split
    · rfl
    · split
      · rfl
      · split <;> rfl
  | profileAnnouncement version =>
    unfold playGameplay
    dsimp only
    split <;> rfl
  | _ => rfl

theorem admits_applyGameplay (server : PulseServer) (peer now : U32) (msg : ClientMessage) :
    admits (server.applyGameplay peer now msg).1 = none := by
  unfold applyGameplay
  dsimp only
  split
  · exact admits_playGameplay _ peer now msg
  · rfl

theorem dispatch_spec (env : Env) (server : PulseServer) (peer : U32)
    (decoded : Option (Option ClientMessage)) (nowMs : ℤ) (now : U32) :
    Dispatched env server peer (server.dispatch env peer decoded nowMs now) := by
  unfold dispatch
  split
  · dsimp only
    generalize server.corruptedLimiter.registerAndCheckExhausted peer now = r
    have hlimiter : Keeps server { server with corruptedLimiter := r.2 } :=
      Keeps.of_eq rfl rfl rfl rfl
    split
    · exact Dispatched.reject hlimiter _
    · exact Dispatched.ignore hlimiter
  · exact Dispatched.ignore (Keeps.refl server)
  · split
    · exact applyGameplay_spec env server peer now _
    · exact Dispatched.ignore (Keeps.of_eq rfl rfl rfl rfl)
    · exact handleHandshake_spec env server peer _ nowMs now
    · exact handleSceneListenerHandshake_spec env server peer _ nowMs now
    · split
      · exact applyGameplay_spec env server peer now _
      · exact Dispatched.ignore (Keeps.refl server)

theorem corrupt_keeps (server : PulseServer) (peer now : U32) :
    Keeps server (server.corrupt peer now) := by
  unfold corrupt
  dsimp only
  generalize server.corruptedLimiter.registerAndCheckExhausted peer now = r
  have hlimiter : Keeps server { server with corruptedLimiter := r.2 } :=
    Keeps.of_eq rfl rfl rfl rfl
  split
  · exact hlimiter.trans (Keeps.releasePreAuth _ peer)
  · exact hlimiter

/-! ### Clean-ups and ticks -/

/-- The server without a peer, whoever is told. -/
theorem cleanupPeer_server (env : Env) (server : PulseServer) (peer : U32) :
    (cleanupPeer env server peer).2 = { server with
      board := server.board.clearActive peer
      identity := server.identity.remove env.toLowercase peer
      profiles := server.profiles.remove peer
      observerViews := server.observerViews.erase peer
      gameplayLimiter := server.gameplayLimiter.release peer
      peers := server.peers.erase peer } := by
  unfold cleanupPeer
  dsimp only
  split
  · rfl
  · rfl

/-- A peer that is cleaned up is gone, and no other is. -/
theorem cleanupPeer_peers (env : Env) (server : PulseServer) (peer q : U32) :
    (cleanupPeer env server peer).2.peers[q]? =
      if peer = q then none else server.peers[q]? := by
  rw [cleanupPeer_server]
  exact OrdMap.find_erase _ _ _

/-- A connect starts a pending session, or does nothing to the sessions. -/
theorem connect_spec (server : PulseServer) (peer : U32) (ip : Text) (now : U32) :
    (server.connect peer ip now).2.identity = server.identity ∧
    (server.connect peer ip now).2.observerViews = server.observerViews ∧
    (server.connect peer ip now).2.board = server.board ∧
    (server.connect peer ip now).2.peers =
      if (server.connect peer ip now).1 then
        server.peers.insert peer { PeerState.new .pendingAuth now with ip := some ip }
      else server.peers := by
  unfold connect releasePreAuth
  dsimp only
  by_cases hwt : ENET_CAPACITY ≤ peer.val
  · simp only [hwt, if_true]
    split <;> exact ⟨rfl, rfl, rfl, rfl⟩
  · simp only [hwt, if_false]
    split <;> exact ⟨rfl, rfl, rfl, rfl⟩

/-- The session, identity and activity of an admitted player. -/
structure Admits (env : Env) (server server' : PulseServer) (peer : U32) (wallet : Text)
    (f : PeerState → PeerState) (activates : Bool) : Prop where
  peers : server'.peers = server.peers.modify peer f
  identity : server'.identity = server.identity.set env.toLowercase peer wallet
  observerViews : server'.observerViews = server.observerViews
  active : ∀ x, (server'.board.ring x).active =
    (activates && decide (peer = x) || (server.board.ring x).active)
  authenticated : ∀ st, (f st).connectionState = .authenticated ∧ (f st).walletId = some wallet

theorem releasePreAuth_fields (server : PulseServer) (peer : U32) :
    (server.releasePreAuth peer).peers = server.peers ∧
    (server.releasePreAuth peer).identity = server.identity ∧
    (server.releasePreAuth peer).observerViews = server.observerViews ∧
    (server.releasePreAuth peer).board = server.board := by
  unfold releasePreAuth
  split
  · exact ⟨rfl, rfl, rfl, rfl⟩
  · exact ⟨rfl, rfl, rfl, rfl⟩

theorem seedInitialState_active (server : PulseServer) (peer now x : U32)
    (init : PlayerInitialState) :
    ((server.seedInitialState peer now init).board.ring x).active =
      (server.board.ring x).active := by
  unfold seedInitialState
  split
  · rfl
  · exact active_publishFromPlayerState _ _ _ _ _ _

theorem seedInitialState_fields (server : PulseServer) (peer now : U32)
    (init : PlayerInitialState) :
    (server.seedInitialState peer now init).peers = server.peers ∧
    (server.seedInitialState peer now init).identity = server.identity ∧
    (server.seedInitialState peer now init).observerViews = server.observerViews := by
  unfold seedInitialState
  split
  · exact ⟨rfl, rfl, rfl⟩
  · exact ⟨rfl, rfl, rfl⟩

theorem admitPlayer_spec (env : Env) (server : PulseServer) (peer : U32) (wallet : Text)
    (initialState : Option PlayerInitialState) (features now : U32) :
    Admits env server (server.admitPlayer env peer wallet initialState features now) peer wallet
      (fun s => { s with
        walletId := some wallet
        connectionState := .authenticated
        features := features }) true := by
  obtain ⟨hpeers, hidentity, hviews, hboard⟩ := releasePreAuth_fields (server.modifyPeer peer fun s =>
    { s with
      walletId := some wallet
      connectionState := .authenticated
      features := features }) peer
  unfold admitPlayer
  dsimp only
  generalize (server.modifyPeer peer fun s => { s with
    walletId := some wallet
    connectionState := .authenticated
    features := features }).releasePreAuth peer = server1 at hpeers hidentity hviews hboard ⊢
  have hactive : ∀ x, ((server1.board.setActive peer).ring x).active =
      (decide (peer = x) || (server.board.ring x).active) := by
    intro x
    rw [SnapshotBoard.active_setActive, hboard]
    rfl
  cases initialState with
  | none =>
    exact ⟨hpeers, by rw [hidentity]; rfl, hviews, fun x => by simpa using hactive x,
      fun _ => ⟨rfl, rfl⟩⟩
  | some init =>
    dsimp only
    obtain ⟨hpeers', hidentity', hviews'⟩ := seedInitialState_fields { server1 with
      identity := server1.identity.set env.toLowercase peer wallet
      board := server1.board.setActive peer } peer now init
    refine ⟨hpeers'.trans hpeers, ?_, hviews'.trans hviews, fun x => ?_, fun _ => ⟨rfl, rfl⟩⟩
    · rw [hidentity']
      dsimp only
      rw [hidentity]
      rfl
    · rw [seedInitialState_active]
      simpa using hactive x

theorem admitListener_spec (env : Env) (server : PulseServer) (peer : U32) (wallet : Text)
    (listener : SceneListenerState) (features : U32) :
    Admits env server (server.admitListener env peer wallet listener features) peer wallet
      (fun s => { s with
        walletId := some wallet
        connectionState := .authenticated
        features := features
        sceneListener := some listener }) false := by
  obtain ⟨hpeers, hidentity, hviews, hboard⟩ := releasePreAuth_fields (server.modifyPeer peer fun s =>
    { s with
      walletId := some wallet
      connectionState := .authenticated
      features := features
      sceneListener := some listener }) peer
  unfold admitListener
  dsimp only
  refine ⟨hpeers, by rw [hidentity]; rfl, hviews, fun x => ?_, fun _ => ⟨rfl, rfl⟩⟩
  rw [hboard]
  simp [modifyPeer]

theorem tickObserver_keeps (server : PulseServer) (now : U32) (input : TickInput) (t : TickState)
    (observer : U32) : KeepsPeers t.peers (server.tickObserver now input t observer).peers := by
  unfold tickObserver tickObserverWith
  split
  · exact KeepsPeers.refl _
  · rename_i state hstate
    split
    · split <;> exact KeepsPeers.refl _
    · split <;> exact KeepsPeers.refl _
    · split
      · exact KeepsPeers.refl _
      · intro q
        rw [OrdMap.find_insert]
        split
        · rename_i hq
          rw [← hq, hstate]
          exact Option.Rel.some ⟨rfl, rfl, Or.inl rfl⟩
        · exact KeepsPeers.refl _ q
    · exact KeepsPeers.refl _

/-- Only authenticated peers have views. -/
def Viewers (peers : OrdMap U32 PeerState) (views : OrdMap U32 (OrdMap U32 PeerToPeerView)) : Prop :=
  ∀ o : U32, views[o]?.isSome = true → peers[o]?.any PeerState.isAuthenticated = true

theorem Viewers.keeps {peers peers' : OrdMap U32 PeerState}
    {views : OrdMap U32 (OrdMap U32 PeerToPeerView)} (h : Viewers peers views)
    (hkeeps : KeepsPeers peers peers') : Viewers peers' views := by
  intro o ho
  rw [hkeeps.isAuthenticated]
  exact h o ho

theorem tickObserver_viewers {server : PulseServer} {now : U32} {input : TickInput} {t : TickState}
    {observer : U32} (h : Viewers t.peers t.observerViews) :
    Viewers t.peers (server.tickObserver now input t observer).observerViews := by
  intro o ho
  unfold tickObserver tickObserverWith at ho
  split at ho
  · exact h o ho
  · rename_i state hstate
    split at ho
    · split at ho <;> exact h o ho
    · split at ho <;> exact h o ho
    · rename_i hauth
      split at ho
      · exact h o ho
      · dsimp only at ho
        rw [OrdMap.find_insert] at ho
        split at ho
        · rename_i heq
          rw [← heq, hstate]
          exact decide_eq_true hauth
        · exact h o ho
    · exact h o ho

theorem foldl_tickObserver (server : PulseServer) (now : U32) (input : TickInput)
    (order : List U32) (t : TickState) (h : Viewers t.peers t.observerViews) :
    KeepsPeers t.peers (order.foldl (server.tickObserver now input) t).peers ∧
    Viewers t.peers (order.foldl (server.tickObserver now input) t).observerViews := by
  induction order generalizing t with
  | nil => exact ⟨KeepsPeers.refl _, h⟩
  | cons observer order ih =>
    have hkeeps := tickObserver_keeps server now input t observer
    obtain ⟨hrest, hviewers⟩ := ih (server.tickObserver now input t observer)
      ((tickObserver_viewers h).keeps hkeeps)
    refine ⟨hkeeps.trans hrest, fun o ho => ?_⟩
    rw [← hkeeps.isAuthenticated]
    exact hviewers o ho

/-! Only a connect makes a session. -/

theorem isSome_cleanupPeer {env : Env} {server : PulseServer} {peer q : U32}
    (h : (cleanupPeer env server peer).2.peers[q]?.isSome = true) :
    peer ≠ q ∧ server.peers[q]?.isSome = true := by
  rw [cleanupPeer_peers] at h
  split at h
  · cases h
  · rename_i hne
    exact ⟨hne, h⟩

theorem isSome_evictDuplicate {env : Env} {server : PulseServer} {duplicateOf : Option U32} {q : U32}
    (h : (evictDuplicate env server duplicateOf).2.peers[q]?.isSome = true) :
    server.peers[q]?.isSome = true := by
  cases duplicateOf with
  | none => exact h
  | some dup =>
    have hq := (isSome_cleanupPeer h).2
    rwa [(releasePreAuth_fields server dup).1] at hq

theorem Admits.isSome {env : Env} {server server' : PulseServer} {peer : U32} {wallet : Text}
    {f : PeerState → PeerState} {activates : Bool}
    (h : Admits env server server' peer wallet f activates) (q : U32) :
    server'.peers[q]?.isSome = server.peers[q]?.isSome := by
  rw [h.peers, OrdMap.find_modify]
  split
  · exact Option.isSome_map
  · rfl

theorem isSome_apply {env : Env} {server : PulseServer} {peer now q : U32} {action : Action}
    (h : (server.apply env peer action now).2.peers[q]?.isSome = true) :
    server.peers[q]?.isSome = true := by
  have happlied := server.apply_cases env peer action now
  generalize server.apply env peer action now = r at happlied h
  cases happlied with
  | silent action => exact h
  | reply message => exact h
  | reject reply reason => rwa [(releasePreAuth_fields server peer).1] at h
  | player admitted initialState features hsome =>
    rw [(admitPlayer_spec _ _ _ _ _ _ _).isSome] at h
    exact isSome_evictDuplicate h
  | listener admitted listener features hsome =>
    rw [(admitListener_spec _ _ _ _ _ _).isSome] at h
    exact isSome_evictDuplicate h

theorem isSome_foldl_reap {env : Env} {expired : List (U32 × ExpiredReason)}
    {r : List OutgoingMessage × PulseServer} {q : U32}
    (h : (expired.foldl (reap env) r).2.peers[q]?.isSome = true) :
    r.2.peers[q]?.isSome = true := by
  induction expired generalizing r with
  | nil => exact h
  | cons e expired ih =>
    have hnext : (reap env r e).2.peers[q]?.isSome = true := ih h
    have hq := (isSome_cleanupPeer hnext).2
    split at hq
    · rwa [(releasePreAuth_fields r.2 e.1).1] at hq
    · exact hq

end PulseServer

/-! ### The transport

A slot is handed out again only after its disconnect. -/

structure Hosted where
  server : PulseServer
  /-- The slots with an admitted connect and no disconnect since. -/
  slots : Finset U32

namespace Hosted

def new (config : PulseConfig) : Hosted := ⟨PulseServer.new config, ∅⟩

def delivers (h : Hosted) : Event → Bool
  | .connect peer _ _ => decide (peer ∉ h.slots)
  | _ => true

def slotsAfter (h : Hosted) : Event → Finset U32
  | .connect peer ip now =>
    if (h.server.connect peer ip now).1 then insert peer h.slots else h.slots
  | .disconnect peer => h.slots.erase peer
  | _ => h.slots

def step (env : Env) (h : Hosted) (e : Event) : Option (List OutgoingMessage × Hosted) :=
  if h.delivers e then
    (Pulse.step env h.server e).map fun r => (r.1, ⟨r.2, h.slotsAfter e⟩)
  else none

theorem step_happens {env : Env} {h h' : Hosted} {e : Event} {out : List OutgoingMessage}
    (hstep : step env h e = some (out, h')) :
    h.delivers e = true ∧ ∃ r, Happens env h.server e r ∧ out = r.1 ∧
      h' = ⟨r.2, h.slotsAfter e⟩ := by
  obtain ⟨hdelivers, hmap⟩ := Option.ite_none_right_eq_some.mp hstep
  obtain ⟨r, hr, heq⟩ := Option.map_eq_some_iff.mp hmap
  exact ⟨hdelivers, r, Pulse.step_happens hr, (congrArg Prod.fst heq).symm,
    (congrArg Prod.snd heq).symm⟩

end Hosted

end Catalyrst.Pulse
