import Catalyrst.Pulse.Identity
import Catalyrst.Pulse.Publishing

/-!
# Rejected peers

A rejected session is set to `PendingDisconnect` and disconnected by the transport
later. The handshake of a scene listener is taken from a pending session only; the
handshake of a player is taken from any session that is not authenticated, so also
from a rejected one.
-/

namespace Catalyrst.Pulse
open Catalyrst.Lib

namespace PulseServer

/-- A player handshake that passes every check: an attempt is left, its auth chain
verifies for a wallet that is not banned, it is no replay, and its initial state is
valid. -/
def passesChecks (env : Env) (server : PulseServer) (peer : U32) (req : HandshakeRequest) (nowMs : ℤ)
    (now : U32) : Bool :=
  (server.peers[peer]?.any fun st =>
    (tryRecordAttempt server.config.maxHandshakeAttempts st.handshakeAttempts).isSome) &&
  (match env.verifyHandshake req.authChain nowMs with
    | .error _ => false
    | .ok verified =>
      !server.banList.isBanned env.toLowercase verified.userAddress &&
      (server.replayPolicy.tryAdmit env.toLowercase now verified.userAddress
        verified.timestamp).1) &&
  req.initialState.all server.validateHandshakeInitialState

/-- `peer` sends a player handshake that passes every check. -/
def handshakeFrom (env : Env) (server : PulseServer) (peer : U32) : Event → Bool
  | .receive sender (some (some (.handshake req))) nowMs now =>
    decide (sender = peer) && passesChecks env server peer req nowMs now
  | _ => false

def isRejected (server : PulseServer) (peer : U32) : Prop :=
  ∃ st, server.peers[peer]? = some st ∧ st.connectionState = .pendingDisconnect

namespace isRejected

variable {env : Env} {server server' : PulseServer} {p q : U32}

theorem keeps (h : server.isRejected p) (hk : KeepsPeers server.peers server'.peers) :
    server'.isRejected p := by
  obtain ⟨st, hst, hstate⟩ := h
  obtain ⟨st', hst', hkeep⟩ := hk.find hst
  exact ⟨st', hst', hkeep.pendingDisconnect hstate⟩

theorem not_authenticated (h : server.isRejected p) : server.isAuthenticated p = false := by
  obtain ⟨st, hst, hstate⟩ := h
  rw [PulseServer.isAuthenticated, hst]
  simp [PeerState.isAuthenticated, hstate]

theorem cleanup (h : server.isRejected p)
    (hp : (cleanupPeer env server q).2.peers[p]?.isSome = true) :
    (cleanupPeer env server q).2.isRejected p := by
  obtain ⟨st, hst, hstate⟩ := h
  have hne := (isSome_cleanupPeer hp).1
  exact ⟨st, by rw [cleanupPeer_peers, if_neg hne, hst], hstate⟩

/-- Another peer is admitted, at most evicting this one. -/
theorem admission (h : server.isRejected p) {duplicateOf : Option U32} {w : Text}
    {f : PeerState → PeerState} {activates : Bool} (hne : q ≠ p)
    (hadmits : Admits env (evictDuplicate env server duplicateOf).2 server' q w f activates)
    (hp : server'.peers[p]?.isSome = true) : server'.isRejected p := by
  have hevicted : (evictDuplicate env server duplicateOf).2.isRejected p := by
    rw [hadmits.isSome] at hp
    cases duplicateOf with
    | none => exact h
    | some dup => exact (h.keeps (Keeps.releasePreAuth server dup).peers).cleanup hp
  obtain ⟨st, hst, hstate⟩ := hevicted
  exact ⟨st, by rw [hadmits.peers, OrdMap.find_modify, if_neg hne, hst], hstate⟩

end isRejected

/-- Where a check fails nobody is admitted. -/
theorem verifyAndAdmit_denies {env : Env} {server : PulseServer} {peer : U32} {authChain : Bytes}
    {now : U32} {nowMs : ℤ} {admitted : Admitted}
    (h : (verifyAndAdmit env server peer authChain now nowMs).1 = .ok admitted) :
    (server.peers[peer]?.any fun st =>
      (tryRecordAttempt server.config.maxHandshakeAttempts st.handshakeAttempts).isSome) = true ∧
    ∃ verified, env.verifyHandshake authChain nowMs = .ok verified ∧
      server.banList.isBanned env.toLowercase verified.userAddress = false ∧
      (server.replayPolicy.tryAdmit env.toLowercase now verified.userAddress
        verified.timestamp).1 = true := by
  unfold verifyAndAdmit at h
  split at h
  · cases h
  · rename_i st hst
    split at h
    · cases h
    · rename_i next hnext
      dsimp only at h
      split at h
      · cases h
      · rename_i verified hverified
        split at h
        · cases h
        · rename_i hbanned
          split at h
          · cases h
          · rename_i hreplay
            rw [Bool.not_eq_true] at hbanned
            rw [Bool.not_eq_true', Bool.not_eq_false] at hreplay
            exact ⟨by simp [hst, hnext], verified, hverified, hbanned, hreplay⟩

theorem passesChecks_of_admits {env : Env} {server : PulseServer} {peer : U32}
    {req : HandshakeRequest} {nowMs : ℤ} {now : U32} {admitted : Admitted}
    (h : admits (handleHandshake env server peer req nowMs now).1 = some admitted) :
    passesChecks env server peer req nowMs now = true := by
  rcases handleHandshake_cases env server peer req nowMs now with ⟨-, heq⟩ | ⟨hauth, hr⟩
  · rw [heq] at h
    cases h
  · have hverify := Publishes.verifyAndAdmit env server peer req.authChain now nowMs
    have hdenies := @verifyAndAdmit_denies env server peer req.authChain now nowMs
    have hspec := (verifyAndAdmit_spec env server peer req.authChain now nowMs hauth).2
    generalize PulseServer.verifyAndAdmit env server peer req.authChain now nowMs = v
      at hr hverify hdenies hspec
    generalize handleHandshake env server peer req nowMs now = r at hr h
    cases hr with
    | denied action server' =>
      rw [hspec.2] at h
      cases h
    | invalid a server' response => cases h
    | player a server' features hinit =>
      dsimp only at hverify
      obtain ⟨hattempt, verified, hverified, hbanned, hreplay⟩ := hdenies rfl
      have hvalid : req.initialState.all server.validateHandshakeInitialState = true := by
        cases hi : req.initialState with
        | none => rfl
        | some init =>
          simpa [validateHandshakeInitialState, hverify.encoder, hverify.config] using hinit init hi
      simp [passesChecks, hattempt, hverified, hbanned, hreplay, hvalid]
    | listener a server' listener features hnone =>
      obtain ⟨hattempt, verified, hverified, hbanned, hreplay⟩ := hdenies rfl
      simp [passesChecks, hattempt, hverified, hbanned, hreplay, hnone]

/-- A rejected peer is only admitted on a player handshake that passes every check. -/
theorem handshakeFrom_of_admits {env : Env} {server : PulseServer} {peer : U32}
    {decoded : Option (Option ClientMessage)} {nowMs : ℤ} {now : U32} {admitted : Admitted}
    (hrej : server.isRejected peer)
    (h : admits (server.dispatch env peer decoded nowMs now).1 = some admitted) :
    handshakeFrom env server peer (.receive peer decoded nowMs now) = true := by
  unfold dispatch at h
  split at h
  · dsimp only at h
    split at h <;> cases h
  · cases h
  · rename_i msg
    split at h
    · rw [admits_applyGameplay] at h
      cases h
    · cases h
    · simp only [handshakeFrom, decide_true, Bool.true_and]
      exact passesChecks_of_admits h
    · -- the listener's handshake wants a pending session
      obtain ⟨st, hst, hstate⟩ := hrej
      unfold handleSceneListenerHandshake at h
      rw [if_pos] at h
      · cases h
      · simp [hst, hstate]
    · split at h
      · rw [admits_applyGameplay] at h
        cases h
      · cases h

namespace isRejected

variable {env : Env} {server server' : PulseServer} {p q : U32}

theorem apply (h : server.isRejected p) {r : Action × PulseServer}
    (hd : Dispatched env server q r) (hown : q = p → admits r.1 = none) (now : U32)
    (hp : (r.2.apply env q r.1 now).2.peers[p]?.isSome = true) :
    (r.2.apply env q r.1 now).2.isRejected p := by
  have hr := h.keeps hd.keeps.peers
  have happlied := r.2.apply_cases env q r.1 now
  obtain ⟨action, s⟩ := r
  dsimp only at hr happlied hown hp ⊢
  generalize s.apply env q action now = r' at happlied hp ⊢
  cases happlied with
  | silent => exact hr
  | reply message => exact hr
  | reject reply reason => exact hr.keeps (Keeps.releasePreAuth s q).peers
  | player admitted initialState features hsome =>
    have hne : q ≠ p := fun heq => nomatch hown heq
    exact hr.admission hne (admitPlayer_spec _ _ _ _ _ _ _) hp
  | listener admitted listener features hsome =>
    have hne : q ≠ p := fun heq => nomatch hown heq
    exact hr.admission hne (admitListener_spec _ _ _ _ _ _) hp

theorem foldl_reap {expired : List (U32 × ExpiredReason)} {r : List OutgoingMessage × PulseServer}
    (h : r.2.isRejected p)
    (hp : (expired.foldl (reap env) r).2.peers[p]?.isSome = true) :
    (expired.foldl (reap env) r).2.isRejected p := by
  induction expired generalizing r with
  | nil => exact h
  | cons e expired ih =>
    refine ih ?_ hp
    have hnext : (reap env r e).2.peers[p]?.isSome = true := isSome_foldl_reap hp
    unfold reap at hnext ⊢
    dsimp only at hnext ⊢
    split at hnext
    · rename_i heq
      rw [if_pos heq]
      exact (h.keeps (Keeps.releasePreAuth r.2 e.1).peers).cleanup hnext
    · rename_i hne
      rw [if_neg hne]
      exact h.cleanup hnext

end isRejected

end PulseServer

open PulseServer in
/-- A step that leaves the session of a rejected peer in place and does not let in its
handshake leaves it rejected. -/
theorem rejected_step {env : Env} {h h' : Hosted} {p : U32} {e : Event} (hinv : h.Inv env)
    (hrej : h.server.isRejected p) (hlate : handshakeFrom env h.server p e = false)
    (hstep : Hosted.next env h e = some h') (hp : h'.server.peers[p]?.isSome = true) :
    h'.server.isRejected p := by
  obtain ⟨⟨out, h''⟩, hhosted, rfl⟩ := Option.map_eq_some_iff.mp hstep
  obtain ⟨hdelivers, r, hhappens, -, rfl⟩ := Hosted.step_happens hhosted
  cases hhappens with
  | connect peer ip now hlt =>
    obtain ⟨st, hst, hstate⟩ := hrej
    have hne : peer ≠ p := by
      rintro rfl
      rw [hinv.unconnected (by simpa [Hosted.delivers] using hdelivers)] at hst
      cases hst
    refine ⟨st, ?_, hstate⟩
    rw [(h.server.connect_spec peer ip now).2.2.2]
    split
    · simpa [hne] using hst
    · exact hst
  | receive peer decoded nowMs now hlt =>
    refine hrej.apply (h.server.dispatch_spec env peer decoded nowMs now) (fun heq => ?_) now hp
    subst heq
    cases hadmits : admits (h.server.dispatch env peer decoded nowMs now).1 with
    | none => rfl
    | some admitted =>
      rw [handshakeFrom_of_admits hrej hadmits] at hlate
      cases hlate
  | corrupt peer now hlt =>
    exact hrej.keeps (h.server.corrupt_keeps peer now).peers
  | disconnect peer hlt =>
    exact isRejected.cleanup (hrej.keeps (Keeps.disconnect h.server peer).peers) hp
  | tick now input hvalid =>
    have hkeeps := (foldl_tickObserver
      { h.server with tickCounter := h.server.tickCounter + 1 } now input input.order
      ⟨h.server.peers, h.server.observerViews, [], [], ∅, ∅⟩ hinv.sound.viewers).1
    exact isRejected.foldl_reap (hrej.keeps hkeeps) hp

/-- As long as the session of a rejected peer lasts and the peer sends no player
handshake that passes every check, the peer is not authenticated. -/
theorem rejected_not_authenticated (env : Env) (config : PulseConfig) (before after : List Event)
    (h h' : Hosted) (p : U32)
    (hbefore : Machine.run (Hosted.next env) (Hosted.new config) before = some h)
    (hrej : h.server.isRejected p)
    (hmeets : Machine.Meets (Hosted.next env) (fun s e => s.server.peers[p]?.isSome = true ∧
      PulseServer.handshakeFrom env s.server p e = false) h after)
    (hafter : Machine.run (Hosted.next env) h after = some h')
    (hlast : h'.server.peers[p]?.isSome = true) : h'.server.isAuthenticated p = false := by
  have hinv := Machine.run_invariant_of_meets (Hosted.next env)
    (P := fun s => s.Inv env ∧ (s.server.peers[p]?.isSome = true → s.server.isRejected p))
    (fun s e t hs hok hstep => by
      refine ⟨?_, rejected_step hs.1 (hs.2 hok.1) hok.2 hstep⟩
      obtain ⟨r, hr, rfl⟩ := Option.map_eq_some_iff.mp hstep
      exact Hosted.step_inv env hs.1 hr)
    after h h' hmeets hafter ⟨Hosted.run_inv env config before hbefore, fun _ => hrej⟩
  exact (hinv.2 hlast).not_authenticated

/-! A peer shakes hands with an initial state on no parcel, and then once more. -/

def strayState : PlayerState := { stillState with parcelIndex := -1 }

def shakeHands (peer : U32) (chain : Bytes) (state : Option PlayerState) : Event :=
  .receive peer (some (some (.handshake ⟨chain, state.map fun s => ⟨some s, none, none, none⟩, 0⟩)))
    0 1

/-- The second handshake is just as bad. -/
theorem rejected_not_authenticated_stray :
    ∃ h h', Machine.run (Hosted.next Env.sample) (Hosted.new PulseConfig.default)
        [.connect 0 [] 0, shakeHands 0 [65, 49] (some strayState)] = some h ∧
      Machine.run (Hosted.next Env.sample) h [shakeHands 0 [65, 50] (some strayState)] = some h' ∧
      h'.server.isAuthenticated 0 = false := by
  have hboth : ((Machine.run (Hosted.next Env.sample) (Hosted.new PulseConfig.default)
      [.connect 0 [] 0, shakeHands 0 [65, 49] (some strayState)]).any fun h =>
        decide (h.server.peers[(0 : U32)]?.map PeerState.connectionState = some .pendingDisconnect) &&
        decide (PulseServer.handshakeFrom Env.sample h.server 0
          (shakeHands 0 [65, 50] (some strayState)) = false) &&
        ((Machine.run (Hosted.next Env.sample) h [shakeHands 0 [65, 50] (some strayState)]).any
          fun h' => h'.server.peers[(0 : U32)]?.isSome)) = true := by decide
  obtain ⟨h, hh, hrest⟩ := (Option.any_eq_true _ _).mp hboth
  simp only [Bool.and_eq_true, decide_eq_true_eq] at hrest
  obtain ⟨⟨hstate, hlate⟩, hsecond⟩ := hrest
  obtain ⟨h', hh', hlast⟩ := (Option.any_eq_true _ _).mp hsecond
  obtain ⟨st, hst, hpending⟩ := Option.map_eq_some_iff.mp hstate
  refine ⟨h, h', hh, hh', rejected_not_authenticated Env.sample PulseConfig.default _
    [shakeHands 0 [65, 50] (some strayState)] h h' 0 hh ⟨st, hst, hpending⟩
    ⟨⟨by simp [hst], hlate⟩, fun _ _ => trivial⟩ hh' hlast⟩

/-- The second handshake has no initial state: the rejected peer is authenticated. -/
theorem rejected_becomes_authenticated :
    ¬ ∀ (env : Env) (config : PulseConfig) (before after : List Event) (h h' : Hosted) (p : U32),
      Machine.run (Hosted.next env) (Hosted.new config) before = some h →
      h.server.isRejected p →
      Machine.Meets (Hosted.next env) (fun s _ => s.server.peers[p]?.isSome = true) h after →
      Machine.run (Hosted.next env) h after = some h' →
      h'.server.peers[p]?.isSome = true → h'.server.isAuthenticated p = false := by
  have hboth : ((Machine.run (Hosted.next Env.sample) (Hosted.new PulseConfig.default)
      [.connect 0 [] 0, shakeHands 0 [65, 49] (some strayState)]).any fun h =>
        decide (h.server.peers[(0 : U32)]?.map PeerState.connectionState = some .pendingDisconnect) &&
        ((Machine.run (Hosted.next Env.sample) h [shakeHands 0 [65, 50] none]).any
          fun h' => h'.server.peers[(0 : U32)]?.isSome && h'.server.isAuthenticated 0)) = true := by
    decide
  obtain ⟨h, hh, hrest⟩ := (Option.any_eq_true _ _).mp hboth
  rw [Bool.and_eq_true, decide_eq_true_eq] at hrest
  obtain ⟨hstate, hsecond⟩ := hrest
  obtain ⟨h', hh', hlast⟩ := (Option.any_eq_true _ _).mp hsecond
  rw [Bool.and_eq_true] at hlast
  obtain ⟨st, hst, hpending⟩ := Option.map_eq_some_iff.mp hstate
  intro hall
  have hno := hall Env.sample PulseConfig.default _ [shakeHands 0 [65, 50] none] h h' 0 hh
    ⟨st, hst, hpending⟩ ⟨by simp [hst], fun _ _ => trivial⟩ hh' hlast.1
  rw [hlast.2] at hno
  cases hno

end Catalyrst.Pulse
