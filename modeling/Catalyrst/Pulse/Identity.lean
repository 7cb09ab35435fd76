import Catalyrst.Lib.Machine
import Catalyrst.Pulse.Sessions

/-!
# One session per wallet

The two maps of the identity board name the same sessions, and these are the
authenticated ones. An admission first takes the wallet away from the peer that
still has it; a clean-up takes away what belongs to its own peer.
-/

namespace Catalyrst.Pulse
open Catalyrst.Lib

namespace PulseServer

/-- Active slots and slots with views are authenticated; the wallets by peer are
those of the authenticated sessions, and the peers by wallet are their inverse. -/
structure Sound (env : Env) (server : PulseServer) : Prop where
  active : ∀ x, (server.board.ring x).active = true → server.isAuthenticated x = true
  viewers : Viewers server.peers server.observerViews
  wallets : ∀ p w, server.identity.walletByPeer p = some w →
    ∃ st, server.peers[p]? = some st ∧ st.isAuthenticated = true ∧ st.walletId = some w
  sessions : ∀ (p : U32) (st : PeerState), server.peers[p]? = some st →
    st.isAuthenticated = true → ∃ w, st.walletId = some w ∧
      server.identity.walletByPeer p = some w ∧
      server.identity.peerByWallet env.toLowercase w = some p
  owners : ∀ (key : Text) (p : U32), server.identity.peersByWallet[key]? = some p →
    ∃ w, server.identity.walletByPeer p = some w ∧ env.toLowercase w = key

namespace Sound

variable {env : Env} {server server' : PulseServer} {p : U32}

theorem new (env : Env) (config : PulseConfig) : Sound env (PulseServer.new config) := by
  refine ⟨fun x hx => ?_, fun o ho => ?_, fun p w hw => ?_, fun p st hst => ?_, fun k p hp => ?_⟩
  · simp [PulseServer.new, SnapshotBoard.new, SnapshotBoard.ring, PeerRing.new] at hx
  · simp [PulseServer.new] at ho
  · simp [PulseServer.new, IdentityBoard.new, IdentityBoard.walletByPeer] at hw
  · simp [PulseServer.new] at hst
  · simp [PulseServer.new, IdentityBoard.new] at hp

/-- A wallet has one peer. -/
theorem peerByWallet (h : Sound env server) {w : Text} (hw : server.identity.walletByPeer p = some w) :
    server.identity.peerByWallet env.toLowercase w = some p := by
  obtain ⟨st, hst, hauth, hwallet⟩ := h.wallets p w hw
  obtain ⟨w', hwallet', _, hpeer⟩ := h.sessions p st hst hauth
  rw [hwallet] at hwallet'
  rw [Option.some.inj hwallet']
  exact hpeer

theorem keeps (h : Sound env server) (hk : Keeps server server') : Sound env server' := by
  refine ⟨fun x hx => ?_, ?_, fun q w hw => ?_, fun q st hst hauth => ?_, fun k q hq => ?_⟩
  · rw [hk.isAuthenticated]
    exact h.active x ((hk.active x).symm.trans hx)
  · rw [hk.observerViews]
    exact h.viewers.keeps hk.peers
  · rw [hk.identity] at hw
    obtain ⟨st, hst, hauth, hwallet⟩ := h.wallets q w hw
    obtain ⟨st', hst', hkeep⟩ := hk.peers.find hst
    exact ⟨st', hst', hkeep.isAuthenticated.trans hauth, hkeep.walletId.trans hwallet⟩
  · obtain ⟨st₀, hst₀, hkeep⟩ := hk.peers.find_rev hst
    rw [hk.identity, hkeep.walletId]
    exact h.sessions q st₀ hst₀ (hkeep.isAuthenticated.symm.trans hauth)
  · rw [hk.identity] at hq ⊢
    exact h.owners k q hq

/-! ### Clean-ups -/

theorem isAuthenticated_cleanup (env : Env) (server : PulseServer) (p q : U32) :
    (cleanupPeer env server p).2.isAuthenticated q =
      (decide (p ≠ q) && server.isAuthenticated q) := by
  rw [cleanupPeer_server]
  simp only [PulseServer.isAuthenticated, OrdMap.find_erase]
  split
  · rename_i hq
    simp [hq]
  · rename_i hq
    simp [hq]

/-- The other peers keep their wallets both ways. -/
theorem peersByWallet_remove {identity : IdentityBoard} {q : U32} (hq : p ≠ q) {key : Text}
    (hkey : identity.peersByWallet[key]? = some q) :
    (identity.remove env.toLowercase p).peersByWallet[key]? = some q := by
  unfold IdentityBoard.remove
  split
  · exact hkey
  · dsimp only
    split
    · rename_i w hw hmine
      rw [OrdMap.find_erase, if_neg]
      · exact hkey
      · intro heq
        rw [heq, hkey] at hmine
        exact hq (Option.some.inj hmine).symm
    · exact hkey

theorem of_peersByWallet_remove (h : Sound env server) {key : Text} {q : U32}
    (hkey : (server.identity.remove env.toLowercase p).peersByWallet[key]? = some q) :
    p ≠ q ∧ server.identity.peersByWallet[key]? = some q := by
  unfold IdentityBoard.remove at hkey
  split at hkey
  · rename_i hnone
    refine ⟨fun heq => ?_, hkey⟩
    obtain ⟨w, hw, _⟩ := h.owners key q hkey
    rw [← heq, IdentityBoard.walletByPeer, hnone] at hw
    cases hw
  · rename_i w hw
    have hmine : server.identity.peersByWallet[env.toLowercase w]? = some p := h.peerByWallet hw
    dsimp only at hkey
    rw [if_pos hmine, OrdMap.find_erase] at hkey
    split at hkey
    · cases hkey
    · rename_i hne
      refine ⟨fun heq => hne ?_, hkey⟩
      -- the only wallet of `p` is `w`
      obtain ⟨w', hw', hlower⟩ := h.owners key q hkey
      rw [← heq, IdentityBoard.walletByPeer, hw] at hw'
      rw [← hlower, Option.some.inj hw']

theorem cleanup (h : Sound env server) (p : U32) : Sound env (cleanupPeer env server p).2 := by
  have hauth := isAuthenticated_cleanup env server p
  refine ⟨fun x hx => ?_, fun o ho => ?_, fun q w hw => ?_, fun q st hst hst' => ?_, fun k q hq => ?_⟩
  · rw [cleanupPeer_server] at hx
    rw [hauth]
    simp only [SnapshotBoard.active_clearActive, Bool.and_eq_true] at hx ⊢
    exact ⟨hx.1, h.active x hx.2⟩
  · rw [cleanupPeer_server] at ho
    simp only [OrdMap.find_erase] at ho
    change (cleanupPeer env server p).2.isAuthenticated o = true
    rw [hauth]
    split at ho
    · cases ho
    · rename_i hne
      simp only [hne, ne_eq, not_false_eq_true, decide_true, Bool.true_and]
      exact h.viewers o ho
  · rw [cleanupPeer_server] at hw ⊢
    simp only [IdentityBoard.walletByPeer_remove, OrdMap.find_erase] at hw ⊢
    split at hw
    · cases hw
    · rename_i hne
      simpa only [hne, if_false] using h.wallets q w hw
  · rw [cleanupPeer_server] at hst ⊢
    simp only [IdentityBoard.walletByPeer_remove, OrdMap.find_erase] at hst ⊢
    split at hst
    · cases hst
    · rename_i hne
      obtain ⟨w, hwallet, hw, hpeer⟩ := h.sessions q st hst hst'
      exact ⟨w, hwallet, by rw [if_neg hne, hw], peersByWallet_remove hne hpeer⟩
  · rw [cleanupPeer_server] at hq ⊢
    obtain ⟨hne, hkey⟩ := h.of_peersByWallet_remove hq
    obtain ⟨w, hw, hlower⟩ := h.owners k q hkey
    exact ⟨w, by simp only [IdentityBoard.walletByPeer_remove, if_neg hne, hw], hlower⟩

/-! ### Admissions -/

/-- Once the other session of the wallet is gone nobody has it. -/
theorem evict (h : Sound env server) (w : Text) (hauth : server.isAuthenticated p = false) :
    let s := (evictDuplicate env server (otherSession env server.identity p w)).2
    Sound env s ∧ s.isAuthenticated p = false ∧ s.peers[p]? = server.peers[p]? ∧
      s.identity.peerByWallet env.toLowercase w = none := by
  have hne := otherSession_ne env server.identity p w
  cases hother : otherSession env server.identity p w with
  | none =>
    refine ⟨h, hauth, rfl, ?_⟩
    cases hpeer : server.identity.peerByWallet env.toLowercase w with
    | none => exact hpeer
    | some q =>
      -- the wallet would be in use by `p` itself, which is not authenticated
      simp only [otherSession, hpeer, Option.filter, decide_not, Bool.not_eq_true',
        decide_eq_false_iff_not, ite_eq_right_iff, reduceCtorEq, imp_false, not_not] at hother
      obtain ⟨w', hw', _⟩ := h.owners _ q hpeer
      obtain ⟨st, hst, hst', _⟩ := h.wallets q w' hw'
      rw [hother] at hst
      simp [PulseServer.isAuthenticated, hst, hst'] at hauth
  | some q =>
    have hqp : q ≠ p := fun heq => hne (heq ▸ hother)
    have hpeer : server.identity.peersByWallet[env.toLowercase w]? = some q :=
      (Option.filter_eq_some_iff.mp hother).1
    have hrelease := Keeps.releasePreAuth server q
    have hs := h.keeps hrelease
    refine ⟨hs.cleanup q, ?_, ?_, ?_⟩
    · simp only [evictDuplicate]
      rw [isAuthenticated_cleanup, hrelease.isAuthenticated, hauth, Bool.and_false]
    · simp only [evictDuplicate]
      rw [cleanupPeer_server]
      simp only [OrdMap.find_erase, hqp, if_false]
      unfold releasePreAuth
      split <;> rfl
    · simp only [evictDuplicate]
      rw [cleanupPeer_server]
      dsimp only
      rw [hrelease.identity]
      unfold IdentityBoard.peerByWallet
      cases hgone : (server.identity.remove env.toLowercase q).peersByWallet[env.toLowercase w]? with
      | none => rfl
      | some r =>
        obtain ⟨hqr, hkey⟩ := h.of_peersByWallet_remove hgone
        exact absurd (Option.some.inj (hpeer.symm.trans hkey)) hqr

/-- A session is authenticated for a wallet that nobody has. -/
theorem admission (h : Sound env server) {w : Text} {f : PeerState → PeerState} {activates : Bool}
    (hadmits : Admits env server server' p w f activates)
    (hfree : server.identity.peerByWallet env.toLowercase w = none)
    (hauth : server.isAuthenticated p = false) (hpeer : server.peers[p]?.isSome = true) :
    Sound env server' := by
  obtain ⟨st₀, hst₀⟩ := Option.isSome_iff_exists.mp hpeer
  have hpeers : ∀ q : U32, server'.peers[q]? = if p = q then some (f st₀) else server.peers[q]? := by
    intro q
    rw [hadmits.peers, OrdMap.find_modify]
    split
    · rename_i heq
      rw [← heq, hst₀]
      rfl
    · rfl
  have hst : (f st₀).isAuthenticated = true := decide_eq_true (hadmits.authenticated st₀).1
  have hwallet : (f st₀).walletId = some w := (hadmits.authenticated st₀).2
  have hidentity := hadmits.identity
  have hviews := hadmits.observerViews
  have hstill : ∀ q, server.isAuthenticated q = true → server'.isAuthenticated q = true := by
    intro q hq
    simp only [PulseServer.isAuthenticated, hpeers]
    split
    · exact hst
    · exact hq
  have hnone : server.identity.walletByPeer p = none := by
    cases hw : server.identity.walletByPeer p with
    | none => rfl
    | some w' =>
      obtain ⟨st', hst', hauth', _⟩ := h.wallets p w' hw
      simp [PulseServer.isAuthenticated, hst', hauth'] at hauth
  refine ⟨fun x hx => ?_, fun o ho => ?_, fun q u hu => ?_, fun q t ht ht' => ?_, fun k q hq => ?_⟩
  · rw [hadmits.active, Bool.or_eq_true, Bool.and_eq_true, decide_eq_true_eq] at hx
    rcases hx with ⟨_, rfl⟩ | hx
    · simpa [PulseServer.isAuthenticated, hpeers] using hst
    · exact hstill x (h.active x hx)
  · rw [hviews] at ho
    exact hstill o (h.viewers o ho)
  · rw [hidentity, IdentityBoard.walletByPeer_set] at hu
    rw [hpeers]
    split at hu
    · rename_i heq
      rw [← Option.some.inj hu]
      exact ⟨f st₀, if_pos heq, hst, hwallet⟩
    · rename_i hne
      rw [if_neg hne]
      exact h.wallets q u hu
  · rw [hpeers] at ht
    rw [hidentity, IdentityBoard.walletByPeer_set]
    split at ht
    · rename_i heq
      rw [← heq, ← Option.some.inj ht]
      exact ⟨w, hwallet, if_pos rfl, by simp [IdentityBoard.set, IdentityBoard.peerByWallet]⟩
    · rename_i hne
      obtain ⟨u, hu, hq, hpeer⟩ := h.sessions q t ht ht'
      refine ⟨u, hu, by rw [if_neg hne, hq], ?_⟩
      have hkey : env.toLowercase w ≠ env.toLowercase u := by
        intro heq
        simp only [IdentityBoard.peerByWallet] at hfree hpeer
        rw [heq, hpeer] at hfree
        cases hfree
      simpa [IdentityBoard.set, IdentityBoard.peerByWallet, hkey] using hpeer
  · rw [hidentity] at hq ⊢
    simp only [IdentityBoard.set, OrdMap.find_insert] at hq
    rw [IdentityBoard.walletByPeer_set]
    split at hq
    · rename_i heq
      rw [← Option.some.inj hq]
      exact ⟨w, if_pos rfl, heq⟩
    · obtain ⟨u, hu, hlower⟩ := h.owners k q hq
      refine ⟨u, ?_, hlower⟩
      split
      · rename_i heq
        rw [← heq, hnone] at hu
        cases hu
      · exact hu

theorem apply (h : Sound env server) {r : Action × PulseServer}
    (hd : Dispatched env server p r) (now : U32) : Sound env (r.2.apply env p r.1 now).2 := by
  have hs := h.keeps hd.keeps
  have hadmission : ∀ (admitted : Admitted) (server' : PulseServer) (f : PeerState → PeerState)
      (activates : Bool), PulseServer.admits r.1 = some admitted →
      r.2.peers[p]?.isSome = true →
      Admits env (evictDuplicate env r.2 admitted.duplicateOf).2 server' p admitted.wallet f
        activates → Sound env server' := by
    intro admitted server' f activates hadmits hsome hspec
    obtain ⟨hauth, hdup⟩ := hd.admits admitted hadmits
    rw [← hd.keeps.identity] at hdup
    obtain ⟨hevict, hauth', hpeer, hfree⟩ := hs.evict admitted.wallet
      ((hd.keeps.isAuthenticated p).trans hauth)
    rw [hdup] at hspec
    refine hevict.admission hspec hfree hauth' ?_
    rw [hpeer]
    exact hsome
  have happlied := r.2.apply_cases env p r.1 now
  obtain ⟨action, s⟩ := r
  dsimp only at hs hadmission happlied ⊢
  generalize s.apply env p action now = r' at happlied ⊢
  cases happlied with
  | silent => exact hs
  | reply message => exact hs
  | reject reply reason => exact hs.keeps (Keeps.releasePreAuth s p)
  | player admitted initialState features hsome =>
    exact hadmission admitted _ _ _ rfl hsome (admitPlayer_spec _ _ _ _ _ _ _)
  | listener admitted listener features hsome =>
    exact hadmission admitted _ _ _ rfl hsome (admitListener_spec _ _ _ _ _ _)

/-- The connect itself, on a slot without a session. -/
theorem connect (h : Sound env server) (hnone : server.peers[p]? = none) (ip : Text) (now : U32) :
    Sound env (server.connect p ip now).2 := by
  obtain ⟨hidentity, hviews, hboard, hpeers⟩ := connect_spec server p ip now
  -- the sessions there were are still there
  have hfind : ∀ (q : U32) (st : PeerState), server.peers[q]? = some st →
      (server.connect p ip now).2.peers[q]? = some st := by
    intro q st hst
    have hne : p ≠ q := by
      rintro rfl
      rw [hnone] at hst
      cases hst
    rw [hpeers]
    split
    · simpa [hne] using hst
    · exact hst
  have hauth : ∀ q, server.isAuthenticated q = true →
      (server.connect p ip now).2.isAuthenticated q = true := by
    intro q hq
    obtain ⟨st, hst⟩ := exists_session hq
    unfold PulseServer.isAuthenticated at hq ⊢
    rw [hfind q st hst]
    rwa [hst] at hq
  refine ⟨fun x hx => ?_, fun o ho => ?_, fun q w hw => ?_, fun q st hst hst' => ?_, fun k q hq => ?_⟩
  · rw [hboard] at hx
    exact hauth x (h.active x hx)
  · rw [hviews] at ho
    exact hauth o (h.viewers o ho)
  · rw [hidentity] at hw
    obtain ⟨st, hst, hrest⟩ := h.wallets q w hw
    exact ⟨st, hfind q st hst, hrest⟩
  · rw [hidentity]
    rw [hpeers] at hst
    split at hst
    · rw [OrdMap.find_insert] at hst
      split at hst
      · rw [← Option.some.inj hst] at hst'
        simp [PeerState.isAuthenticated, PeerState.new] at hst'
      · exact h.sessions q st hst hst'
    · exact h.sessions q st hst hst'
  · rw [hidentity] at hq ⊢
    exact h.owners k q hq

/-- The expired peers go one after the other. -/
theorem foldl_reap (expired : List (U32 × ExpiredReason)) (r : List OutgoingMessage × PulseServer)
    (h : Sound env r.2) : Sound env (expired.foldl (reap env) r).2 := by
  induction expired generalizing r with
  | nil => exact h
  | cons e expired ih =>
    refine ih (reap env r e) ?_
    unfold reap
    dsimp only
    split
    · exact (h.keeps (Keeps.releasePreAuth r.2 e.1)).cleanup e.1
    · exact h.cleanup e.1

theorem runTick (h : Sound env server) (now : U32) (input : TickInput) :
    Sound env (server.runTick env now input).2 := by
  unfold PulseServer.runTick
  dsimp only
  obtain ⟨hkeeps, hviewers⟩ := foldl_tickObserver
    { server with tickCounter := server.tickCounter + 1 } now input input.order
    ⟨server.peers, server.observerViews, [], [], ∅, ∅⟩ h.viewers
  have hs : Sound env { server with
      tickCounter := server.tickCounter + 1
      peers := (PulseServer.simulateTick { server with
        tickCounter := server.tickCounter + 1 } now input).peers } :=
    h.keeps ⟨hkeeps, rfl, rfl, fun _ => rfl⟩
  have hstart : Sound env { server with
      tickCounter := server.tickCounter + 1
      peers := (PulseServer.simulateTick { server with
        tickCounter := server.tickCounter + 1 } now input).peers
      observerViews := (PulseServer.simulateTick { server with
        tickCounter := server.tickCounter + 1 } now input).observerViews } :=
    ⟨hs.active, Viewers.keeps hviewers hkeeps, hs.wallets, hs.sessions, hs.owners⟩
  exact foldl_reap _ _ hstart

end Sound

end PulseServer

/-! ### Runs -/

namespace Hosted

/-- The server is sound, and every session is on a slot in use. -/
structure Inv (env : Env) (h : Hosted) : Prop where
  sound : h.server.Sound env
  connected : ∀ p : U32, h.server.peers[p]?.isSome = true →
    p ∈ h.slots ∧ p.val < DEFAULT_MAX_PEERS

theorem inv_new (env : Env) (config : PulseConfig) : Inv env (Hosted.new config) :=
  ⟨PulseServer.Sound.new env config, fun p hp => by simp [Hosted.new, PulseServer.new] at hp⟩

theorem Inv.unconnected {env : Env} {h : Hosted} (hinv : Inv env h) {peer : U32}
    (hfree : peer ∉ h.slots) : h.server.peers[peer]? = none := by
  cases hpeer : h.server.peers[peer]? with
  | none => rfl
  | some st => exact absurd (hinv.connected peer (by simp [hpeer])).1 hfree

theorem isSome_connect {server : PulseServer} {peer now q : U32} {ip : Text}
    (h : (server.connect peer ip now).2.peers[q]?.isSome = true) :
    server.peers[q]?.isSome = true ∨ (server.connect peer ip now).1 = true ∧ peer = q := by
  rw [(server.connect_spec peer ip now).2.2.2] at h
  split at h
  · rename_i hok
    rw [OrdMap.find_insert] at h
    split at h
    · rename_i heq
      exact Or.inr ⟨hok, heq⟩
    · exact Or.inl h
  · exact Or.inl h

theorem step_inv (env : Env) {h h' : Hosted} {e : Event} {out : List OutgoingMessage}
    (hinv : Inv env h) (hstep : step env h e = some (out, h')) : Inv env h' := by
  obtain ⟨hdelivers, r, hhappens, -, rfl⟩ := step_happens hstep
  cases hhappens with
  | connect peer ip now hlt =>
    have hnone := hinv.unconnected (by simpa [delivers] using hdelivers)
    refine ⟨hinv.sound.connect hnone ip now, fun q hq => ?_⟩
    rcases isSome_connect hq with hq | ⟨hok, rfl⟩
    · obtain ⟨hin, hq⟩ := hinv.connected q hq
      refine ⟨?_, hq⟩
      simp only [slotsAfter]
      split
      · exact Finset.mem_insert_of_mem hin
      · exact hin
    · exact ⟨by simp [slotsAfter, hok], hlt⟩
  | receive peer decoded nowMs now hlt =>
    have hd := h.server.dispatch_spec env peer decoded nowMs now
    refine ⟨hinv.sound.apply hd now, fun q hq => hinv.connected q ?_⟩
    rw [← hd.keeps.peers.isSome]
    exact PulseServer.isSome_apply hq
  | corrupt peer now hlt =>
    have hkeeps := h.server.corrupt_keeps peer now
    refine ⟨hinv.sound.keeps hkeeps, fun q hq => hinv.connected q ?_⟩
    rw [← hkeeps.peers.isSome]
    exact hq
  | disconnect peer hlt =>
    have hkeeps := PulseServer.Keeps.disconnect h.server peer
    refine ⟨(hinv.sound.keeps hkeeps).cleanup peer, fun q hq => ?_⟩
    obtain ⟨hne, hq⟩ := PulseServer.isSome_cleanupPeer hq
    obtain ⟨hin, hlt'⟩ := hinv.connected q (by rwa [← hkeeps.peers.isSome])
    exact ⟨Finset.mem_erase.mpr ⟨Ne.symm hne, hin⟩, hlt'⟩
  | tick now input hvalid =>
    refine ⟨hinv.sound.runTick now input, fun q hq => hinv.connected q ?_⟩
    have hkeeps := (PulseServer.foldl_tickObserver
      { h.server with tickCounter := h.server.tickCounter + 1 } now input input.order
      ⟨h.server.peers, h.server.observerViews, [], [], ∅, ∅⟩ hinv.sound.viewers).1
    rw [← hkeeps.isSome]
    exact PulseServer.isSome_foldl_reap hq

/-- The transition without what is sent. -/
def next (env : Env) (h : Hosted) (e : Event) : Option Hosted := (h.step env e).map Prod.snd

theorem run_inv (env : Env) (config : PulseConfig) (events : List Event) {h : Hosted}
    (hrun : Machine.run (next env) (Hosted.new config) events = some h) : Inv env h := by
  refine Machine.run_invariant (next env) (fun s e t hs hstep => ?_) events (Hosted.new config) h hrun
    (inv_new env config)
  obtain ⟨r, hr, rfl⟩ := Option.map_eq_some_iff.mp hstep
  exact step_inv env hs hr

end Hosted

/-- In every reachable state of the server the two maps of the identity board agree,
the authenticated sessions are those they name, and no two of them share a wallet;
the clean-up of one peer leaves every other peer's mapping as it was. -/
theorem one_session_per_wallet (env : Env) (config : PulseConfig) (events : List Event) (h : Hosted)
    (hrun : Machine.run (Hosted.next env) (Hosted.new config) events = some h) :
    (∀ p w, h.server.identity.walletByPeer p = some w ↔
      ∃ st, h.server.peers[p]? = some st ∧ st.isAuthenticated = true ∧ st.walletId = some w ∧
        h.server.identity.peerByWallet env.toLowercase w = some p) ∧
    (∀ p w, h.server.identity.peerByWallet env.toLowercase w = some p →
      ∃ w', h.server.identity.walletByPeer p = some w' ∧
        env.toLowercase w' = env.toLowercase w) ∧
    (∀ (p q : U32) (st st' : PeerState), h.server.peers[p]? = some st →
      h.server.peers[q]? = some st' → st.isAuthenticated = true → st'.isAuthenticated = true →
      st.walletId.map env.toLowercase = st'.walletId.map env.toLowercase → p = q) ∧
    (∀ p q w, p ≠ q → h.server.identity.walletByPeer p = some w →
      (h.server.onDisconnect env q).2.identity.walletByPeer p = some w ∧
      (h.server.onDisconnect env q).2.identity.peerByWallet env.toLowercase w = some p) := by
  have hs := (Hosted.run_inv env config events hrun).sound
  refine ⟨fun p w => ⟨fun hw => ?_, ?_⟩, fun p w hp => hs.owners _ p hp,
    fun p q st st' hp hq hst hst' heq => ?_, fun p q w hne hw => ?_⟩
  · obtain ⟨st, hst, hauth, hwallet⟩ := hs.wallets p w hw
    exact ⟨st, hst, hauth, hwallet, hs.peerByWallet hw⟩
  · rintro ⟨st, hst, hauth, hwallet, _⟩
    obtain ⟨w', hwallet', hw', _⟩ := hs.sessions p st hst hauth
    rwa [← Option.some.inj (hwallet.symm.trans hwallet')] at hw'
  · obtain ⟨w, hw, _, hpeer⟩ := hs.sessions p st hp hst
    obtain ⟨w', hw', _, hpeer'⟩ := hs.sessions q st' hq hst'
    rw [hw, hw', Option.map_some, Option.map_some, Option.some.injEq] at heq
    unfold IdentityBoard.peerByWallet at hpeer hpeer'
    rw [heq, hpeer'] at hpeer
    exact (Option.some.inj hpeer).symm
  · have hrelease := PulseServer.Keeps.releasePreAuth h.server q
    unfold PulseServer.onDisconnect
    dsimp only
    rw [PulseServer.cleanupPeer_server]
    dsimp only
    rw [hrelease.identity]
    refine ⟨?_, PulseServer.Sound.peersByWallet_remove (Ne.symm hne) (hs.peerByWallet hw)⟩
    rw [IdentityBoard.walletByPeer_remove, if_neg (Ne.symm hne), hw]

/-- A wallet that comes back in other letters evicts its first session, whose
disconnect then arrives late. -/
theorem one_session_per_wallet_evicted :
    ∃ h, Machine.run (Hosted.next Env.sample) (Hosted.new PulseConfig.default)
        (playerJoins 0 [65, 49] none ++ playerJoins 1 [97, 50] none ++ [.disconnect 0]) = some h ∧
      h.server.identity.walletByPeer 0 = none ∧ h.server.identity.walletByPeer 1 = some ['a'] ∧
      h.server.identity.peerByWallet Env.sample.toLowercase ['A'] = some 1 := by
  have hrun : ((Machine.run (Hosted.next Env.sample) (Hosted.new PulseConfig.default)
      (playerJoins 0 [65, 49] none ++ playerJoins 1 [97, 50] none ++ [.disconnect 0])).map
      fun h => (h.server.identity.walletByPeer 0, h.server.identity.walletByPeer 1)) =
      some (none, some ['a']) := by decide
  obtain ⟨h, hh, hwallets⟩ := Option.map_eq_some_iff.mp hrun
  obtain ⟨h0, h1⟩ := Prod.mk.inj hwallets
  obtain ⟨st, _, _, _, hpeer⟩ :=
    ((one_session_per_wallet Env.sample PulseConfig.default _ h hh).1 1 ['a']).mp h1
  exact ⟨h, hh, h0, h1, hpeer⟩

end Catalyrst.Pulse
