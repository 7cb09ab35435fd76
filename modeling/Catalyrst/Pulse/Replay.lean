import Catalyrst.Lib.Machine
import Catalyrst.Pulse.Handshake

/-!
# Replays of a handshake

An admitted handshake is remembered with the time of its admission, and is refused
again for as long as it is remembered as fresh. Its timestamp passes the verification
for longer than that. A ledger of the admissions goes along with the server here, on a
clock that does not wrap around.
-/

namespace Catalyrst.Pulse
open Catalyrst.Lib
open Catalyrst.Crypto (AuthLink)

/-! ### The policy -/

/-- The handshakes admitted so far, with the times of admission, and what the policy has kept
of them at the time `mono`. -/
structure HandshakeReplayPolicy.Recalls (policy : HandshakeReplayPolicy) (mono : ℕ)
    (admitted : List ((Text × Text) × ℕ)) : Prop where
  enabled : policy.isEnabled = true
  nodup : (policy.seen.map Prod.fst).Nodup
  sound : ∀ e ∈ policy.seen, ∃ t, (e.1, t) ∈ admitted ∧ e.2 = wrapped t
  complete : ∀ e ∈ admitted, mono < e.2 + policy.ttlMs.val → (e.1, wrapped e.2) ∈ policy.seen
  past : ∀ e ∈ admitted, e.2 ≤ mono
  once : (admitted.map Prod.fst).Nodup

/-- What has to hold when a handshake is put to the policy: its pair was not admitted before its
entry expired, the admissions within the lifetime of an entry fit into the policy, and no entry
has come full circle to look like a fresh one. -/
structure HandshakeReplayPolicy.Admissible (policy : HandshakeReplayPolicy) (mono : ℕ)
    (admitted : List ((Text × Text) × ℕ)) (key : Text × Text) : Prop where
  unexpired : ∀ e ∈ admitted, e.1 = key → mono < e.2 + policy.ttlMs.val
  room : (admitted.filter fun e => decide (mono < e.2 + policy.ttlMs.val)).length < policy.maxEntries
  unwrapped : ∀ e ∈ admitted, (e.1, wrapped e.2) ∈ policy.seen →
    policy.fresh (wrapped mono) (wrapped e.2) = true → mono < e.2 + 4294967296

namespace HandshakeReplayPolicy

variable {policy : HandshakeReplayPolicy} {mono : ℕ} {admitted : List ((Text × Text) × ℕ)}

theorem lookup_of_mem {key : Text × Text} {t : U32} (hnodup : (policy.seen.map Prod.fst).Nodup)
    (h : (key, t) ∈ policy.seen) : policy.lookup key = some t := by
  unfold lookup
  cases hfind : policy.seen.find? fun e => decide (e.1 = key) with
  | none =>
    have hnone := List.find?_eq_none.mp hfind _ h
    simp at hnone
  | some e =>
    have hkey : e.1 = key := by simpa using List.find?_some hfind
    have he : e = (key, t) :=
      List.inj_on_of_nodup_map hnodup (List.mem_of_find?_eq_some hfind) h hkey
    rw [he]
    rfl

theorem fresh_wrapped {t : ℕ} (hle : t ≤ mono) (hlt : mono < t + policy.ttlMs.val) :
    policy.fresh (wrapped mono) (wrapped t) = true := by
  have httl := policy.ttlMs.isLt
  refine decide_eq_true (Fin.lt_def.mpr ?_)
  rw [wrapped_sub_of_lt hle (by omega)]
  omega

/-- An entry that looks fresh, and has not come full circle, is. -/
theorem lt_of_fresh {t : ℕ} (hle : t ≤ mono) (hlt : mono < t + 4294967296)
    (h : policy.fresh (wrapped mono) (wrapped t) = true) : mono < t + policy.ttlMs.val := by
  have hval := Fin.lt_def.mp (of_decide_eq_true h)
  rw [wrapped_sub_of_lt hle hlt] at hval
  omega

theorem Recalls.later (h : policy.Recalls mono admitted) {mono' : ℕ} (hle : mono ≤ mono') :
    policy.Recalls mono' admitted :=
  { h with
    complete := fun e he hlt => h.complete e he (by omega)
    past := fun e he => (h.past e he).trans hle }

/-- A sweep leaves fewer entries than the policy has room for. -/
theorem Recalls.swept_lt (h : policy.Recalls mono admitted)
    (hroom : (admitted.filter fun e => decide (mono < e.2 + policy.ttlMs.val)).length <
      policy.maxEntries)
    (hwrap : ∀ e ∈ admitted, (e.1, wrapped e.2) ∈ policy.seen →
      policy.fresh (wrapped mono) (wrapped e.2) = true → mono < e.2 + 4294967296) :
    (policy.sweepExpired (wrapped mono)).seen.length < policy.maxEntries := by
  have hsub : ((policy.sweepExpired (wrapped mono)).seen.map Prod.fst) ⊆
      (admitted.filter fun e => decide (mono < e.2 + policy.ttlMs.val)).map Prod.fst := by
    intro k hk
    obtain ⟨e, he, rfl⟩ := List.mem_map.mp hk
    obtain ⟨he, hfresh⟩ := List.mem_filter.mp he
    obtain ⟨t, ht, hstamp⟩ := h.sound e he
    have hmem : (e.1, wrapped t) ∈ policy.seen := hstamp ▸ he
    rw [hstamp] at hfresh
    have hlt := lt_of_fresh (h.past _ ht) (hwrap _ ht hmem hfresh) hfresh
    exact List.mem_map.mpr ⟨(e.1, t), List.mem_filter.mpr ⟨ht, decide_eq_true hlt⟩, rfl⟩
  have hnodup : ((policy.sweepExpired (wrapped mono)).seen.map Prod.fst).Nodup :=
    h.nodup.sublist (List.filter_sublist.map Prod.fst)
  have hlen := (hnodup.subperm hsub).length_le
  rw [List.length_map, List.length_map] at hlen
  exact hlen.trans_lt hroom

theorem tryAdmit_false {toLowercase : Text → Text} {now : U32} {wallet timestamp : Text}
    {policy' : HandshakeReplayPolicy}
    (h : policy.tryAdmit toLowercase now wallet timestamp = (false, policy')) :
    policy' = policy := by
  unfold tryAdmit at h
  cases hen : policy.isEnabled with
  | false => simp [hen] at h
  | true =>
    simp only [hen, Bool.not_true, Bool.false_eq_true, if_false] at h
    split at h
    · exact (Prod.mk.inj h).2.symm
    · cases (Prod.mk.inj h).1

/-- What an admission does to the policy, where nothing has to be evicted. -/
theorem Recalls.tryAdmit_eq (h : policy.Recalls mono admitted) {toLowercase : Text → Text}
    {wallet timestamp : Text} {policy' : HandshakeReplayPolicy}
    (hroom : (policy.sweepExpired (wrapped mono)).seen.length < policy.maxEntries)
    (hadmitted : policy.tryAdmit toLowercase (wrapped mono) wallet timestamp = (true, policy')) :
    (policy.lookup (toLowercase wallet, timestamp)).any (policy.fresh (wrapped mono)) = false ∧
      (policy' = policy.insert (toLowercase wallet, timestamp) (wrapped mono) ∨
        policy' = (policy.sweepExpired (wrapped mono)).insert (toLowercase wallet, timestamp)
          (wrapped mono)) := by
  unfold tryAdmit at hadmitted
  rw [h.enabled] at hadmitted
  simp only [Bool.not_true, Bool.false_eq_true, if_false] at hadmitted
  split at hadmitted
  · cases hadmitted
  · rename_i hfresh
    refine ⟨Bool.eq_false_iff.mpr hfresh, ?_⟩
    split at hadmitted
    · have hfull : ¬ (policy.sweepExpired (wrapped mono)).maxEntries ≤
          (policy.sweepExpired (wrapped mono)).seen.length := not_le.mpr hroom
      rw [if_neg hfull] at hadmitted
      exact .inr (Prod.mk.inj hadmitted).2.symm
    · rename_i hhalf
      have hfull : ¬ policy.maxEntries ≤ policy.seen.length := by omega
      rw [if_neg hfull] at hadmitted
      exact .inl (Prod.mk.inj hadmitted).2.symm

/-- The entries after an admission. -/
theorem Recalls.insert (h : policy.Recalls mono admitted) {key : Text × Text}
    {kept : HandshakeReplayPolicy} (hkept : kept = policy ∨ kept = policy.sweepExpired (wrapped mono))
    (hkey : key ∉ admitted.map Prod.fst) :
    (kept.insert key (wrapped mono)).Recalls mono ((key, mono) :: admitted) := by
  have hparams : kept.ttlMs = policy.ttlMs ∧ kept.isEnabled = policy.isEnabled := by
    rcases hkept with rfl | rfl
    · exact ⟨rfl, rfl⟩
    · exact ⟨rfl, rfl⟩
  have hsub : kept.seen.Sublist policy.seen := by
    rcases hkept with rfl | rfl
    · exact List.Sublist.refl _
    · exact List.filter_sublist
  have hfresh : ∀ e ∈ policy.seen, policy.fresh (wrapped mono) e.2 = true → e ∈ kept.seen := by
    intro e he hf
    rcases hkept with rfl | rfl
    · exact he
    · exact List.mem_filter.mpr ⟨he, hf⟩
  refine ⟨hparams.2.trans h.enabled, ?_, ?_, ?_, ?_, ?_⟩
  · rw [HandshakeReplayPolicy.insert, List.map_cons, List.nodup_cons]
    refine ⟨fun hmem => ?_, h.nodup.sublist ((List.filter_sublist.trans hsub).map Prod.fst)⟩
    obtain ⟨e, he, hek⟩ := List.mem_map.mp hmem
    exact of_decide_eq_true (List.mem_filter.mp he).2 hek
  · intro e he
    rcases List.mem_cons.mp he with rfl | he
    · exact ⟨mono, List.mem_cons_self, rfl⟩
    · obtain ⟨t, ht, hstamp⟩ := h.sound e (hsub.subset (List.mem_filter.mp he).1)
      exact ⟨t, List.mem_cons_of_mem _ ht, hstamp⟩
  · intro e he hlt
    rcases List.mem_cons.mp he with rfl | he
    · exact List.mem_cons_self
    · have hlt' : mono < e.2 + policy.ttlMs.val := hparams.1 ▸ hlt
      have hmem := hfresh _ (h.complete e he hlt') (fresh_wrapped (h.past e he) hlt')
      refine List.mem_cons_of_mem _ (List.mem_filter.mpr ⟨hmem, decide_eq_true ?_⟩)
      intro hek
      exact hkey (List.mem_map.mpr ⟨e, he, hek⟩)
  · intro e he
    rcases List.mem_cons.mp he with rfl | he
    · exact le_rfl
    · exact h.past e he
  · rw [List.map_cons, List.nodup_cons]
    exact ⟨hkey, h.once⟩

/-- One admission. -/
theorem Recalls.admit (h : policy.Recalls mono admitted) {toLowercase : Text → Text}
    {wallet timestamp : Text} {policy' : HandshakeReplayPolicy}
    (hok : policy.Admissible mono admitted (toLowercase wallet, timestamp))
    (hadmitted : policy.tryAdmit toLowercase (wrapped mono) wallet timestamp = (true, policy')) :
    policy'.Recalls mono (((toLowercase wallet, timestamp), mono) :: admitted) := by
  obtain ⟨hlookup, hpolicy⟩ := h.tryAdmit_eq (h.swept_lt hok.room hok.unwrapped) hadmitted
  -- an admission less than a lifetime ago would have been found
  have hkey : (toLowercase wallet, timestamp) ∉ admitted.map Prod.fst := by
    intro hmem
    obtain ⟨e, he, hek⟩ := List.mem_map.mp hmem
    have hlt := hok.unexpired e he hek
    have hfound := lookup_of_mem h.nodup (h.complete e he hlt)
    rw [hek] at hfound
    rw [hfound, Option.any_some, fresh_wrapped (h.past e he) hlt] at hlookup
    cases hlookup
  rcases hpolicy with rfl | rfl
  · exact h.insert (.inl rfl) hkey
  · exact h.insert (.inr rfl) hkey

end HandshakeReplayPolicy

/-! ### What reaches the policy -/

namespace PulseServer

/-- The auth chain that a packet puts to `verify_and_admit`. -/
def handshakeChain (server : PulseServer) (peer : U32) : Option (Option ClientMessage) → Option Bytes
  | some (some (.handshake req)) =>
    if server.isSceneListener peer || server.isAuthenticated peer then none else some req.authChain
  | some (some (.sceneListenerHandshake req)) =>
    if server.isSceneListener peer = false ∧
        server.peers[peer]?.map PeerState.connectionState = some .pendingAuth then
      some req.authChain
    else none
  | _ => none

/-- The verified handshake that `verify_and_admit` puts to the replay policy. -/
def presented (env : Env) (server : PulseServer) (peer : U32) (authChain : Bytes) (nowMs : ℤ) :
    Option VerifiedHandshake :=
  server.peers[peer]?.bind fun state =>
    (tryRecordAttempt server.config.maxHandshakeAttempts state.handshakeAttempts).bind fun _ =>
      (env.verifyHandshake authChain nowMs).toOption.filter fun verified =>
        !server.banList.isBanned env.toLowercase verified.userAddress

def replayKey (env : Env) (verified : VerifiedHandshake) : Text × Text :=
  (env.toLowercase verified.userAddress, verified.timestamp)

/-- The pair of a successful call. -/
def admission (env : Env) (server : PulseServer) : Event → Option (Text × Text)
  | .receive peer decoded nowMs now => (server.handshakeChain peer decoded).bind fun chain =>
      match (server.verifyAndAdmit env peer chain now nowMs).1 with
      | .ok _ => (server.presented env peer chain nowMs).map (replayKey env)
      | .error _ => none
  | _ => none

/-- Either nothing reaches the policy, and the call fails, or the policy decides. -/
theorem verifyAndAdmit_policy (env : Env) (server : PulseServer) (peer : U32) (chain : Bytes)
    (now : U32) (nowMs : ℤ) :
    (∃ action, (verifyAndAdmit env server peer chain now nowMs).1 = .error action) ∧
        (verifyAndAdmit env server peer chain now nowMs).2.replayPolicy = server.replayPolicy ∨
      ∃ admitted verified, (verifyAndAdmit env server peer chain now nowMs).1 = .ok admitted ∧
        server.presented env peer chain nowMs = some verified ∧
        server.replayPolicy.tryAdmit env.toLowercase now verified.userAddress verified.timestamp =
          (true, (verifyAndAdmit env server peer chain now nowMs).2.replayPolicy) := by
  unfold verifyAndAdmit
  split
  · exact .inl ⟨⟨_, rfl⟩, rfl⟩
  · rename_i state hstate
    split
    · exact .inl ⟨⟨_, rfl⟩, rfl⟩
    · rename_i next hnext
      dsimp only
      split
      · exact .inl ⟨⟨_, rfl⟩, rfl⟩
      · rename_i verified hverified
        split
        · exact .inl ⟨⟨_, rfl⟩, rfl⟩
        · rename_i hban
          have hpresented : server.presented env peer chain nowMs = some verified := by
            have hban' : server.banList.isBanned env.toLowercase verified.userAddress = false :=
              Bool.eq_false_iff.mpr hban
            simp [presented, hstate, hnext, hverified, Except.toOption, hban']
          have hpolicy : (server.modifyPeer peer fun s =>
              { s with handshakeAttempts := next }).replayPolicy = server.replayPolicy := rfl
          rw [hpolicy]
          cases hr : server.replayPolicy.tryAdmit env.toLowercase now verified.userAddress
              verified.timestamp with
          | mk ok policy' =>
            cases ok with
            | true => exact .inr ⟨_, verified, rfl, hpresented, hr⟩
            | false =>
              exact .inl ⟨⟨_, rfl⟩, HandshakeReplayPolicy.tryAdmit_false hr⟩

/-! ### Every other step leaves the policy alone -/

theorem releasePreAuth_replayPolicy (server : PulseServer) (peer : U32) :
    (server.releasePreAuth peer).replayPolicy = server.replayPolicy := by
  unfold releasePreAuth
  split
  · rfl
  · rfl

theorem cleanupPeer_replayPolicy (env : Env) (server : PulseServer) (peer : U32) :
    (cleanupPeer env server peer).2.replayPolicy = server.replayPolicy := by
  unfold cleanupPeer
  dsimp only
  split
  · rfl
  · rfl

theorem evictDuplicate_replayPolicy (env : Env) (server : PulseServer) (duplicateOf : Option U32) :
    (evictDuplicate env server duplicateOf).2.replayPolicy = server.replayPolicy := by
  cases duplicateOf with
  | none => rfl
  | some dup =>
    rw [evictDuplicate, cleanupPeer_replayPolicy, releasePreAuth_replayPolicy]

theorem admitPlayer_replayPolicy (env : Env) (server : PulseServer) (peer : U32) (wallet : Text)
    (initialState : Option PlayerInitialState) (features now : U32) :
    (server.admitPlayer env peer wallet initialState features now).replayPolicy =
      server.replayPolicy := by
  have hrelease := releasePreAuth_replayPolicy (server.modifyPeer peer fun s => { s with
    walletId := some wallet
    connectionState := .authenticated
    features := features }) peer
  cases initialState with
  | none => exact hrelease
  | some init =>
    unfold admitPlayer seedInitialState
    dsimp only
    split
    · exact hrelease
    · exact hrelease

theorem admitListener_replayPolicy (env : Env) (server : PulseServer) (peer : U32) (wallet : Text)
    (listener : SceneListenerState) (features : U32) :
    (server.admitListener env peer wallet listener features).replayPolicy = server.replayPolicy :=
  releasePreAuth_replayPolicy _ peer

theorem apply_replayPolicy (env : Env) (server : PulseServer) (peer : U32) (action : Action)
    (now : U32) : (server.apply env peer action now).2.replayPolicy = server.replayPolicy := by
  cases action with
  | reply message => rfl
  | reject reply reason => exact releasePreAuth_replayPolicy server peer
  | authenticated admitted initialState features =>
    unfold apply
    dsimp only
    split
    · rfl
    · rw [admitPlayer_replayPolicy, evictDuplicate_replayPolicy]
  | authenticatedListener admitted listener features =>
    unfold apply
    dsimp only
    split
    · rfl
    · rw [admitListener_replayPolicy, evictDuplicate_replayPolicy]
  | applied => rfl
  | ignore => rfl

theorem playGameplay_replayPolicy (server : PulseServer) (peer now : U32) (msg : ClientMessage) :
    (server.playGameplay peer now msg).2.replayPolicy = server.replayPolicy := by
  unfold playGameplay
  cases msg with
  | input state =>
    cases state with
    | none => rfl
    | some state =>
      dsimp only
      split
      · rfl
      · rfl
  | teleport t =>
    dsimp only
    split
    · rfl
    · rfl
  | emoteStart e =>
    dsimp only
    split
    · rfl
    · split
      · rfl
      · split
        · rfl
        · rfl
  | profileAnnouncement version =>
    dsimp only
    split
    · rfl
    · rfl
  | emoteStop => rfl
  | resync subjectId knownSeq => rfl
  | handshake req => rfl
  | sceneListenerHandshake req => rfl

theorem applyGameplay_replayPolicy (server : PulseServer) (peer now : U32) (msg : ClientMessage) :
    (server.applyGameplay peer now msg).2.replayPolicy = server.replayPolicy := by
  have haccept : (server.acceptGameplay peer now msg).2.replayPolicy = server.replayPolicy := by
    cases msg <;> rfl
  unfold applyGameplay
  dsimp only
  split
  · exact (playGameplay_replayPolicy _ peer now msg).trans haccept
  · exact haccept

theorem connect_replayPolicy (server : PulseServer) (peer : U32) (ip : Text) (now : U32) :
    (server.connect peer ip now).2.replayPolicy = server.replayPolicy := by
  unfold connect
  by_cases hp : ENET_CAPACITY ≤ peer.val
  · simp only [if_pos hp]
    split
    · exact releasePreAuth_replayPolicy _ peer
    · rfl
  · simp only [if_neg hp]
    split
    · exact releasePreAuth_replayPolicy _ peer
    · rfl

theorem corrupt_replayPolicy (server : PulseServer) (peer now : U32) :
    (server.corrupt peer now).replayPolicy = server.replayPolicy := by
  unfold corrupt
  dsimp only
  split
  · rw [releasePreAuth_replayPolicy]
  · rfl

theorem runTick_replayPolicy (env : Env) (server : PulseServer) (now : U32) (input : TickInput) :
    (runTick env server now input).2.replayPolicy = server.replayPolicy := by
  have hfold : ∀ (expired : List (U32 × ExpiredReason)) (r : List OutgoingMessage × PulseServer),
      (expired.foldl (reap env) r).2.replayPolicy = r.2.replayPolicy := by
    intro expired
    induction expired with
    | nil => exact fun _ => rfl
    | cons e expired ih =>
      intro r
      rw [List.foldl_cons, ih, reap]
      dsimp only
      rw [cleanupPeer_replayPolicy]
      split
      · rw [releasePreAuth_replayPolicy]
      · rfl
  exact hfold _ _

theorem Handshaken.replayPolicy {peer : U32} {initialState : Option PlayerInitialState}
    {v : Except Action Admitted × PulseServer} {r : Action × PulseServer}
    (h : Handshaken peer initialState v r) : r.2.replayPolicy = v.2.replayPolicy := by
  cases h <;> rfl

theorem handleHandshake_replayPolicy (env : Env) (server : PulseServer) (peer : U32)
    (req : HandshakeRequest) (nowMs : ℤ) (now : U32) :
    (handleHandshake env server peer req nowMs now).2.replayPolicy =
      if server.isAuthenticated peer then server.replayPolicy
      else (server.verifyAndAdmit env peer req.authChain now nowMs).2.replayPolicy := by
  rcases handleHandshake_cases env server peer req nowMs now with ⟨hauth, heq⟩ | ⟨hauth, hr⟩
  · rw [heq, if_pos hauth]
  · rw [if_neg (Bool.eq_false_iff.mp hauth)]
    exact hr.replayPolicy

theorem handleSceneListenerHandshake_replayPolicy (env : Env) (server : PulseServer) (peer : U32)
    (req : SceneListenerHandshakeRequest) (nowMs : ℤ) (now : U32) :
    (handleSceneListenerHandshake env server peer req nowMs now).2.replayPolicy =
      if server.peers[peer]?.map PeerState.connectionState ≠ some .pendingAuth then
        server.replayPolicy
      else (server.verifyAndAdmit env peer req.authChain now nowMs).2.replayPolicy := by
  rcases handleSceneListenerHandshake_cases env server peer req nowMs now with
    ⟨hgate, heq⟩ | ⟨hgate, -, hr⟩
  · rw [heq, if_pos hgate]
  · rw [if_neg (not_not.mpr hgate)]
    exact hr.replayPolicy

/-- A packet reaches the policy through `verify_and_admit` only. -/
theorem dispatch_replayPolicy (env : Env) (server : PulseServer) (peer : U32)
    (decoded : Option (Option ClientMessage)) (nowMs : ℤ) (now : U32) :
    (dispatch env server peer decoded nowMs now).2.replayPolicy =
      (server.handshakeChain peer decoded).elim server.replayPolicy fun chain =>
        (server.verifyAndAdmit env peer chain now nowMs).2.replayPolicy := by
  cases decoded with
  | none => rfl
  | some content =>
    cases content with
    | none => rfl
    | some msg =>
      have hplay : ∀ msg, (server.applyGameplay peer now msg).2.replayPolicy = server.replayPolicy :=
        applyGameplay_replayPolicy server peer now
      unfold dispatch handshakeChain
      cases hl : server.isSceneListener peer with
      | true =>
        cases msg with
        | resync subjectId knownSeq => exact hplay _
        | _ => rfl
      | false =>
        cases msg with
        | handshake req =>
          simp only [handleHandshake_replayPolicy, Bool.false_or]
          split
          · rfl
          · rfl
        | sceneListenerHandshake req =>
          simp only [handleSceneListenerHandshake_replayPolicy, true_and, ite_not]
          split
          · rfl
          · rfl
        | _ =>
          dsimp only
          split
          · exact hplay _
          · rfl

/-- What an event puts to the policy. -/
def putToPolicy (env : Env) (server : PulseServer) : Event → Option (VerifiedHandshake × U32)
  | .receive peer decoded nowMs now => (server.handshakeChain peer decoded).bind fun chain =>
      (server.presented env peer chain nowMs).map fun verified => (verified, now)
  | _ => none

/-- An event either admits a handshake that the policy lets pass, or leaves the policy alone. -/
theorem step_replayPolicy {env : Env} {server server' : PulseServer} {e : Event}
    {out : List OutgoingMessage} (h : step env server e = some (out, server')) :
    (∃ verified now, server.putToPolicy env e = some (verified, now) ∧
        server.admission env e = some (replayKey env verified) ∧
        server.replayPolicy.tryAdmit env.toLowercase now verified.userAddress verified.timestamp =
          (true, server'.replayPolicy)) ∨
      server.admission env e = none ∧ server'.replayPolicy = server.replayPolicy := by
  cases e with
  | connect peer ip now =>
    simp only [step] at h
    split at h
    · obtain ⟨-, rfl⟩ := Prod.mk.inj (Option.some.inj h)
      exact .inr ⟨rfl, connect_replayPolicy server peer ip now⟩
    · cases h
  | receive peer decoded nowMs now =>
    simp only [step] at h
    split at h
    · have hserver : server' =
          ((dispatch env server peer decoded nowMs now).2.apply env peer
            (dispatch env server peer decoded nowMs now).1 now).2 :=
        (congrArg Prod.snd (Option.some.inj h)).symm
      rw [hserver, apply_replayPolicy, dispatch_replayPolicy]
      cases hchain : server.handshakeChain peer decoded with
      | none =>
        refine .inr ⟨?_, rfl⟩
        rw [admission, hchain]
        rfl
      | some chain =>
        rcases verifyAndAdmit_policy env server peer chain now nowMs with ⟨⟨action, herr⟩, hsame⟩ |
          ⟨admitted, verified, hok, hpresented, hadmitted⟩
        · refine .inr ⟨?_, hsame⟩
          rw [admission, hchain, Option.bind_some, herr]
        · refine .inl ⟨verified, now, ?_, ?_, hadmitted⟩
          · rw [putToPolicy, hchain, Option.bind_some, hpresented]
            rfl
          · rw [admission, hchain, Option.bind_some, hok, hpresented]
            rfl
    · cases h
  | corrupt peer now =>
    simp only [step] at h
    split at h
    · obtain ⟨-, rfl⟩ := Prod.mk.inj (Option.some.inj h)
      exact .inr ⟨rfl, corrupt_replayPolicy server peer now⟩
    · cases h
  | disconnect peer =>
    simp only [step] at h
    split at h
    · have hserver : server' = (server.onDisconnect env peer).2 :=
        (congrArg Prod.snd (Option.some.inj h)).symm
      refine .inr ⟨rfl, ?_⟩
      rw [hserver, onDisconnect, cleanupPeer_replayPolicy]
      exact releasePreAuth_replayPolicy server peer
    · cases h
  | tick now input =>
    simp only [step] at h
    split at h
    · have hserver : server' = (runTick env server now input).2 :=
        (congrArg Prod.snd (Option.some.inj h)).symm
      exact .inr ⟨rfl, hserver ▸ runTick_replayPolicy env server now input⟩
    · cases h

end PulseServer

/-! ### The ledger -/

/-- Whether the times of an event are those of the two clocks. -/
def Event.onTime (now : U32) (nowMs : ℤ) : Event → Bool
  | .connect _ _ t => decide (t = now)
  | .receive _ _ ms t => decide (ms = nowMs ∧ t = now)
  | .corrupt _ t => decide (t = now)
  | .disconnect _ => true
  | .tick t _ => decide (t = now)

/-- An event after some time has passed. -/
structure Timed where
  elapsed : ℕ
  event : Event

structure Ledger where
  server : PulseServer
  /-- The monotonic clock, before it is cut to a word. -/
  mono : ℕ
  wall : ℤ
  /-- The successful calls of `verify_and_admit`, with their times. -/
  admitted : List ((Text × Text) × ℕ)

namespace Ledger

def new (config : PulseConfig) (mono : ℕ) (wall : ℤ) : Ledger :=
  ⟨PulseServer.new config, mono, wall, []⟩

/-- Both clocks advance by the same time. -/
def step (env : Env) (l : Ledger) (t : Timed) : Option Ledger :=
  if t.event.onTime (wrapped (l.mono + t.elapsed)) (l.wall + t.elapsed) then
    (Pulse.step env l.server t.event).map fun r =>
      { server := r.2
        mono := l.mono + t.elapsed
        wall := l.wall + t.elapsed
        admitted := (l.server.admission env t.event).toList.map (fun key => (key, l.mono + t.elapsed))
          ++ l.admitted }
  else none

/-- What is put to the policy is admissible there. -/
def Careful (env : Env) (l : Ledger) (t : Timed) : Prop :=
  ∀ put ∈ l.server.putToPolicy env t.event, l.server.replayPolicy.Admissible (l.mono + t.elapsed)
    l.admitted (PulseServer.replayKey env put.1)

variable {env : Env} {l l' : Ledger}

/-- The policy stays in step with the ledger. -/
theorem step_recalls (h : l.server.replayPolicy.Recalls l.mono l.admitted) {t : Timed}
    (hcare : l.Careful env t) (hstep : Ledger.step env l t = some l') :
    l'.server.replayPolicy.Recalls l'.mono l'.admitted := by
  unfold Ledger.step at hstep
  split at hstep
  · rename_i htime
    obtain ⟨⟨out, server'⟩, hs, rfl⟩ := Option.map_eq_some_iff.mp hstep
    have hlater := h.later (Nat.le_add_right l.mono t.elapsed)
    rcases PulseServer.step_replayPolicy hs with ⟨verified, now, hput, hadm, hadmitted⟩ | ⟨hadm, hsame⟩
    · have hnow : now = wrapped (l.mono + t.elapsed) := by
        cases he : t.event with
        | receive peer decoded nowMs now' =>
          rw [he] at hput htime
          obtain ⟨chain, -, hput⟩ := Option.bind_eq_some_iff.mp hput
          obtain ⟨v, -, hv⟩ := Option.map_eq_some_iff.mp hput
          exact (Prod.mk.inj hv).2 ▸ (of_decide_eq_true htime).2
        | connect peer ip now' =>
          rw [he] at hput
          cases hput
        | corrupt peer now' =>
          rw [he] at hput
          cases hput
        | disconnect peer =>
          rw [he] at hput
          cases hput
        | tick now' input =>
          rw [he] at hput
          cases hput
      rw [hadm]
      rw [hnow] at hadmitted
      exact hlater.admit (hcare _ hput) hadmitted
    · rw [hadm]
      have hpolicy : server'.replayPolicy.Recalls (l.mono + t.elapsed) l.admitted := by
        rw [hsame]
        exact hlater
      exact hpolicy
  · cases hstep

end Ledger

/-- In a run that keeps to the conditions, no pair of wallet and timestamp is admitted twice. -/
theorem handshake_admitted_once (env : HandshakeEnv) (config : PulseConfig) (mono : ℕ) (wall : ℤ)
    (events : List Timed) (l : Ledger)
    (hcare : Machine.Meets (Ledger.step env.toEnv) (fun l t => l.Careful env.toEnv t)
      (Ledger.new config mono wall) events)
    (hrun : Machine.run (Ledger.step env.toEnv) (Ledger.new config mono wall) events = some l) :
    (l.admitted.map Prod.fst).Nodup := by
  have hnew : (Ledger.new config mono wall).server.replayPolicy.Recalls mono [] := by
    refine ⟨rfl, List.nodup_nil, ?_, ?_, ?_, List.nodup_nil⟩
    · exact fun e he => absurd he List.not_mem_nil
    · exact fun e he => absurd he List.not_mem_nil
    · exact fun e he => absurd he List.not_mem_nil
  have hrecalls := Machine.run_invariant_of_meets (P := fun l : Ledger =>
    l.server.replayPolicy.Recalls l.mono l.admitted) (Ledger.step env.toEnv)
    (fun s a t hs hc hst => Ledger.step_recalls hs hc hst) events _ l hcare hrun hnew
  exact hrecalls.once

/-! ### One handshake sent twice -/

instance (policy : HandshakeReplayPolicy) (mono : ℕ) (admitted : List ((Text × Text) × ℕ))
    (key : Text × Text) : Decidable (policy.Admissible mono admitted key) :=
  decidable_of_iff
    ((∀ e ∈ admitted, e.1 = key → mono < e.2 + policy.ttlMs.val) ∧
      (admitted.filter fun e => decide (mono < e.2 + policy.ttlMs.val)).length < policy.maxEntries ∧
      ∀ e ∈ admitted, (e.1, wrapped e.2) ∈ policy.seen →
        policy.fresh (wrapped mono) (wrapped e.2) = true → mono < e.2 + 4294967296)
    ⟨fun h => ⟨h.1, h.2.1, h.2.2⟩, fun h => ⟨h.unexpired, h.room, h.unwrapped⟩⟩

instance (env : Env) (l : Ledger) (t : Timed) : Decidable (l.Careful env t) :=
  inferInstanceAs (Decidable (∀ put ∈ l.server.putToPolicy env t.event,
    l.server.replayPolicy.Admissible (l.mono + t.elapsed) l.admitted
      (PulseServer.replayKey env put.1)))

namespace SignedConnect

/-- A quoted JSON string; a quote in it is escaped. -/
def quoted (t : Text) : Text :=
  Char.ofNat 34 :: (t.flatMap fun c => if c.toNat = 34 then [Char.ofNat 92, c] else [c]) ++
    [Char.ofNat 34]

def jsonObject (fields : List (Text × Text)) : Text :=
  Char.ofNat 123 ::
    (List.intersperse [','] (fields.map fun f => quoted f.1 ++ ':' :: quoted f.2)).flatten ++
      [Char.ofNat 125]

def timestamp : Text := ['1', '0', '0', '0', '0', '0']

def signer : AuthLink := ⟨.signer, ['0', 'x', 'a'], none⟩

def entity : AuthLink :=
  ⟨.ecdsaSignedEntity, ['c', 'o', 'n', 'n', 'e', 'c', 't', ':', '/', ':'] ++ timestamp ++ [':'],
    some ['0', 'x', '1']⟩

def typeField : Text := ['t', 'y', 'p', 'e']
def payloadField : Text := ['p', 'a', 'y', 'l', 'o', 'a', 'd']
def signatureField : Text := ['s', 'i', 'g', 'n', 'a', 't', 'u', 'r', 'e']

def signerJson : Text :=
  jsonObject [(typeField, ['S', 'I', 'G', 'N', 'E', 'R']), (payloadField, signer.payload)]

def entityJson : Text :=
  jsonObject [(typeField, ['E', 'C', 'D', 'S', 'A', '_', 'S', 'I', 'G', 'N', 'E', 'D', '_', 'E', 'N',
    'T', 'I', 'T', 'Y']), (payloadField, entity.payload), (signatureField, ['0', 'x', '1'])]

def headers : List (Text × Text) :=
  [(AUTH_CHAIN_HEADER ++ ['0'], signerJson), (AUTH_CHAIN_HEADER ++ ['1'], entityJson),
    (TIMESTAMP_HEADER, timestamp)]

/-- The handshake of wallet `0xa` at wall-clock time 100000. -/
def chain : Bytes := (jsonObject headers).map fun c => Fin.ofNat 256 c.toNat

/-- The JSON decoder on this handshake, and a verification that accepts its chain only. -/
def env : HandshakeEnv where
  toLowercase := List.map Char.toLower
  parseHeaders bytes :=
    if bytes = chain then some (headers.foldl (fun m h => m.insert h.1 h.2) ∅) else none
  parseLink value :=
    if value = signerJson then some signer else if value = entityJson then some entity else none
  verifyAuthChain links payload _ :=
    if links = [signer, entity] ∧ payload = entity.payload then .ok () else .error []

/-- A peer connects and sends the handshake. -/
def sends (peer : U32) (elapsed mono : ℕ) (wall : ℤ) : List Timed :=
  [⟨elapsed, .connect peer [] (wrapped mono)⟩,
    ⟨0, .receive peer (some (some (.handshake ⟨chain, none, 0⟩))) wall (wrapped mono)⟩]

def key : Text × Text := (['0', 'x', 'a'], timestamp)

end SignedConnect

open SignedConnect in
theorem handshake_admitted_once_refused : ∃ l,
    Machine.run (Ledger.step env.toEnv) (Ledger.new .default 0 100000)
        (sends 0 0 0 100000 ++ sends 1 29999 29999 129999) = some l ∧
      l.admitted = [(key, 0)] ∧ (l.admitted.map Prod.fst).Nodup := by
  have hfacts : (Machine.run (Ledger.step env.toEnv) (Ledger.new .default 0 100000)
      (sends 0 0 0 100000 ++ sends 1 29999 29999 129999)).map Ledger.admitted = some [(key, 0)] := by
    decide +kernel
  obtain ⟨l, hrun, hadmitted⟩ := Option.map_eq_some_iff.mp hfacts
  exact ⟨l, hrun, hadmitted, handshake_admitted_once env .default 0 100000 _ l (by decide +kernel) hrun⟩

open SignedConnect in
/-- Thirty seconds later the policy has forgotten the handshake, which still verifies. -/
theorem handshake_admitted_twice : ∃ l,
    Machine.run (Ledger.step env.toEnv) (Ledger.new .default 0 100000)
        (sends 0 0 0 100000 ++ sends 1 30000 30000 130000) = some l ∧
      l.admitted = [(key, 30000), (key, 0)] := by
  have hfacts : (Machine.run (Ledger.step env.toEnv) (Ledger.new .default 0 100000)
      (sends 0 0 0 100000 ++ sends 1 30000 30000 130000)).map Ledger.admitted =
        some [(key, 30000), (key, 0)] := by
    decide +kernel
  exact Option.map_eq_some_iff.mp hfacts

end Catalyrst.Pulse
