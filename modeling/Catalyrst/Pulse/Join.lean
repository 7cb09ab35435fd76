import Catalyrst.Pulse.Identity
import Catalyrst.Pulse.Views

/-!
# Join before state

The messages to every slot, from the connect of its session on. A clean-up tells
every authenticated peer that its subject left but leaves their views of it in
place; such a view is out of date until the slot is active again. When the same
wallet comes back on the same slot it is taken for an up-to-date one.
-/

namespace Catalyrst.Pulse
open Catalyrst.Lib

abbrev Streams := U32 → List ServerMessage

/-- Every message goes to the end of its target's stream. -/
def deliver (streams : Streams) (out : List OutgoingMessage) : Streams := fun o =>
  streams o ++ (out.filter fun m => decide (m.target = o)).map OutgoingMessage.message

theorem deliver_append (streams : Streams) (a b : List OutgoingMessage) :
    deliver streams (a ++ b) = deliver (deliver streams a) b := by
  funext o
  simp only [deliver, List.filter_append, List.map_append, List.append_assoc]

theorem deliver_nil (streams : Streams) : deliver streams [] = streams := by
  funext o
  simp only [deliver, List.filter_nil, List.map_nil, List.append_nil]

/-- Messages to one slot reach that slot. -/
theorem deliver_sent (streams : Streams) (observer o : U32)
    (sent : List (ServerMessage × PacketMode)) :
    deliver streams (sent.map fun m => ⟨observer, m.1, m.2⟩) o =
      if observer = o then streams o ++ sent.map Prod.fst else streams o := by
  unfold deliver
  split
  · rename_i h
    simp [h, List.filter_map, Function.comp_def]
  · rename_i h
    simp [h, List.filter_map, Function.comp_def]

structure System where
  hosted : Hosted
  streams : Streams

namespace System

def new (config : PulseConfig) : System := ⟨Hosted.new config, fun _ => []⟩

/-- A session starts with an empty stream. -/
def opened (s : System) : Event → Streams
  | .connect peer ip now =>
    if (s.hosted.server.connect peer ip now).1 then Function.update s.streams peer []
    else s.streams
  | _ => s.streams

def step (env : Env) (s : System) (e : Event) : Option System :=
  (s.hosted.step env e).map fun r => ⟨r.2, deliver (s.opened e) r.1⟩

/-- No observer, other than the session that is evicted, has a view of the slot that
was made for the wallet. -/
def unseen (server : PulseServer) (peer : U32) (admitted : Admitted) : Bool :=
  server.observerViews.toList.all fun e =>
    decide (admitted.duplicateOf = some e.1) ||
      e.2[peer]?.all fun v => !ObserverCtx.sameWallet v.lastSentWalletId (some admitted.wallet)

/-- A player is admitted only on a slot that nobody has seen it on. -/
def firstSight (env : Env) (s : System) : Event → Bool
  | .receive peer decoded nowMs now =>
    match (s.hosted.server.dispatch env peer decoded nowMs now).1 with
    | .authenticated admitted _ _ => unseen s.hosted.server peer admitted
    | _ => true
  | _ => true

end System

/-! ### Evictions -/

namespace PulseServer

variable {env : Env} {server : PulseServer} {p : U32}

/-- A slot that is not authenticated observes nobody. -/
theorem Sound.unviewed (h : server.Sound env) (hauth : server.isAuthenticated p = false) :
    server.observerViews[p]? = none := by
  cases hv : server.observerViews[p]? with
  | none => rfl
  | some views =>
    have := h.viewers p (by simp [hv])
    exact absurd (hauth.symm.trans this) (by simp)

theorem Sound.inactive (h : server.Sound env) (hauth : server.isAuthenticated p = false) :
    (server.board.ring p).active = false :=
  Bool.eq_false_iff.mpr fun hactive => by simp [h.active p hactive] at hauth

/-- What an eviction leaves of the views. -/
theorem observerViews_evict {duplicateOf : Option U32} {o : U32} {views : OrdMap U32 PeerToPeerView}
    (ho : (evictDuplicate env server duplicateOf).2.observerViews[o]? = some views) :
    duplicateOf ≠ some o ∧ server.observerViews[o]? = some views := by
  cases duplicateOf with
  | none => exact ⟨by simp, ho⟩
  | some dup =>
    simp only [evictDuplicate] at ho
    rw [cleanupPeer_server] at ho
    simp only [OrdMap.find_erase, (releasePreAuth_fields server dup).2.2.1] at ho
    split at ho
    · cases ho
    · rename_i hne
      exact ⟨fun heq => hne (Option.some.inj heq), ho⟩

theorem unviewed_evict (h : server.observerViews[p]? = none) (env : Env) (duplicateOf : Option U32) :
    (evictDuplicate env server duplicateOf).2.observerViews[p]? = none := by
  cases hv : (evictDuplicate env server duplicateOf).2.observerViews[p]? with
  | none => rfl
  | some views =>
    have hold := (observerViews_evict hv).2
    rw [h] at hold
    cases hold

theorem inactive_evict (h : (server.board.ring p).active = false) (env : Env)
    (duplicateOf : Option U32) :
    ((evictDuplicate env server duplicateOf).2.board.ring p).active = false := by
  cases duplicateOf with
  | none => exact h
  | some dup =>
    simp only [evictDuplicate]
    rw [cleanupPeer_server]
    simp only [SnapshotBoard.active_clearActive, (releasePreAuth_fields server dup).2.2.2, h,
      Bool.and_false]

end PulseServer

theorem System.unseen_other {server : PulseServer} {p : U32} {admitted : Admitted}
    (h : System.unseen server p admitted = true) {o : U32} {views : OrdMap U32 PeerToPeerView}
    {v : PeerToPeerView} (ho : server.observerViews[o]? = some views)
    (hne : admitted.duplicateOf ≠ some o) (hv : views[p]? = some v) :
    ObserverCtx.sameWallet v.lastSentWalletId (some admitted.wallet) = false := by
  have hall := List.all_eq_true.mp h (o, views) ((OrdMap.mem_entries _ _ _).mpr ho)
  simpa [hne, hv] using hall

/-! ### The invariant -/

/-- The wallet that an observer compares a view of a subject with. -/
def walletSeen (server : PulseServer) (observer subject : U32) : Option Text :=
  if subject = observer then some SELF_MIRROR_WALLET_ID
  else server.identity.walletByPeer subject

/-- A view that is not of the subject's present session. -/
def Outdated (server : PulseServer) (observer subject : U32) (view : PeerToPeerView) : Prop :=
  (server.board.ring subject).active = false ∨
    ObserverCtx.sameWallet view.lastSentWalletId (walletSeen server observer subject) = false

/-- After an admission, views of the slot are outdated unless they were made for the wallet. -/
theorem PulseServer.Admits.outdated {env : Env} {server server' : PulseServer} {p : U32} {w : Text}
    {f : PeerState → PeerState} {activates : Bool}
    (hadmits : PulseServer.Admits env server server' p w f activates)
    (hself : server.observerViews[p]? = none)
    (hfresh : activates = false ∧ (server.board.ring p).active = false ∨
      ∀ (o : U32) (views : OrdMap U32 PeerToPeerView) (v : PeerToPeerView),
        server.observerViews[o]? = some views → views[p]? = some v →
        ObserverCtx.sameWallet v.lastSentWalletId (some w) = false)
    {o : U32} {views : OrdMap U32 PeerToPeerView} {v : PeerToPeerView}
    (ho : server.observerViews[o]? = some views) (hv : views[p]? = some v) :
    Outdated server' o p v := by
  have hop : p ≠ o := by
    rintro rfl
    rw [hself] at ho
    cases ho
  rcases hfresh with ⟨hno, hinactive⟩ | hother
  · left
    rw [hadmits.active, hno, hinactive]
    rfl
  · right
    simp only [walletSeen, hadmits.identity, IdentityBoard.walletByPeer_set, if_true, hop, if_false]
    exact hother o views v ho hv

/-- All streams are in order, and every view is of an announced subject or outdated. -/
structure Orderly (server : PulseServer) (streams : Streams) : Prop where
  joinedFirst : ∀ o, JoinedFirst (streams o)
  views : ∀ (o : U32) (views : OrdMap U32 PeerToPeerView) (x : U32) (v : PeerToPeerView),
    server.observerViews[o]? = some views → views[x]? = some v →
    x ∈ announced (streams o) ∨ Outdated server o x v

namespace Orderly

variable {env : Env} {server server' : PulseServer} {streams : Streams} {p : U32}

theorem keeps (h : Orderly server streams) (hk : PulseServer.Keeps server server') :
    Orderly server' streams := by
  refine ⟨h.joinedFirst, fun o views x v ho hx => ?_⟩
  rw [hk.observerViews] at ho
  rcases h.views o views x v ho hx with hin | hold
  · exact Or.inl hin
  · right
    simpa only [Outdated, walletSeen, hk.active, hk.identity] using hold

/-- Handshake responses are about no subject. -/
theorem deliver_handshakes (h : Orderly server streams) {out : List OutgoingMessage}
    (hout : ∀ m ∈ out, ∃ response, m.message = .handshake response) :
    Orderly server (deliver streams out) := by
  have hmsgs : ∀ o, ∀ m ∈ (out.filter fun m => decide (m.target = o)).map OutgoingMessage.message,
      ∃ response, m = .handshake response := by
    intro o m hm
    obtain ⟨k, hk, rfl⟩ := List.mem_map.mp hm
    exact hout k (List.mem_of_mem_filter hk)
  have hquiet : ∀ o, ∀ m ∈ (out.filter fun m => decide (m.target = o)).map OutgoingMessage.message,
      Quiet m := by
    intro o m hm
    obtain ⟨response, rfl⟩ := hmsgs o m hm
    exact ⟨rfl, rfl⟩
  refine ⟨fun o => ?_, fun o views x v ho hx => ?_⟩
  · refine joinedFirst_quiet (h.joinedFirst o) (hquiet o) fun m hm x hx => ?_
    obtain ⟨response, rfl⟩ := hmsgs o m hm
    cases hx
  · unfold deliver
    rw [announced_quiet (hquiet o)]
    exact h.views o views x v ho hx

theorem deliver_response (h : Orderly server streams) (p : U32) (success : Bool)
    (error : Option Text) :
    Orderly server (deliver streams [PulseServer.reliable p (handshakeResponse success error)]) := by
  refine h.deliver_handshakes fun m hm => ?_
  rw [List.mem_singleton.mp hm]
  exact ⟨_, rfl⟩

/-- A subject is taken away from some observers while its slot is not active. -/
theorem deliver_left (h : Orderly server streams) {out : List OutgoingMessage}
    (hout : ∀ m ∈ out, m.message = .playerLeft p)
    (hinactive : (server.board.ring p).active = false) : Orderly server (deliver streams out) := by
  induction out using List.reverseRecOn with
  | nil => rwa [deliver_nil]
  | append_singleton out m ih =>
    have hprev := ih fun k hk => hout k (by simp [hk])
    have hm : m.message = .playerLeft p := hout m (by simp)
    rw [deliver_append]
    generalize deliver streams out = streams' at hprev ⊢
    have hone : ∀ o, deliver streams' [m] o =
        if m.target = o then streams' o ++ [.playerLeft p] else streams' o := by
      intro o
      unfold deliver
      split
      · rename_i heq
        simp [heq, hm]
      · rename_i hne
        simp [hne]
    refine ⟨fun o => ?_, fun o views x v ho hx => ?_⟩
    · rw [hone]
      split
      · rw [joinedFirst_append]
        exact ⟨hprev.joinedFirst o, fun x hx => nomatch hx⟩
      · exact hprev.joinedFirst o
    · rw [hone]
      split
      · by_cases hxp : x = p
        · exact Or.inr (Or.inl (hxp ▸ hinactive))
        · rcases hprev.views o views x v ho hx with hin | hold
          · left
            rw [mem_announced_append]
            exact Or.inr ⟨hin, fun heq => hxp (Option.some.inj heq).symm⟩
          · exact Or.inr hold
      · exact hprev.views o views x v ho hx

theorem cleanupPeer_messages {env : Env} {server : PulseServer} {p : U32} {m : OutgoingMessage}
    (h : m ∈ (PulseServer.cleanupPeer env server p).1) : m.message = .playerLeft p := by
  unfold PulseServer.cleanupPeer at h
  dsimp only at h
  split at h
  · cases h
  · obtain ⟨target, _, rfl⟩ := List.mem_map.mp h
    rfl

theorem cleanup (h : Orderly server streams) (env : Env) (p : U32) :
    Orderly (PulseServer.cleanupPeer env server p).2
      (deliver streams (PulseServer.cleanupPeer env server p).1) := by
  have hserver := PulseServer.cleanupPeer_server env server p
  refine deliver_left (p := p) ⟨h.joinedFirst, fun o views x v ho hx => ?_⟩
    (fun m hm => cleanupPeer_messages hm) ?_
  · rw [hserver] at ho ⊢
    simp only [OrdMap.find_erase] at ho
    split at ho
    · cases ho
    · rename_i hpo
      by_cases hxp : p = x
      · right
        left
        simp [hxp]
      · rcases h.views o views x v ho hx with hin | hold
        · exact Or.inl hin
        · right
          simpa [Outdated, walletSeen, hxp] using hold
  · rw [hserver]
    simp

theorem evict (h : Orderly server streams) (env : Env) (duplicateOf : Option U32) :
    Orderly (PulseServer.evictDuplicate env server duplicateOf).2
      (deliver streams (PulseServer.evictDuplicate env server duplicateOf).1) := by
  cases duplicateOf with
  | none =>
    simp only [PulseServer.evictDuplicate]
    rwa [deliver_nil]
  | some dup => exact (h.keeps (PulseServer.Keeps.releasePreAuth server dup)).cleanup env dup

/-- A wallet that no observer has a view of the slot for is admitted. -/
theorem admission (h : Orderly server streams) {w : Text} {f : PeerState → PeerState} {activates : Bool}
    (hadmits : PulseServer.Admits env server server' p w f activates)
    (hself : server.observerViews[p]? = none)
    (hfresh : activates = false ∧ (server.board.ring p).active = false ∨
      ∀ (o : U32) (views : OrdMap U32 PeerToPeerView) (v : PeerToPeerView),
        server.observerViews[o]? = some views → views[p]? = some v →
        ObserverCtx.sameWallet v.lastSentWalletId (some w) = false) :
    Orderly server' streams := by
  refine ⟨h.joinedFirst, fun o views x v ho hx => ?_⟩
  rw [hadmits.observerViews] at ho
  by_cases hxp : p = x
  · subst hxp
    exact Or.inr (hadmits.outdated hself hfresh ho hx)
  · rcases h.views o views x v ho hx with hin | hold
    · exact Or.inl hin
    · right
      simpa [Outdated, walletSeen, hadmits.active, hadmits.identity, hxp] using hold

theorem apply (h : Orderly server streams) (hs : server.Sound env) {r : Action × PulseServer}
    (hd : PulseServer.Dispatched env server p r)
    (hunseen : ∀ admitted initialState features, r.1 = .authenticated admitted initialState features →
      System.unseen server p admitted = true) (now : U32) :
    Orderly (r.2.apply env p r.1 now).2 (deliver streams (r.2.apply env p r.1 now).1) := by
  have hr := h.keeps hd.keeps
  have hsr := hs.keeps hd.keeps
  have hself : server.isAuthenticated p = false → ∀ duplicateOf,
      (PulseServer.evictDuplicate env r.2 duplicateOf).2.observerViews[p]? = none := by
    intro hauth duplicateOf
    refine PulseServer.unviewed_evict ?_ env duplicateOf
    rw [hd.keeps.observerViews]
    exact hs.unviewed hauth
  have hinactive : server.isAuthenticated p = false → ∀ duplicateOf,
      ((PulseServer.evictDuplicate env r.2 duplicateOf).2.board.ring p).active = false := by
    intro hauth duplicateOf
    refine PulseServer.inactive_evict ?_ env duplicateOf
    rw [hd.keeps.active]
    exact hs.inactive hauth
  have happlied := r.2.apply_cases env p r.1 now
  obtain ⟨action, s⟩ := r
  dsimp only at hr happlied ⊢
  generalize s.apply env p action now = r' at happlied ⊢
  cases happlied with
  | silent => rwa [deliver_nil]
  | reply message =>
    refine deliver_handshakes hr fun m hm => ?_
    rw [List.mem_singleton.mp hm]
    exact hd.replies message (List.mem_singleton.mpr rfl)
  | reject reply reason =>
    refine deliver_handshakes (hr.keeps (PulseServer.Keeps.releasePreAuth s p)) fun m hm => ?_
    obtain ⟨k, hk, rfl⟩ := List.mem_map.mp hm
    exact hd.replies k hk
  | player admitted initialState features hsome =>
    obtain ⟨hauth, -⟩ := hd.admits admitted rfl
    rw [deliver_append]
    refine deliver_response ?_ p true none
    refine (hr.evict env admitted.duplicateOf).admission (PulseServer.admitPlayer_spec _ _ _ _ _ _ _)
      (hself hauth _) (Or.inr fun o views v ho hv => ?_)
    obtain ⟨hne, ho⟩ := PulseServer.observerViews_evict ho
    rw [hd.keeps.observerViews] at ho
    exact System.unseen_other (hunseen admitted initialState features rfl) ho hne hv
  | listener admitted listener features hsome =>
    obtain ⟨hauth, -⟩ := hd.admits admitted rfl
    rw [deliver_append]
    refine deliver_response ?_ p true none
    exact (hr.evict env admitted.duplicateOf).admission (PulseServer.admitListener_spec _ _ _ _ _ _)
      (hself hauth _) (Or.inl ⟨rfl, hinactive hauth _⟩)

/-! ### The tick -/

theorem stale_iff (server : PulseServer) (o x : U32) (st : PeerState) (v : PeerToPeerView) :
    (server.observerCtx o st).Stale x v ↔ Outdated server o x v := by
  simp [ObserverCtx.Stale, Outdated, walletSeen, ObserverCtx.currentWallet, ObserverCtx.isSelfMirror,
    PulseServer.observerCtx]

theorem serve_good {t : PulseServer.TickState}
    (h : Orderly { server with observerViews := t.observerViews } (deliver streams t.outbox))
    (hcache : ∀ (key : U32 ×ₗ U32 ×ₗ ℕ) (d : PlayerStateDeltaTier0),
      t.deltaCache[key]? = some d → d.subjectId = (ofLex key).1)
    (hids : ∀ x, (server.board.ring x).active = true → x.val < 2 ^ SUBJECT_ID_BITS)
    (now o : U32) (st : PeerState) (entries : List InterestEntry) :
    (server.observerCtx o st).Good (deliver streams t.outbox o)
      (server.serve now o st entries t) := by
  unfold PulseServer.serve PulseServer.serveWith
  dsimp only
  have hstart : (server.observerCtx o st).Good (deliver streams t.outbox o)
      { views := t.observerViews[o]?.getD ∅
        sent := []
        resync := st.resyncRequests
        batch := []
        scanCache := t.scanCache
        deltaCache := t.deltaCache } := by
    refine ⟨by simpa using h.joinedFirst o, fun x v hx => ?_, hcache, fun b hb => nomatch hb⟩
    cases hviews : t.observerViews[o]? with
    | none => simp [hviews] at hx
    | some views =>
      rw [hviews] at hx
      simpa [stale_iff, Outdated, walletSeen] using h.views o views x v hviews hx
  have hgood := ObserverCtx.processVisibleSubjects_good entries hstart
  obtain ⟨hflush, hempty⟩ := ObserverCtx.flushDeltaBatch_good hgood hids now server.config.seqEncoding
  split
  · exact ObserverCtx.sweepStaleViews_good hflush hempty
  · exact hflush

/-- One observer is served: its stream gets what was sent, no other stream changes. -/
theorem tickObserver {t : PulseServer.TickState}
    (h : Orderly { server with observerViews := t.observerViews } (deliver streams t.outbox))
    (hcache : ∀ (key : U32 ×ₗ U32 ×ₗ ℕ) (d : PlayerStateDeltaTier0),
      t.deltaCache[key]? = some d → d.subjectId = (ofLex key).1)
    (hids : ∀ x, (server.board.ring x).active = true → x.val < 2 ^ SUBJECT_ID_BITS)
    (now : U32) (input : PulseServer.TickInput) (o : U32) :
    let t' := server.tickObserver now input t o
    Orderly { server with observerViews := t'.observerViews } (deliver streams t'.outbox) ∧
    ∀ (key : U32 ×ₗ U32 ×ₗ ℕ) (d : PlayerStateDeltaTier0),
      t'.deltaCache[key]? = some d → d.subjectId = (ofLex key).1 := by
  unfold PulseServer.tickObserver PulseServer.tickObserverWith
  dsimp only
  split
  · exact ⟨h, hcache⟩
  · rename_i st hst
    split
    · split <;> exact ⟨h, hcache⟩
    · split <;> exact ⟨h, hcache⟩
    · split
      · exact ⟨h, hcache⟩
      · rename_i entries hentries
        have hgood := serve_good h hcache hids now o st entries
        unfold PulseServer.serve at hgood
        generalize PulseServer.serveWith _ server now o st entries t = s at hgood ⊢
        refine ⟨⟨fun q => ?_, fun q views x v hq hx => ?_⟩, hgood.cache⟩
        · rw [deliver_append, deliver_sent]
          split
          · rename_i heq
            exact heq ▸ hgood.joinedFirst
          · exact h.joinedFirst q
        · rw [deliver_append, deliver_sent]
          simp only [OrdMap.find_insert] at hq
          split at hq
          · rename_i heq
            subst heq
            rw [if_pos rfl]
            rw [← Option.some.inj hq] at hx
            simpa [stale_iff, Outdated, walletSeen] using hgood.views x v hx
          · rename_i hne
            rw [if_neg hne]
            exact h.views q views x v hq hx
    · exact ⟨h, hcache⟩

theorem foldl_tickObserver (server : PulseServer)
    (hids : ∀ x, (server.board.ring x).active = true → x.val < 2 ^ SUBJECT_ID_BITS)
    (now : U32) (input : PulseServer.TickInput) (order : List U32) (t : PulseServer.TickState)
    (h : Orderly { server with observerViews := t.observerViews } (deliver streams t.outbox))
    (hcache : ∀ (key : U32 ×ₗ U32 ×ₗ ℕ) (d : PlayerStateDeltaTier0),
      t.deltaCache[key]? = some d → d.subjectId = (ofLex key).1) :
    let t' := order.foldl (server.tickObserver now input) t
    Orderly { server with observerViews := t'.observerViews } (deliver streams t'.outbox) := by
  induction order generalizing t with
  | nil => exact h
  | cons o order ih =>
    obtain ⟨hnext, hcache'⟩ := tickObserver h hcache hids now input o
    exact ih _ hnext hcache'

theorem foldl_reap (env : Env) (expired : List (U32 × PulseServer.ExpiredReason))
    (r : List OutgoingMessage × PulseServer) (h : Orderly r.2 (deliver streams r.1)) :
    Orderly (expired.foldl (PulseServer.reap env) r).2
      (deliver streams (expired.foldl (PulseServer.reap env) r).1) := by
  induction expired generalizing r with
  | nil => exact h
  | cons e expired ih =>
    refine ih (PulseServer.reap env r e) ?_
    unfold PulseServer.reap
    dsimp only
    rw [deliver_append]
    split
    · exact (h.keeps (PulseServer.Keeps.releasePreAuth r.2 e.1)).cleanup env e.1
    · exact h.cleanup env e.1

theorem runTick (h : Orderly server streams)
    (hids : ∀ x, (server.board.ring x).active = true → x.val < 2 ^ SUBJECT_ID_BITS)
    (env : Env) (now : U32) (input : PulseServer.TickInput) :
    Orderly (server.runTick env now input).2 (deliver streams (server.runTick env now input).1) := by
  unfold PulseServer.runTick
  dsimp only
  refine foldl_reap env _ _ ?_
  have hstart : Orderly { server with tickCounter := server.tickCounter + 1 }
      (deliver streams []) := by
    rw [deliver_nil]
    exact h.keeps (PulseServer.Keeps.of_eq rfl rfl rfl rfl)
  have htick := foldl_tickObserver { server with tickCounter := server.tickCounter + 1 } hids now
    input input.order ⟨server.peers, server.observerViews, [], [], ∅, ∅⟩ hstart
    (fun key d hd => by simp at hd)
  exact ⟨htick.joinedFirst, htick.views⟩

end Orderly

/-! ### Runs -/

namespace System

structure Inv (env : Env) (s : System) : Prop where
  hosted : s.hosted.Inv env
  orderly : Orderly s.hosted.server s.streams

theorem inv_new (env : Env) (config : PulseConfig) : Inv env (System.new config) := by
  refine ⟨Hosted.inv_new env config, fun o => Presence.joinsFirst_nil _ _ _, ?_⟩
  intro o views x v ho
  simp [System.new, Hosted.new, PulseServer.new] at ho

/-- A new session starts an empty stream, and its slot has no views yet. -/
theorem connect_orderly {s : System} {env : Env} (hinv : Inv env s) {peer : U32}
    (hfree : peer ∉ s.hosted.slots) (ip : Text) (now : U32) :
    Orderly (s.hosted.server.connect peer ip now).2 (s.opened (.connect peer ip now)) := by
  have hnone : s.hosted.server.observerViews[peer]? = none := by
    cases hv : s.hosted.server.observerViews[peer]? with
    | none => rfl
    | some views =>
      have hauth : s.hosted.server.isAuthenticated peer = true :=
        hinv.hosted.sound.viewers peer (by simp [hv])
      obtain ⟨st, hst⟩ := PulseServer.exists_session hauth
      rw [hinv.hosted.unconnected hfree] at hst
      cases hst
  obtain ⟨hidentity, hviews, hboard, _⟩ := s.hosted.server.connect_spec peer ip now
  have hstream : ∀ o, s.opened (.connect peer ip now) o = s.streams o ∨
      o = peer ∧ s.opened (.connect peer ip now) o = [] := by
    intro o
    simp only [opened]
    split
    · by_cases ho : o = peer
      · exact Or.inr ⟨ho, by simp [ho]⟩
      · exact Or.inl (by simp [ho])
    · exact Or.inl rfl
  refine ⟨fun o => ?_, fun o views x v ho hx => ?_⟩
  · rcases hstream o with heq | ⟨_, heq⟩
    · rw [heq]
      exact hinv.orderly.joinedFirst o
    · rw [heq]
      exact Presence.joinsFirst_nil _ _ _
  · rw [hviews] at ho
    rcases hstream o with heq | ⟨rfl, _⟩
    · rw [heq]
      simpa only [Outdated, walletSeen, hidentity, hboard] using
        hinv.orderly.views o views x v ho hx
    · rw [hnone] at ho
      cases ho

theorem step_inv {env : Env} {s s' : System} {e : Event} (hinv : Inv env s)
    (hok : s.firstSight env e = true) (hstep : s.step env e = some s') : Inv env s' := by
  obtain ⟨⟨out, h'⟩, hhosted, rfl⟩ := Option.map_eq_some_iff.mp hstep
  refine ⟨Hosted.step_inv env hinv.hosted hhosted, ?_⟩
  obtain ⟨hdelivers, r, hhappens, rfl, rfl⟩ := Hosted.step_happens hhosted
  cases hhappens with
  | connect peer ip now hlt =>
    rw [deliver_nil]
    exact connect_orderly hinv (by simpa [Hosted.delivers] using hdelivers) ip now
  | receive peer decoded nowMs now hlt =>
    refine hinv.orderly.apply hinv.hosted.sound
      (s.hosted.server.dispatch_spec env peer decoded nowMs now) (fun a i f ha => ?_) now
    simpa only [firstSight, ha] using hok
  | corrupt peer now hlt =>
    rw [deliver_nil]
    exact hinv.orderly.keeps (s.hosted.server.corrupt_keeps peer now)
  | disconnect peer hlt =>
    have hkeeps := PulseServer.Keeps.disconnect s.hosted.server peer
    exact (hinv.orderly.keeps hkeeps).cleanup env peer
  | tick now input hvalid =>
    refine hinv.orderly.runTick (fun x hx => ?_) env now input
    obtain ⟨st, hst⟩ := PulseServer.exists_session (hinv.hosted.sound.active x hx)
    have hlt := (hinv.hosted.connected x (by simp [hst])).2
    simp only [DEFAULT_MAX_PEERS, ENET_CAPACITY, WT_CAPACITY, SUBJECT_ID_BITS] at hlt ⊢
    omega

end System

/-- In every run in which a player is only ever admitted on a slot that no observer
has a view of for its wallet, what any observer is sent about a subject comes after
the subject's `PlayerJoined`, with no `PlayerLeft` in between. -/
theorem joined_before_state (env : Env) (config : PulseConfig) (events : List Event) (s : System)
    (hmeets : Machine.Meets (System.step env) (fun s e => s.firstSight env e = true)
      (System.new config) events)
    (hrun : Machine.run (System.step env) (System.new config) events = some s) :
    ∀ observer, JoinedFirst (s.streams observer) := by
  have hinv := Machine.run_invariant_of_meets (System.step env) (P := System.Inv env)
    (fun _ _ _ hs hok hstep => System.step_inv hs hok hstep) events _ s hmeets hrun
    (System.inv_new env config)
  exact hinv.orderly.joinedFirst

/-! A scene listener on slot 0 watches one parcel. A player joins on slot 1 with an
initial state and teleports to that parcel, which gives the sequence 1, and is
announced. It leaves and somebody joins on slot 1 and teleports to the parcel. -/

def listenerJoins (peer : U32) (chain : Bytes) : List Event :=
  [.connect peer [] 0,
    .receive peer (some (some (.sceneListenerHandshake ⟨chain, ['r'], [⟨0, 0, 0, 0⟩], 0⟩))) 0 1]

def parcelTick (order : List U32) : Event :=
  .tick 2 ⟨order, fun _ => [], fun _ => [ParcelEncoder.default.encode 0 0]⟩

/-- The slot is taken over by the wallet of `chain`. -/
def slotReused (chain : Bytes) : List Event :=
  listenerJoins 0 [76, 49] ++ playerJoins 1 [66, 49] (some ⟨some stillState, none, none, none⟩) ++
    [parcelTick [0, 1], .disconnect 1] ++ playerJoins 1 chain none ++ [parcelTick [0, 1]]

/-- Another wallet is announced afresh. -/
theorem joined_before_state_slotReused :
    Machine.Meets (System.step Env.sample) (fun s e => s.firstSight Env.sample e = true)
      (System.new PulseConfig.default) (slotReused [67, 49]) ∧
    ∃ s, Machine.run (System.step Env.sample) (System.new PulseConfig.default)
        (slotReused [67, 49]) = some s ∧
      (s.streams 0).map ServerMessage.joins = [none, some 1, none, none, some 1] ∧
      ∀ observer, JoinedFirst (s.streams observer) := by
  have hmeets : Machine.Meets (System.step Env.sample)
      (fun s e => s.firstSight Env.sample e = true) (System.new PulseConfig.default)
      (slotReused [67, 49]) := by decide
  have hrun : ((Machine.run (System.step Env.sample) (System.new PulseConfig.default)
      (slotReused [67, 49])).map fun s => (s.streams 0).map ServerMessage.joins) =
      some [none, some 1, none, none, some 1] := by decide
  obtain ⟨s, hs, hjoins⟩ := Option.map_eq_some_iff.mp hrun
  exact ⟨hmeets, s, hs, hjoins,
    joined_before_state Env.sample PulseConfig.default (slotReused [67, 49]) s hmeets hs⟩

/-- The same wallet is not: the observer is sent a delta of a subject that left. -/
theorem rejoin_not_announced :
    ¬ ∀ (env : Env) (config : PulseConfig) (events : List Event) (s : System),
      Machine.run (System.step env) (System.new config) events = some s →
      ∀ observer, JoinedFirst (s.streams observer) := by
  have hrun : ((Machine.run (System.step Env.sample) (System.new PulseConfig.default)
      (slotReused [66, 50])).map fun s => decide (JoinedFirst (s.streams 0))) = some false := by
    decide
  obtain ⟨s, hs, hfalse⟩ := Option.map_eq_some_iff.mp hrun
  intro h
  exact of_decide_eq_false hfalse (h Env.sample PulseConfig.default (slotReused [66, 50]) s hs 0)

end Catalyrst.Pulse
