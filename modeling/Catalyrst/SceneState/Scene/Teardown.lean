import Catalyrst.Lib.Machine
import Catalyrst.SceneState.Runtime.Relay

/-!
# Ending and kicking connections (`scene.rs`, `ws.rs`)

`kick_all` removes every registered client and frees its slot, while the handler
of a kicked socket keeps running: it still forwards messages under its index and
calls `remove_client` with that index when its socket ends.
-/

namespace Catalyrst.SceneState
open Catalyrst.Lib

namespace Teardown

/-- A running handler. -/
structure Conn where
  index : U32
  /-- The range `on_client_open` returned. -/
  range : Range
  kicked : Bool
  /-- The engine when the client was added. -/
  base : CrdtEngine
  /-- The accepted messages of this client. -/
  own : List CrdtMessage

structure State where
  rt : RelayRuntime
  /-- `Scene.clients`: the connection registered under each index. -/
  clients : OrdMap U32 ℕ
  conns : OrdMap ℕ Conn

inductive Act where
  | addClient (conn : ℕ)
  | crdt (conn : ℕ) (body : Bytes)
  /-- The socket ends and its handler calls `remove_client`. -/
  | ends (conn : ℕ)
  /-- `kick_all`, with the order in which it finds the indices. -/
  | kickAll (order : List U32)

def init (config : ServerTransportConfig) : State := ⟨RelayRuntime.new config, ∅, ∅⟩

/-- `remove_client`, on the room's clients and its runtime. -/
def removeClient (room : OrdMap U32 ℕ × RelayRuntime) (index : U32) : OrdMap U32 ℕ × RelayRuntime :=
  (room.1.erase index, (room.2.onClientClose index).2)

def kick (conns : OrdMap ℕ Conn) (c : ℕ) : OrdMap ℕ Conn :=
  match conns[c]? with
  | some conn => conns.insert c { conn with kicked := true }
  | none => conns

def step (s : State) : Act → Option State
  | .addClient conn =>
    match s.conns[conn]? with
    | some _ => none
    | none =>
      let index := s.rt.allocateClientIndex.1
      let r := s.rt.allocateClientIndex.2.onClientOpen index
      some ⟨r.2, s.clients.insert index conn,
        s.conns.insert conn ⟨index, (r.1.start, r.1.size), false, s.rt.engine, []⟩⟩
  | .crdt conn body =>
    match s.conns[conn]? with
    | some c =>
      some { s with
        rt := (s.rt.onClientCrdt c.index body).2
        conns := s.conns.insert conn { c with own := c.own ++ s.rt.accepted c.index body } }
    | none => none
  | .ends conn =>
    match s.conns[conn]? with
    | some c =>
      let room := removeClient (s.clients, s.rt) c.index
      some ⟨room.2, room.1, s.conns.erase conn⟩
    | none => none
  | .kickAll order =>
    if order.Perm s.clients.keys then
      let room := order.foldl removeClient (s.clients, s.rt)
      some ⟨room.2, room.1, (s.clients.toList.map Prod.snd).foldl kick s.conns⟩
    else none

/-- The connection holds on to everything it was given and wrote: its entry, its
range, its slot, and under every number of its range what its own messages left. -/
structure Keeps (s : State) (c : ℕ) (conn : Conn) : Prop where
  entry : s.clients[conn.index]? = some c
  range : s.rt.assigned[conn.index]? = some conn.range
  slot : conn.index ∈ s.rt.slots
  entities : ∀ number : U16, conn.range.Holds number.val →
    CrdtEngine.SameAt number (conn.base.applyAll conn.own) s.rt.engine

/-- No other connection that was neither kicked nor ended holds the index. -/
def Vacated (s : State) (c : ℕ) (index : U32) : Prop :=
  ∀ e ∈ s.conns.toList, e.1 ≠ c → e.2.kicked = false → e.2.index ≠ index

instance (s : State) (c : ℕ) (index : U32) : Decidable (Vacated s c index) :=
  inferInstanceAs (Decidable (∀ e ∈ _, _ → _ → _))

/-- A kicked handler sends admitted messages or ends only while nobody else holds
its index, and a client is added only while an index is free. -/
def Careful (s : State) : Act → Prop
  | .addClient _ => s.rt.slots.acquire.1 ∉ s.rt.slots
  | .crdt conn body =>
    match s.conns[conn]? with
    | some c => c.kicked = true → s.rt.admitted c.index body ≠ [] → Vacated s conn c.index
    | none => True
  | .ends conn =>
    match s.conns[conn]? with
    | some c => c.kicked = true → Vacated s conn c.index
    | none => True
  | .kickAll _ => True

instance (s : State) : (a : Act) → Decidable (Careful s a)
  | .addClient _ => inferInstanceAs (Decidable (_ ∉ _))
  | .crdt conn body =>
    match h : s.conns[conn]? with
    | some c => decidable_of_iff
      (c.kicked = true → s.rt.admitted c.index body ≠ [] → Vacated s conn c.index)
      (by simp only [Careful, h])
    | none => isTrue (by simp only [Careful, h])
  | .ends conn =>
    match h : s.conns[conn]? with
    | some c => decidable_of_iff (c.kicked = true → Vacated s conn c.index)
      (by simp only [Careful, h])
    | none => isTrue (by simp only [Careful, h])
  | .kickAll _ => isTrue trivial

/-! ### The invariant -/

structure Inv (s : State) : Prop where
  wf : s.rt.Wf
  base : ∀ (c : ℕ) (conn : Conn), s.conns[c]? = some conn → conn.base.Uncapped
  keeps : ∀ (c : ℕ) (conn : Conn), s.conns[c]? = some conn → conn.kicked = false → Keeps s c conn

theorem init_inv (config : ServerTransportConfig) : Inv (init config) := by
  have hnone : ∀ c : ℕ, (init config).conns[c]? = none := fun _ => Std.ExtTreeMap.getElem?_empty
  refine ⟨RelayRuntime.new_wf config, fun c conn h => ?_, fun c conn h => ?_⟩
  · rw [hnone] at h
    cases h
  · rw [hnone] at h
    cases h

theorem Keeps.range_eq {s : State} (hwf : s.rt.Wf) {c : ℕ} {conn : Conn} (h : Keeps s c conn) :
    conn.range = s.rt.config.rangeForClient conn.index := hwf.assigned _ _ h.range

/-- Two connections with the same registered index are the same. -/
theorem Keeps.index_ne {s : State} {c d : ℕ} {x y : Conn} (hx : Keeps s c x) (hy : Keeps s d y)
    (hne : c ≠ d) : x.index ≠ y.index := by
  intro heq
  have hentry := hx.entry
  rw [heq, hy.entry] at hentry
  exact hne (Option.some.inj hentry).symm

/-- Messages sent under another index leave a connection's numbers alone. -/
theorem keeps_crdt_other {s : State} (hwf : s.rt.Wf) {c : ℕ} {conn : Conn} (h : Keeps s c conn)
    {index : U32} {body : Bytes} (hother : s.rt.admitted index body ≠ [] → conn.index ≠ index)
    {conns : OrdMap ℕ Conn} :
    Keeps { s with rt := (s.rt.onClientCrdt index body).2, conns := conns } c conn := by
  have hengine : ∀ number : U16, conn.range.Holds number.val →
      CrdtEngine.SameAt number s.rt.engine (s.rt.onClientCrdt index body).2.engine := by
    intro number hin
    rw [RelayRuntime.onClientCrdt_snd]
    refine CrdtEngine.applyAll_sameAt hwf.uncapped fun m hm heq => ?_
    obtain ⟨range, hr, hholds, _⟩ := RelayRuntime.admitted_spec hm
    rw [hwf.assigned index range hr, ← heq] at hholds
    rw [h.range_eq hwf] at hin
    exact hother (List.ne_nil_of_mem hm) (ServerTransportConfig.holds_unique hin hholds)
  refine ⟨h.entry, ?_, ?_, fun number hin => (h.entities number hin).trans (hengine number hin)⟩
  · show (s.rt.onClientCrdt index body).2.assigned[conn.index]? = _
    rw [RelayRuntime.onClientCrdt_snd]
    exact h.range
  · show conn.index ∈ (s.rt.onClientCrdt index body).2.slots
    rw [RelayRuntime.onClientCrdt_snd]
    exact h.slot

/-- Closing another index leaves a connection alone. -/
theorem keeps_remove_other {s : State} (hwf : s.rt.Wf) {c : ℕ} {conn : Conn} (h : Keeps s c conn)
    {index : U32} (hother : conn.index ≠ index) {conns : OrdMap ℕ Conn} :
    Keeps ⟨(removeClient (s.clients, s.rt) index).2, (removeClient (s.clients, s.rt) index).1,
      conns⟩ c conn := by
  have hclose := RelayRuntime.onClientClose_snd s.rt index
  refine ⟨?_, ?_, ?_, fun number hin => ?_⟩
  · simp only [removeClient, OrdMap.find_erase, if_neg (Ne.symm hother)]
    exact h.entry
  · simp only [removeClient, hclose, OrdMap.find_erase, if_neg (Ne.symm hother)]
    exact h.range
  · simp only [removeClient, hclose]
    exact Finset.mem_erase.mpr ⟨hother, h.slot⟩
  · refine (h.entities number hin).trans ?_
    simp only [removeClient, hclose]
    cases hr : s.rt.assigned[index]? with
    | none => exact CrdtEngine.SameAt.refl _ _
    | some range =>
      refine CrdtEngine.reclaimRange_sameAt hwf.uncapped _ _ fun hreclaim => ?_
      have hholds : range.Holds number.val := hreclaim
      rw [hwf.assigned index range hr] at hholds
      rw [h.range_eq hwf] at hin
      exact hother (ServerTransportConfig.holds_unique hin hholds)

/-! ### The steps -/

theorem addClient_inv {s : State} (h : Inv s) {x : ℕ}
    (hfree : s.rt.slots.acquire.1 ∉ s.rt.slots) :
    Inv ⟨(s.rt.allocateClientIndex.2.onClientOpen s.rt.allocateClientIndex.1).2,
      s.clients.insert s.rt.allocateClientIndex.1 x,
      s.conns.insert x ⟨s.rt.allocateClientIndex.1,
        ((s.rt.allocateClientIndex.2.onClientOpen s.rt.allocateClientIndex.1).1.start,
          (s.rt.allocateClientIndex.2.onClientOpen s.rt.allocateClientIndex.1).1.size),
        false, s.rt.engine, []⟩⟩ := by
  refine ⟨h.wf.allocate.open _, fun c conn hc => ?_, fun c conn hc hlive => ?_⟩
  · simp only [OrdMap.find_insert] at hc
    split at hc
    · rw [← Option.some.inj hc]
      exact h.wf.uncapped
    · exact h.base c conn hc
  · simp only [OrdMap.find_insert] at hc
    split at hc
    · rename_i heq
      subst heq
      rw [← Option.some.inj hc]
      refine ⟨?_, ?_, Finset.mem_insert_self _ _, fun _ _ => CrdtEngine.SameAt.refl _ _⟩
      · simp only [OrdMap.find_insert, if_true]
      · simp only [RelayRuntime.onClientOpen, OrdMap.find_insert, if_true]
    · have hk := h.keeps c conn hc hlive
      have hne : s.rt.slots.acquire.1 ≠ conn.index := by
        intro heq
        rw [heq] at hfree
        exact hfree hk.slot
      refine ⟨?_, ?_, Finset.mem_insert_of_mem hk.slot, hk.entities⟩
      · have hne' : s.rt.allocateClientIndex.1 ≠ conn.index := hne
        simp only [OrdMap.find_insert, if_neg hne']
        exact hk.entry
      · have hne' : s.rt.allocateClientIndex.1 ≠ conn.index := hne
        simp only [RelayRuntime.onClientOpen, OrdMap.find_insert, if_neg hne']
        exact hk.range

/-- What a careful handler acts on is no other live connection's index. -/
theorem index_ne_of_careful {s : State} (h : Inv s) {x c : ℕ} {y conn : Conn}
    (hx : s.conns[x]? = some y) (hc : s.conns[c]? = some conn) (hlive : conn.kicked = false)
    (hne : c ≠ x) (hcareful : y.kicked = true → Vacated s x y.index) : conn.index ≠ y.index := by
  cases hk : y.kicked with
  | true =>
    exact hcareful hk (c, conn) ((OrdMap.mem_entries _ _ _).mpr hc) hne hlive
  | false => exact (h.keeps c conn hc hlive).index_ne (h.keeps x y hx hk) hne

theorem crdt_inv {s : State} (h : Inv s) {x : ℕ} {y : Conn} {body : Bytes}
    (hx : s.conns[x]? = some y)
    (hok : y.kicked = true → s.rt.admitted y.index body ≠ [] → Vacated s x y.index) :
    Inv { s with
      rt := (s.rt.onClientCrdt y.index body).2
      conns := s.conns.insert x { y with own := y.own ++ s.rt.accepted y.index body } } := by
  refine ⟨h.wf.crdt y.index body, fun c conn hc => ?_, fun c conn hc hlive => ?_⟩
  · simp only [OrdMap.find_insert] at hc
    split at hc
    · rw [← Option.some.inj hc]
      exact h.base x y hx
    · exact h.base c conn hc
  · simp only [OrdMap.find_insert] at hc
    split at hc
    · -- the sender: its own messages act on both sides
      rename_i heq
      subst heq
      have hconn := Option.some.inj hc
      subst hconn
      have hk := h.keeps x y hx hlive
      refine ⟨hk.entry, ?_, ?_, fun number hin => ?_⟩
      · show (s.rt.onClientCrdt y.index body).2.assigned[y.index]? = _
        rw [RelayRuntime.onClientCrdt_snd]
        exact hk.range
      · show y.index ∈ (s.rt.onClientCrdt y.index body).2.slots
        rw [RelayRuntime.onClientCrdt_snd]
        exact hk.slot
      · show CrdtEngine.SameAt number
          (y.base.applyAll (y.own ++ s.rt.accepted y.index body))
          (s.rt.onClientCrdt y.index body).2.engine
        rw [RelayRuntime.onClientCrdt_snd, CrdtEngine.applyAll_append]
        dsimp only
        rw [← CrdtEngine.applyAll_accepted h.wf.uncapped]
        exact (hk.entities number hin).applyAll
          (CrdtEngine.applyAll_uncapped (h.base x y hx) _) h.wf.uncapped _
    · rename_i hne
      refine keeps_crdt_other h.wf (h.keeps c conn hc hlive) fun hadm => ?_
      exact index_ne_of_careful h hx hc hlive (Ne.symm hne) fun hk => hok hk hadm

theorem ends_inv {s : State} (h : Inv s) {x : ℕ} {y : Conn} (hx : s.conns[x]? = some y)
    (hok : y.kicked = true → Vacated s x y.index) :
    Inv ⟨(removeClient (s.clients, s.rt) y.index).2, (removeClient (s.clients, s.rt) y.index).1,
      s.conns.erase x⟩ := by
  have hback : ∀ (c : ℕ) (conn : Conn), (s.conns.erase x)[c]? = some conn →
      c ≠ x ∧ s.conns[c]? = some conn := by
    intro c conn hc
    simp only [OrdMap.find_erase] at hc
    split at hc
    · cases hc
    · rename_i hne
      exact ⟨Ne.symm hne, hc⟩
  refine ⟨h.wf.close y.index, fun c conn hc => h.base c conn (hback c conn hc).2,
    fun c conn hc hlive => ?_⟩
  obtain ⟨hne, hc⟩ := hback c conn hc
  exact keeps_remove_other h.wf (h.keeps c conn hc hlive)
    (index_ne_of_careful h hx hc hlive hne hok)

theorem removeAll_wf (order : List U32) (room : OrdMap U32 ℕ × RelayRuntime) (h : room.2.Wf) :
    (order.foldl removeClient room).2.Wf := by
  induction order generalizing room with
  | nil => exact h
  | cons index order ih => exact ih _ (h.close index)

theorem find_kick (conns : OrdMap ℕ Conn) (c d : ℕ) : (kick conns c)[d]? =
    if c = d then conns[d]?.map (fun conn => { conn with kicked := true }) else conns[d]? := by
  unfold kick
  by_cases hcd : c = d
  · subst hcd
    cases h : conns[c]? with
    | none => simp [h]
    | some conn => simp
  · rw [if_neg hcd]
    cases h : conns[c]? with
    | none => rfl
    | some conn => simp only [OrdMap.find_insert, if_neg hcd]

/-- After the marks: the listed connections are kicked, the others are as before. -/
theorem find_foldl_kick (cs : List ℕ) (conns : OrdMap ℕ Conn) (d : ℕ) {conn : Conn}
    (h : (cs.foldl kick conns)[d]? = some conn) :
    ∃ old, conns[d]? = some old ∧ conn.base = old.base ∧
      (d ∈ cs → conn.kicked = true) ∧ (d ∉ cs → conn = old) := by
  induction cs generalizing conns with
  | nil => exact ⟨conn, h, rfl, fun hin => absurd hin List.not_mem_nil, fun _ => rfl⟩
  | cons c cs ih =>
    obtain ⟨mid, hmid, hbase, hin, hout⟩ := ih (kick conns c) h
    rw [find_kick] at hmid
    split at hmid
    · rename_i heq
      subst heq
      obtain ⟨old, hold, rfl⟩ := Option.map_eq_some_iff.mp hmid
      refine ⟨old, hold, hbase, fun _ => ?_, fun hnot => absurd (List.mem_cons_self ..) hnot⟩
      by_cases hcs : c ∈ cs
      · exact hin hcs
      · rw [hout hcs]
    · rename_i hne
      refine ⟨mid, hmid, hbase, fun hd => ?_, fun hd => ?_⟩
      · rcases List.mem_cons.mp hd with rfl | hd
        · exact absurd rfl hne
        · exact hin hd
      · exact hout fun hcs => hd (List.mem_cons_of_mem _ hcs)

/-- A kick leaves nobody live. -/
theorem kickAll_inv {s : State} (h : Inv s) (order : List U32) :
    Inv ⟨(order.foldl removeClient (s.clients, s.rt)).2,
      (order.foldl removeClient (s.clients, s.rt)).1,
      (s.clients.toList.map Prod.snd).foldl kick s.conns⟩ := by
  refine ⟨removeAll_wf order _ h.wf, fun c conn hc => ?_, fun c conn hc hlive => ?_⟩
  · obtain ⟨old, hold, hbase, _⟩ := find_foldl_kick _ _ c hc
    rw [hbase]
    exact h.base c old hold
  · obtain ⟨old, hold, _, hin, hout⟩ := find_foldl_kick _ _ c hc
    by_cases hc : c ∈ s.clients.toList.map Prod.snd
    · rw [hin hc] at hlive
      cases hlive
    · have hsame := hout hc
      subst hsame
      have hentry := (h.keeps c conn hold hlive).entry
      exact absurd (List.mem_map.mpr ⟨(conn.index, c), (OrdMap.mem_entries _ _ _).mpr hentry, rfl⟩) hc

theorem step_inv {s t : State} {a : Act} (h : Inv s) (hok : Careful s a)
    (hs : step s a = some t) : Inv t := by
  cases a with
  | addClient x =>
    dsimp only [step] at hs
    split at hs
    · cases hs
    · rw [← Option.some.inj hs]
      exact addClient_inv h hok
  | crdt x body =>
    dsimp only [step] at hs
    split at hs
    · rename_i y hx
      rw [← Option.some.inj hs]
      refine crdt_inv h hx ?_
      simpa only [Careful, hx] using hok
    · cases hs
  | ends x =>
    dsimp only [step] at hs
    split at hs
    · rename_i y hx
      rw [← Option.some.inj hs]
      refine ends_inv h hx ?_
      simpa only [Careful, hx] using hok
    · cases hs
  | kickAll order =>
    dsimp only [step] at hs
    split at hs
    · rw [← Option.some.inj hs]
      exact kickAll_inv h order
    · cases hs

end Teardown

/-- In every run whose kicked handlers act only while nobody else holds their
index, and whose additions find a free index, every connection that was neither
kicked nor ended keeps its entry, its range, its slot and its entities. -/
theorem live_clients_keep_state (config : ServerTransportConfig) (acts : List Teardown.Act)
    (s : Teardown.State)
    (hok : Machine.Meets Teardown.step Teardown.Careful (Teardown.init config) acts)
    (hrun : Machine.run Teardown.step (Teardown.init config) acts = some s)
    (c : ℕ) (conn : Teardown.Conn) (hc : s.conns[c]? = some conn) (hlive : conn.kicked = false) :
    Teardown.Keeps s c conn :=
  (Machine.run_invariant_of_meets Teardown.step
    (fun _ _ _ hp ha hs => Teardown.step_inv hp ha hs) acts _ s hok hrun
    (Teardown.init_inv config)).keeps c conn hc hlive

/-- The kicked handler ends before its slot is used again. -/
theorem live_clients_keep_state_after_kick :
    let acts : List Teardown.Act := [.addClient 0, .kickAll [0], .ends 0, .addClient 1,
      .crdt 1 (encodeBatch [.put 1024 1 1 [5]])]
    ∃ s conn, Machine.Meets Teardown.step Teardown.Careful (Teardown.init .default) acts ∧
      Machine.run Teardown.step (Teardown.init .default) acts = some s ∧
      s.conns[1]? = some conn ∧ Teardown.Keeps s 1 conn := by
  intro acts
  have hmeets : Machine.Meets Teardown.step Teardown.Careful (Teardown.init .default) acts := by
    decide
  have hstate : ((Machine.run Teardown.step (Teardown.init .default) acts).bind fun s =>
      s.conns[1]?.map fun conn => decide (conn.kicked = false)) = some true := by decide
  obtain ⟨s, hrun, hs⟩ := Option.bind_eq_some_iff.mp hstate
  obtain ⟨conn, hc, hlive⟩ := Option.map_eq_some_iff.mp hs
  exact ⟨s, conn, hmeets, hrun, hc, live_clients_keep_state .default acts s hmeets hrun 1 conn hc
    (of_decide_eq_true hlive)⟩

/-- Client 0 is kicked, client 1 gets its slot and writes, and then client 0's
handler ends: it takes the entry, the range, the slot and the entity of client 1. -/
theorem kicked_handler_removes_successor :
    ∃ s conn, Machine.run Teardown.step (Teardown.init .default)
      [.addClient 0, .kickAll [0], .addClient 1, .crdt 1 (encodeBatch [.put 1024 1 1 [5]]),
        .ends 0] = some s ∧
      s.conns[1]? = some conn ∧ conn.kicked = false ∧ conn.index = 0 ∧
      conn.own = [.put 1024 1 1 [5]] ∧ s.clients[(0 : U32)]? = none ∧
      s.rt.assigned[(0 : U32)]? = none ∧ (0 : U32) ∉ s.rt.slots ∧
      s.rt.engine.isDead 1024 = true ∧ ¬ Teardown.Keeps s 1 conn := by
  have hstate : ((Machine.run Teardown.step (Teardown.init .default)
      [.addClient 0, .kickAll [0], .addClient 1, .crdt 1 (encodeBatch [.put 1024 1 1 [5]]),
        .ends 0]).bind fun s => s.conns[1]?.map fun conn => decide
      (conn.kicked = false ∧ conn.index = 0 ∧ conn.own = [.put 1024 1 1 [5]] ∧
        s.clients[(0 : U32)]? = none ∧ s.rt.assigned[(0 : U32)]? = none ∧
        (0 : U32) ∉ s.rt.slots ∧ s.rt.engine.isDead 1024 = true)) = some true := by
    decide
  obtain ⟨s, hrun, hs⟩ := Option.bind_eq_some_iff.mp hstate
  obtain ⟨conn, hc, hdec⟩ := Option.map_eq_some_iff.mp hs
  obtain ⟨hlive, hindex, hown, hentry, hrange, hslot, hdead⟩ := of_decide_eq_true hdec
  refine ⟨s, conn, hrun, hc, hlive, hindex, hown, hentry, hrange, hslot, hdead, fun hk => ?_⟩
  have hmine := hk.entry
  rw [hindex, hentry] at hmine
  cases hmine

end Catalyrst.SceneState
