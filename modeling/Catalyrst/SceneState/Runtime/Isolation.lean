import Catalyrst.Lib.Machine
import Catalyrst.SceneState.Runtime.Relay

/-!
# Client isolation

The relay runtime together with the connections that use it. A connection
allocates an index, opens, sends bodies and closes once; every call is atomic.
-/

namespace Catalyrst.SceneState
open Catalyrst.Lib

namespace Isolation

/-- What a connection knows: the index it holds and whether it opened. -/
structure Conn where
  index : U32
  opened : Bool
  deriving DecidableEq

structure State where
  rt : RelayRuntime
  /-- The connections between their allocation and their close. -/
  conns : OrdMap ℕ Conn

inductive Act where
  | allocate (conn : ℕ)
  | open (conn : ℕ)
  /-- `on_client_crdt` for any index, with any bytes. -/
  | crdt (index : U32) (body : Bytes)
  | close (conn : ℕ)

def init (config : ServerTransportConfig) : State := ⟨RelayRuntime.new config, ∅⟩

def step (s : State) : Act → Option State
  | .allocate conn =>
    match s.conns[conn]? with
    | some _ => none
    | none =>
      let r := s.rt.allocateClientIndex
      some ⟨r.2, s.conns.insert conn ⟨r.1, false⟩⟩
  | .open conn =>
    match s.conns[conn]? with
    | some ⟨index, false⟩ =>
      some ⟨(s.rt.onClientOpen index).2, s.conns.insert conn ⟨index, true⟩⟩
    | _ => none
  | .crdt index body => some { s with rt := (s.rt.onClientCrdt index body).2 }
  | .close conn =>
    match s.conns[conn]? with
    | some c => some ⟨(s.rt.onClientClose c.index).2, s.conns.erase conn⟩
    | none => none

/-- What a step can do, guards included. -/
theorem step_cases {s t : State} {a : Act} (h : step s a = some t) :
    (∃ conn, a = .allocate conn ∧ s.conns[conn]? = none ∧
      t = ⟨s.rt.allocateClientIndex.2, s.conns.insert conn ⟨s.rt.allocateClientIndex.1, false⟩⟩) ∨
    (∃ conn index, a = .open conn ∧ s.conns[conn]? = some ⟨index, false⟩ ∧
      t = ⟨(s.rt.onClientOpen index).2, s.conns.insert conn ⟨index, true⟩⟩) ∨
    (∃ index body, a = .crdt index body ∧ t = ⟨(s.rt.onClientCrdt index body).2, s.conns⟩) ∨
    ∃ conn c, a = .close conn ∧ s.conns[conn]? = some c ∧
      t = ⟨(s.rt.onClientClose c.index).2, s.conns.erase conn⟩ := by
  cases a with
  | allocate conn =>
    left
    unfold step at h
    cases hc : s.conns[conn]? with
    | some c => simp [hc] at h
    | none =>
      simp only [hc, Option.some.injEq] at h
      exact ⟨conn, rfl, hc, h.symm⟩
  | «open» conn =>
    right
    left
    dsimp only [step] at h
    split at h
    · rename_i index hc
      exact ⟨conn, index, rfl, hc, (Option.some.inj h).symm⟩
    · cases h
  | crdt index body => exact Or.inr (Or.inr (Or.inl ⟨index, body, rfl, (Option.some.inj h).symm⟩))
  | close conn =>
    right
    right
    right
    unfold step at h
    cases hc : s.conns[conn]? with
    | none => simp [hc] at h
    | some c =>
      simp only [hc, Option.some.injEq] at h
      exact ⟨conn, c, rfl, hc, h.symm⟩

/-- The slot each connection holds. -/
def slotOf (s : State) (c : ℕ) : Option U32 := s.conns[c]?.map Conn.index

structure Inv (s : State) : Prop where
  wf : s.rt.Wf
  slots : s.rt.slots.Held (slotOf s)

theorem init_inv (config : ServerTransportConfig) : Inv (init config) := by
  refine ⟨RelayRuntime.new_wf config, ClientSlots.held_empty fun c => ?_⟩
  rw [slotOf, show (init config).conns[c]? = none from Std.ExtTreeMap.getElem?_empty]
  rfl

theorem allocate_inv {s : State} (h : Inv s) {conn : ℕ} :
    Inv ⟨s.rt.allocateClientIndex.2,
      s.conns.insert conn ⟨s.rt.allocateClientIndex.1, false⟩⟩ := by
  refine ⟨h.wf.allocate, h.slots.acquire (c := conn) ?_ fun d hd => ?_⟩
  · simp only [slotOf, OrdMap.find_insert, if_true]
    rfl
  · simp only [slotOf, OrdMap.find_insert, if_neg (Ne.symm hd)]

theorem open_inv {s : State} (h : Inv s) {conn : ℕ} {index : U32}
    (hc : s.conns[conn]? = some ⟨index, false⟩) :
    Inv ⟨(s.rt.onClientOpen index).2, s.conns.insert conn ⟨index, true⟩⟩ := by
  refine ⟨h.wf.open index, h.slots.mono fun c i hi => ?_⟩
  simp only [slotOf, OrdMap.find_insert] at hi ⊢
  split at hi
  · rename_i heq
    rw [← heq, hc]
    exact hi
  · exact hi

theorem close_inv {s : State} (h : Inv s) {conn : ℕ} {c : Conn} (hc : s.conns[conn]? = some c) :
    Inv ⟨(s.rt.onClientClose c.index).2, s.conns.erase conn⟩ := by
  refine ⟨h.wf.close c.index, ?_⟩
  rw [RelayRuntime.onClientClose_snd]
  refine h.slots.release (c := conn) ?_ ?_ fun d hd => ?_
  · rw [slotOf, hc]
    rfl
  · simp only [slotOf, OrdMap.find_erase, if_true]
    rfl
  · simp only [slotOf, OrdMap.find_erase, if_neg (Ne.symm hd)]

theorem step_inv {s t : State} {a : Act} (h : Inv s) (hs : step s a = some t) : Inv t := by
  rcases step_cases hs with ⟨conn, _, _, rfl⟩ | ⟨conn, index, _, hc, rfl⟩ |
    ⟨index, body, _, rfl⟩ | ⟨conn, c, _, hc, rfl⟩
  · exact allocate_inv h
  · exact open_inv h hc
  · refine ⟨h.wf.crdt index body, ?_⟩
    rw [RelayRuntime.onClientCrdt_snd]
    exact h.slots
  · exact close_inv h hc

theorem step_config {s t : State} {a : Act} (hs : step s a = some t) :
    t.rt.config = s.rt.config := by
  rcases step_cases hs with ⟨conn, _, _, rfl⟩ | ⟨conn, index, _, _, rfl⟩ |
    ⟨index, body, _, rfl⟩ | ⟨conn, c, _, _, rfl⟩
  · rfl
  · rfl
  · show (s.rt.onClientCrdt index body).2.config = s.rt.config
    rw [RelayRuntime.onClientCrdt_snd]
  · show (s.rt.onClientClose c.index).2.config = s.rt.config
    rw [RelayRuntime.onClientClose_snd]

theorem run_inv {config : ServerTransportConfig} {acts : List Act} {s : State}
    (h : Machine.run step (init config) acts = some s) : Inv s :=
  Machine.run_invariant step (fun _ _ _ hp hs => step_inv hp hs) acts _ s h (init_inv config)

theorem run_config {config : ServerTransportConfig} {acts : List Act} {s : State}
    (h : Machine.run step (init config) acts = some s) : s.rt.config = config :=
  Machine.run_invariant step (fun _ _ _ hp hs => (step_config hs).trans hp) acts _ s h rfl

/-- The range a live client holds: it opened, and its index is assigned. -/
def liveRange (s : State) (c : ℕ) : Option Range :=
  match s.conns[c]? with
  | some ⟨index, true⟩ => s.rt.assigned[index]?
  | _ => none

theorem liveRange_some {s : State} {c : ℕ} {r : Range} (h : liveRange s c = some r) :
    ∃ index, s.conns[c]? = some ⟨index, true⟩ ∧ s.rt.assigned[index]? = some r := by
  unfold liveRange at h
  split at h
  · rename_i index hc
    exact ⟨index, hc, h⟩
  · cases h

/-- Two live clients never hold the same number. -/
theorem Inv.liveRange_disjoint {s : State} (h : Inv s) {c d : ℕ} (hne : c ≠ d) {r r' : Range}
    (hr : liveRange s c = some r) (hr' : liveRange s d = some r') (number : ℕ) :
    ¬ (r.Holds number ∧ r'.Holds number) := by
  rintro ⟨hin, hin'⟩
  obtain ⟨i, hc, hi⟩ := liveRange_some hr
  obtain ⟨j, hd, hj⟩ := liveRange_some hr'
  rw [h.wf.assigned i r hi] at hin
  rw [h.wf.assigned j r' hj] at hin'
  have heq := ServerTransportConfig.holds_unique hin hin'
  subst heq
  have hmax := h.slots.distinct c d i hne (by rw [slotOf, hc]; rfl) (by rw [slotOf, hd]; rfl)
  rw [hmax] at hin
  exact ServerTransportConfig.not_holds_u32Max _ _ hin

end Isolation

/-- In every reachable state the ranges of distinct live clients are disjoint,
lie between the server's band and the end of the entity numbers, and a body sent
under any index leaves everything outside that index's range as it was. -/
theorem relay_isolates_clients (config : ServerTransportConfig) (acts : List Isolation.Act)
    (s : Isolation.State) (h : Machine.run Isolation.step (Isolation.init config) acts = some s) :
    (∀ (c d : ℕ) (r r' : Range), c ≠ d → Isolation.liveRange s c = some r →
      Isolation.liveRange s d = some r' → ∀ number, ¬ (r.Holds number ∧ r'.Holds number)) ∧
    (∀ (c : ℕ) (r : Range), Isolation.liveRange s c = some r → ∀ number, r.Holds number →
      config.reservedLocalEntities.val + config.serverNetworkEntitiesLimit.val ≤ number ∧
      number < 65536 ∧ ¬ config.serverRange.Holds number) ∧
    (∀ (index : U32) (body : Bytes) (number : U16),
      ((∀ r, s.rt.assigned[index]? = some r → ¬ r.Holds number.val) ∨
        number.val < config.networkFloor.val) →
      CrdtEngine.SameAt number s.rt.engine (s.rt.onClientCrdt index body).2.engine) := by
  have hinv := Isolation.run_inv h
  have hconfig := Isolation.run_config h
  refine ⟨fun c d r r' hne hr hr' => hinv.liveRange_disjoint hne hr hr', ?_, ?_⟩
  · intro c r hr number hin
    obtain ⟨i, _, hi⟩ := Isolation.liveRange_some hr
    rw [hinv.wf.assigned i r hi, hconfig] at hin
    obtain ⟨hlo, hhi⟩ := ServerTransportConfig.holds_bounds hin
    exact ⟨hlo, hhi, ServerTransportConfig.not_holds_serverRange hin⟩
  · intro index body number hout
    rw [← hconfig] at hout
    exact hinv.wf.crdt_sameAt index body number hout

/-- Two clients of the default configuration, one of them in a reused slot. -/
theorem relay_isolates_clients_reused :
    ∃ s, Machine.run Isolation.step (Isolation.init .default)
      [.allocate 0, .open 0, .allocate 1, .open 1,
        .crdt 0 (encodeBatch [.put 1024 1 1 [5], .put 1536 1 1 [6]]),
        .close 0, .allocate 2, .open 2] = some s ∧
      Isolation.liveRange s 1 = some (1536, 512) ∧ Isolation.liveRange s 2 = some (1024, 512) ∧
      ∀ number, ¬ (Range.Holds (1536, 512) number ∧ Range.Holds (1024, 512) number) := by
  have hranges : (Machine.run Isolation.step (Isolation.init .default)
      [.allocate 0, .open 0, .allocate 1, .open 1,
        .crdt 0 (encodeBatch [.put 1024 1 1 [5], .put 1536 1 1 [6]]),
        .close 0, .allocate 2, .open 2]).map
      (fun s => (Isolation.liveRange s 1, Isolation.liveRange s 2)) =
      some (some (1536, 512), some (1024, 512)) := by decide
  obtain ⟨s, hrun, hs⟩ := Option.map_eq_some_iff.mp hranges
  have h1 : Isolation.liveRange s 1 = some (1536, 512) := congrArg Prod.fst hs
  have h2 : Isolation.liveRange s 2 = some (1024, 512) := congrArg Prod.snd hs
  exact ⟨s, hrun, h1, h2,
    (relay_isolates_clients .default _ s hrun).1 1 2 _ _ (by decide) h1 h2⟩

end Catalyrst.SceneState
