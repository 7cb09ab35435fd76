import Catalyrst.Lib.Machine
import Catalyrst.SceneState.Runtime.Relay

/-!
# Closing a client in three steps

`on_client_close` removes the assignment, releases the slot and reclaims the
range under three different locks, so other connections can act in between. The
slot, and with it the range, is free for reuse before the old range is reclaimed.
-/

namespace Catalyrst.SceneState
open Catalyrst.Lib

namespace CloseRace

/-- Where a connection stands. The stamp is the moment it opened; a closing
connection carries the range that it took out of `assigned`. -/
inductive Phase where
  | allocated (index : U32)
  | opened (index : U32) (stamp : ℕ)
  | removed (index : U32) (stamp : ℕ) (range : Option Range)
  | released (stamp : ℕ) (range : Option Range)
  deriving DecidableEq

/-- The slot a connection has not released yet. -/
def Phase.slot : Phase → Option U32
  | .allocated index => some index
  | .opened index _ => some index
  | .removed index _ _ => some index
  | .released _ _ => none

def Phase.stamp : Phase → Option ℕ
  | .allocated _ => none
  | .opened _ stamp => some stamp
  | .removed _ stamp _ => some stamp
  | .released stamp _ => some stamp

/-- The range that a departed client has still to reclaim. -/
def Phase.pending : Phase → Option Range
  | .removed _ _ range => range
  | .released _ range => range
  | _ => none

/-- `number` lies in a range that a departed client has still to reclaim. -/
def Phase.Pending (p : Phase) (number : ℕ) : Prop :=
  match p.pending with
  | some range => range.Holds number
  | none => False

instance (p : Phase) (number : ℕ) : Decidable (p.Pending number) :=
  match h : p.pending with
  | some range => decidable_of_iff (range.Holds number) (by simp only [Phase.Pending, h])
  | none => isFalse (by simp only [Phase.Pending, h, not_false_eq_true])

structure State where
  rt : RelayRuntime
  conns : OrdMap ℕ Phase
  /-- The next stamp. -/
  clock : ℕ
  /-- Every accepted message's entity, with the stamp of the client that sent it. -/
  written : List (ℕ × U32)

inductive Act where
  | allocate (conn : ℕ)
  | open (conn : ℕ)
  | crdt (conn : ℕ) (body : Bytes)
  | removeAssigned (conn : ℕ)
  | releaseSlot (conn : ℕ)
  | reclaim (conn : ℕ)

def init (config : ServerTransportConfig) : State := ⟨RelayRuntime.new config, ∅, 0, []⟩

def step (s : State) : Act → Option State
  | .allocate conn =>
    match s.conns[conn]? with
    | some _ => none
    | none =>
      let r := s.rt.allocateClientIndex
      some { s with rt := r.2, conns := s.conns.insert conn (.allocated r.1) }
  | .open conn =>
    match s.conns[conn]? with
    | some (.allocated index) =>
      some { s with
        rt := (s.rt.onClientOpen index).2
        conns := s.conns.insert conn (.opened index s.clock)
        clock := s.clock + 1 }
    | _ => none
  | .crdt conn body =>
    match s.conns[conn]? with
    | some (.opened index stamp) =>
      some { s with
        rt := (s.rt.onClientCrdt index body).2
        written := (s.rt.accepted index body).map (fun m => (stamp, m.entity)) ++ s.written }
    | _ => none
  | .removeAssigned conn =>
    match s.conns[conn]? with
    | some (.opened index stamp) =>
      some { s with
        rt := s.rt.removeAssigned index
        conns := s.conns.insert conn (.removed index stamp s.rt.assigned[index]?) }
    | _ => none
  | .releaseSlot conn =>
    match s.conns[conn]? with
    | some (.removed index stamp range) =>
      some { s with
        rt := s.rt.releaseSlot index
        conns := s.conns.insert conn (.released stamp range) }
    | _ => none
  | .reclaim conn =>
    match s.conns[conn]? with
    | some (.released _ range) =>
      some { s with
        rt := match range with
          | some range => (s.rt.reclaim range).2
          | none => s.rt
        conns := s.conns.erase conn }
    | _ => none

/-- The messages of `body` that reach the engine touch no number that a departed
client has still to reclaim. -/
def SparesPending (s : State) (index : U32) (body : Bytes) : Prop :=
  ∀ m ∈ s.rt.admitted index body, ∀ e ∈ s.conns.toList,
    ¬ e.2.Pending (entityNumber m.entity).val

instance (s : State) (index : U32) (body : Bytes) : Decidable (SparesPending s index body) :=
  inferInstanceAs (Decidable (∀ m ∈ _, ∀ e ∈ _, ¬ _))

def NoPendingReclaim (s : State) : Act → Prop
  | .crdt conn body =>
    match s.conns[conn]? with
    | some (.opened index _) => SparesPending s index body
    | _ => True
  | _ => True

instance (s : State) : (a : Act) → Decidable (NoPendingReclaim s a)
  | .crdt conn body =>
    match h : s.conns[conn]? with
    | some (.opened index _) =>
      decidable_of_iff (SparesPending s index body) (by simp only [NoPendingReclaim, h])
    | some (.allocated _) => isTrue (by simp only [NoPendingReclaim, h])
    | some (.removed _ _ _) => isTrue (by simp only [NoPendingReclaim, h])
    | some (.released _ _) => isTrue (by simp only [NoPendingReclaim, h])
    | none => isTrue (by simp only [NoPendingReclaim, h])
  | .allocate _ => isTrue trivial
  | .open _ => isTrue trivial
  | .removeAssigned _ => isTrue trivial
  | .releaseSlot _ => isTrue trivial
  | .reclaim _ => isTrue trivial

/-- What a step can do, guards included. -/
theorem step_cases {s t : State} {a : Act} (h : step s a = some t) :
    (∃ conn, a = .allocate conn ∧ s.conns[conn]? = none ∧
      t = { s with
        rt := s.rt.allocateClientIndex.2
        conns := s.conns.insert conn (.allocated s.rt.allocateClientIndex.1) }) ∨
    (∃ conn index, a = .open conn ∧ s.conns[conn]? = some (.allocated index) ∧
      t = { s with
        rt := (s.rt.onClientOpen index).2
        conns := s.conns.insert conn (.opened index s.clock)
        clock := s.clock + 1 }) ∨
    (∃ conn body index stamp, a = .crdt conn body ∧
      s.conns[conn]? = some (.opened index stamp) ∧
      t = { s with
        rt := (s.rt.onClientCrdt index body).2
        written := (s.rt.accepted index body).map (fun m => (stamp, m.entity)) ++ s.written }) ∨
    (∃ conn index stamp, a = .removeAssigned conn ∧
      s.conns[conn]? = some (.opened index stamp) ∧
      t = { s with
        rt := s.rt.removeAssigned index
        conns := s.conns.insert conn (.removed index stamp s.rt.assigned[index]?) }) ∨
    (∃ conn index stamp range, a = .releaseSlot conn ∧
      s.conns[conn]? = some (.removed index stamp range) ∧
      t = { s with
        rt := s.rt.releaseSlot index
        conns := s.conns.insert conn (.released stamp range) }) ∨
    ∃ conn stamp range, a = .reclaim conn ∧ s.conns[conn]? = some (.released stamp range) ∧
      t = { s with
        rt := match range with
          | some range => (s.rt.reclaim range).2
          | none => s.rt
        conns := s.conns.erase conn } := by
  cases a with
  | allocate conn =>
    dsimp only [step] at h
    split at h
    · cases h
    · rename_i hc
      exact Or.inl ⟨conn, rfl, hc, (Option.some.inj h).symm⟩
  | «open» conn =>
    dsimp only [step] at h
    split at h
    · rename_i index hc
      exact Or.inr (Or.inl ⟨conn, index, rfl, hc, (Option.some.inj h).symm⟩)
    · cases h
  | crdt conn body =>
    dsimp only [step] at h
    split at h
    · rename_i index stamp hc
      exact Or.inr (Or.inr (Or.inl ⟨conn, body, index, stamp, rfl, hc, (Option.some.inj h).symm⟩))
    · cases h
  | removeAssigned conn =>
    dsimp only [step] at h
    split at h
    · rename_i index stamp hc
      exact Or.inr (Or.inr (Or.inr (Or.inl ⟨conn, index, stamp, rfl, hc, (Option.some.inj h).symm⟩)))
    · cases h
  | releaseSlot conn =>
    dsimp only [step] at h
    split at h
    · rename_i index stamp range hc
      exact Or.inr (Or.inr (Or.inr (Or.inr (Or.inl
        ⟨conn, index, stamp, range, rfl, hc, (Option.some.inj h).symm⟩))))
    · cases h
  | reclaim conn =>
    dsimp only [step] at h
    split at h
    · rename_i stamp range hc
      exact Or.inr (Or.inr (Or.inr (Or.inr (Or.inr
        ⟨conn, stamp, range, rfl, hc, (Option.some.inj h).symm⟩))))
    · cases h

/-! ### The invariant -/

/-- The numbers a connection answers for: a live one by its slot, a departed one
by the range it has still to reclaim. -/
def Phase.Answers (config : ServerTransportConfig) (p : Phase) (number : ℕ) : Prop :=
  match p with
  | .opened index _ => (config.rangeForClient index).Holds number
  | p => p.Pending number

/-- The slot each connection holds. -/
def slotOf (s : State) (c : ℕ) : Option U32 := s.conns[c]?.bind Phase.slot

/-- Nobody wrote into the numbers of a client that opened before. -/
structure Inv (s : State) : Prop where
  wf : s.rt.Wf
  slots : s.rt.slots.Held (slotOf s)
  stamped : ∀ (c : ℕ) (p : Phase) (n : ℕ), s.conns[c]? = some p → p.stamp = some n → n < s.clock
  past : ∀ w ∈ s.written, w.1 < s.clock
  untouched : ∀ (c : ℕ) (p : Phase) (n : ℕ), s.conns[c]? = some p → p.stamp = some n →
    ∀ w ∈ s.written, n < w.1 → ¬ p.Answers s.rt.config (entityNumber w.2).val

theorem init_inv (config : ServerTransportConfig) : Inv (init config) := by
  have hnone : ∀ c : ℕ, (init config).conns[c]? = none := fun _ => Std.ExtTreeMap.getElem?_empty
  refine ⟨RelayRuntime.new_wf config, ClientSlots.held_empty fun c => ?_, ?_, ?_, ?_⟩
  · rw [slotOf, hnone]
    rfl
  · intro c p n h
    rw [hnone] at h
    cases h
  · intro w hw
    cases hw
  · intro c p n h
    rw [hnone] at h
    cases h

/-- A connection moves on, keeps its stamp and answers for no new numbers. -/
theorem move_inv {s : State} (h : Inv s) {conn : ℕ} {p q : Phase} (hp : s.conns[conn]? = some p)
    {rt : RelayRuntime} (hwf : rt.Wf) (hconfig : rt.config = s.rt.config)
    (hslots : rt.slots.Held fun c => (s.conns.insert conn q)[c]?.bind Phase.slot)
    (hstamp : q.stamp = p.stamp)
    (hanswers : ∀ number, q.Answers s.rt.config number → p.Answers s.rt.config number) :
    Inv { s with rt := rt, conns := s.conns.insert conn q } := by
  have hback : ∀ (c : ℕ) (x : Phase), (s.conns.insert conn q)[c]? = some x →
      ∃ y, s.conns[c]? = some y ∧ x.stamp = y.stamp ∧
        ∀ number, x.Answers s.rt.config number → y.Answers s.rt.config number := by
    intro c x hx
    simp only [OrdMap.find_insert] at hx
    split at hx
    · rename_i heq
      subst heq
      rw [← Option.some.inj hx]
      exact ⟨p, hp, hstamp, hanswers⟩
    · exact ⟨x, hx, rfl, fun _ ha => ha⟩
  refine ⟨hwf, hslots, ?_, h.past, ?_⟩
  · intro c x n hx hn
    obtain ⟨y, hy, hst, _⟩ := hback c x hx
    exact h.stamped c y n hy (hst ▸ hn)
  · intro c x n hx hn w hw hlt
    obtain ⟨y, hy, hst, ha⟩ := hback c x hx
    show ¬ x.Answers rt.config _
    rw [hconfig]
    exact fun hx' => h.untouched c y n hy (hst ▸ hn) w hw hlt (ha _ hx')

theorem allocate_inv {s : State} (h : Inv s) {conn : ℕ} :
    Inv { s with
      rt := s.rt.allocateClientIndex.2
      conns := s.conns.insert conn (.allocated s.rt.allocateClientIndex.1) } := by
  have hback : ∀ (c : ℕ) (p : Phase) (n : ℕ),
      (s.conns.insert conn (.allocated s.rt.allocateClientIndex.1))[c]? = some p →
      p.stamp = some n → s.conns[c]? = some p := by
    intro c p n hp hn
    simp only [OrdMap.find_insert] at hp
    split at hp
    · rw [← Option.some.inj hp] at hn
      cases hn
    · exact hp
  refine ⟨h.wf.allocate, h.slots.acquire (c := conn) ?_ fun d hd => ?_, ?_, h.past, ?_⟩
  · simp only [slotOf, OrdMap.find_insert, if_true]
    rfl
  · simp only [slotOf, OrdMap.find_insert, if_neg (Ne.symm hd)]
  · intro c p n hp hn
    exact h.stamped c p n (hback c p n hp hn) hn
  · intro c p n hp hn
    exact h.untouched c p n (hback c p n hp hn) hn

theorem open_inv {s : State} (h : Inv s) {conn : ℕ} {index : U32}
    (hc : s.conns[conn]? = some (.allocated index)) :
    Inv { s with
      rt := (s.rt.onClientOpen index).2
      conns := s.conns.insert conn (.opened index s.clock)
      clock := s.clock + 1 } := by
  have hback : ∀ (c : ℕ) (x : Phase), (s.conns.insert conn (.opened index s.clock))[c]? = some x →
      x = .opened index s.clock ∧ c = conn ∨ s.conns[c]? = some x := by
    intro c x hx
    simp only [OrdMap.find_insert] at hx
    split at hx
    · rename_i heq
      exact Or.inl ⟨(Option.some.inj hx).symm, heq.symm⟩
    · exact Or.inr hx
  refine ⟨h.wf.open index, h.slots.mono fun c i hi => ?_, ?_, ?_, ?_⟩
  · simp only [slotOf, OrdMap.find_insert] at hi ⊢
    split at hi
    · rename_i heq
      rw [← heq, hc]
      exact hi
    · exact hi
  · intro c x n hx hn
    rcases hback c x hx with ⟨rfl, rfl⟩ | hx
    · rw [← Option.some.inj hn]
      exact Nat.lt_succ_self _
    · exact Nat.lt_succ_of_lt (h.stamped c x n hx hn)
  · intro w hw
    exact Nat.lt_succ_of_lt (h.past w hw)
  · intro c x n hx hn w hw hlt
    rcases hback c x hx with ⟨rfl, rfl⟩ | hx
    · have hclock := Option.some.inj hn
      have hpast := h.past w hw
      omega
    · exact h.untouched c x n hx hn w hw hlt

theorem crdt_inv {s : State} (h : Inv s) {conn : ℕ} {body : Bytes} {index : U32} {stamp : ℕ}
    (hc : s.conns[conn]? = some (.opened index stamp))
    (hok : SparesPending s index body) :
    Inv { s with
      rt := (s.rt.onClientCrdt index body).2
      written := (s.rt.accepted index body).map (fun m => (stamp, m.entity)) ++ s.written } := by
  have hwf := h.wf.crdt index body
  rw [RelayRuntime.onClientCrdt_snd] at hwf ⊢
  have hnew : ∀ w ∈ (s.rt.accepted index body).map (fun m => (stamp, m.entity)),
      w.1 = stamp ∧ ∃ m ∈ s.rt.admitted index body, w.2 = m.entity := by
    intro w hw
    obtain ⟨m, hm, rfl⟩ := List.mem_map.mp hw
    exact ⟨rfl, m, s.rt.accepted_subset index body hm, rfl⟩
  refine ⟨hwf, h.slots, h.stamped, ?_, ?_⟩
  · intro w hw
    rcases List.mem_append.mp hw with hw | hw
    · rw [(hnew w hw).1]
      exact h.stamped conn _ stamp hc rfl
    · exact h.past w hw
  · intro d p n hd hn w hw hlt
    rcases List.mem_append.mp hw with hw | hw
    · obtain ⟨hstamp, m, hm, hent⟩ := hnew w hw
      obtain ⟨range, hr, hholds, _⟩ := RelayRuntime.admitted_spec hm
      rw [h.wf.assigned index range hr, ← hent] at hholds
      intro hans
      cases p with
      | opened j n' =>
        -- two live connections: their slots are distinct
        have hij : j = index := ServerTransportConfig.holds_unique hans hholds
        subst hij
        have hne : d ≠ conn := by
          rintro rfl
          rw [hc] at hd
          cases hd
          have := Option.some.inj hn
          omega
        have hmax := h.slots.distinct d conn j hne (by rw [slotOf, hd]; rfl)
          (by rw [slotOf, hc]; rfl)
        rw [hmax] at hholds
        exact ServerTransportConfig.not_holds_u32Max _ _ hholds
      | allocated j => cases hn
      | removed j n' range' =>
        rw [hent] at hans
        exact hok m hm (d, _) ((OrdMap.mem_entries _ _ _).mpr hd) hans
      | released n' range' =>
        rw [hent] at hans
        exact hok m hm (d, _) ((OrdMap.mem_entries _ _ _).mpr hd) hans
    · exact h.untouched d p n hd hn w hw hlt

theorem removeAssigned_inv {s : State} (h : Inv s) {conn : ℕ} {index : U32} {stamp : ℕ}
    (hc : s.conns[conn]? = some (.opened index stamp)) :
    Inv { s with
      rt := s.rt.removeAssigned index
      conns := s.conns.insert conn (.removed index stamp s.rt.assigned[index]?) } := by
  refine move_inv h hc (h.wf.removeAssigned index) rfl (h.slots.mono fun c i hi => ?_) rfl ?_
  · simp only [slotOf, OrdMap.find_insert] at hi ⊢
    split at hi
    · rename_i heq
      rw [← heq, hc]
      exact hi
    · exact hi
  intro number hin
  show (s.rt.config.rangeForClient index).Holds number
  cases hr : s.rt.assigned[index]? with
  | none =>
    simp only [Phase.Answers, Phase.Pending, Phase.pending, hr] at hin
  | some r =>
    simp only [Phase.Answers, Phase.Pending, Phase.pending, hr] at hin
    rw [← h.wf.assigned index r hr]
    exact hin

theorem releaseSlot_inv {s : State} (h : Inv s) {conn : ℕ} {index : U32} {stamp : ℕ}
    {range : Option Range} (hc : s.conns[conn]? = some (.removed index stamp range)) :
    Inv { s with
      rt := s.rt.releaseSlot index
      conns := s.conns.insert conn (.released stamp range) } := by
  refine move_inv h hc (h.wf.releaseSlot index) rfl
    (h.slots.release (c := conn) ?_ ?_ fun d hd => ?_) rfl fun number hin => hin
  · rw [slotOf, hc]
    rfl
  · simp only [OrdMap.find_insert, if_true]
    rfl
  · simp only [slotOf, OrdMap.find_insert, if_neg (Ne.symm hd)]

theorem reclaim_inv {s : State} (h : Inv s) {conn : ℕ} {range : Option Range} :
    Inv { s with
      rt := match range with
        | some range => (s.rt.reclaim range).2
        | none => s.rt
      conns := s.conns.erase conn } := by
  have hback : ∀ (c : ℕ) (x : Phase), (s.conns.erase conn)[c]? = some x → s.conns[c]? = some x := by
    intro c x hx
    simp only [OrdMap.find_erase] at hx
    split at hx
    · cases hx
    · exact hx
  have hrt : ∀ rt : RelayRuntime, rt.Wf → rt.config = s.rt.config → rt.slots = s.rt.slots →
      Inv { s with rt := rt, conns := s.conns.erase conn } := by
    intro rt hwf hconfig hslots
    refine ⟨hwf, ?_, ?_, h.past, ?_⟩
    · show rt.slots.Held _
      rw [hslots]
      refine h.slots.mono fun c i hi => ?_
      obtain ⟨x, hx, hxi⟩ := Option.bind_eq_some_iff.mp hi
      rw [slotOf, hback c x hx]
      exact hxi
    · intro c x n hx
      exact h.stamped c x n (hback c x hx)
    · intro c x n hx
      show _ → ∀ w ∈ s.written, n < w.1 → ¬ x.Answers rt.config _
      rw [hconfig]
      exact h.untouched c x n (hback c x hx)
  cases range with
  | none => exact hrt s.rt h.wf rfl rfl
  | some range => exact hrt _ (h.wf.reclaim range) rfl rfl

theorem step_inv {s t : State} {a : Act} (h : Inv s) (hok : NoPendingReclaim s a)
    (hs : step s a = some t) : Inv t := by
  rcases step_cases hs with ⟨conn, _, hc, rfl⟩ | ⟨conn, index, _, hc, rfl⟩ |
    ⟨conn, body, index, stamp, rfl, hc, rfl⟩ | ⟨conn, index, stamp, _, hc, rfl⟩ |
    ⟨conn, index, stamp, range, _, hc, rfl⟩ | ⟨conn, stamp, range, _, hc, rfl⟩
  · exact allocate_inv h
  · exact open_inv h hc
  · refine crdt_inv h hc ?_
    simpa only [NoPendingReclaim, hc] using hok
  · exact removeAssigned_inv h hc
  · exact releaseSlot_inv h hc
  · exact reclaim_inv h

/-- The reclaim of `conn` kills no entity written by a client that opened after
it. -/
def ReclaimSpares (s : State) (conn : ℕ) : Prop :=
  ∀ (stamp : ℕ) (range : Option Range) (t : State),
    s.conns[conn]? = some (.released stamp range) → step s (.reclaim conn) = some t →
    ∀ w ∈ s.written, stamp < w.1 → s.rt.engine.isDead w.2 = false →
      t.rt.engine.isDead w.2 = false

theorem Inv.reclaimSpares {s : State} (h : Inv s) (conn : ℕ) : ReclaimSpares s conn := by
  intro stamp range t hc hs w hw hlt halive
  rcases step_cases hs with ⟨_, ha, _⟩ | ⟨_, _, ha, _⟩ | ⟨_, _, _, _, ha, _⟩ | ⟨_, _, _, ha, _⟩ |
    ⟨_, _, _, _, ha, _⟩ | ⟨conn', stamp', range', ha, hc', rfl⟩
  · cases ha
  · cases ha
  · cases ha
  · cases ha
  · cases ha
  · cases ha
    rw [hc] at hc'
    cases hc'
    cases range with
    | none => exact halive
    | some r =>
      have hout := h.untouched conn _ stamp hc rfl w hw hlt
      have hsame : CrdtEngine.SameAt (entityNumber w.2) s.rt.engine
          (s.rt.engine.reclaimRange r.1 r.2).2 :=
        CrdtEngine.reclaimRange_sameAt h.wf.uncapped r.1 r.2 fun hin => hout hin
      exact hsame.isDead.trans halive

end CloseRace

/-- In every run in which no accepted write falls into a range that a departed
client has still to reclaim, no reclaim kills an entity written by a client that
opened after the departed one. -/
theorem reclaim_spares_later_clients (config : ServerTransportConfig) (acts : List CloseRace.Act)
    (s : CloseRace.State)
    (hok : Machine.Meets CloseRace.step CloseRace.NoPendingReclaim (CloseRace.init config) acts)
    (hrun : Machine.run CloseRace.step (CloseRace.init config) acts = some s) (conn : ℕ) :
    CloseRace.ReclaimSpares s conn :=
  (Machine.run_invariant_of_meets CloseRace.step
    (fun _ _ _ hp ha hs => CloseRace.step_inv hp ha hs) acts _ s hok hrun
    (CloseRace.init_inv config)).reclaimSpares conn

/-- Client 1 writes in its own slot and client 0 departs. -/
theorem reclaim_spares_later_clients_apart :
    let acts : List CloseRace.Act := [.allocate 0, .open 0, .allocate 1, .open 1,
      .crdt 1 (encodeBatch [.put 1536 1 1 [5]]), .removeAssigned 0, .releaseSlot 0]
    Machine.Meets CloseRace.step CloseRace.NoPendingReclaim (CloseRace.init .default) acts ∧
    ∀ s, Machine.run CloseRace.step (CloseRace.init .default) acts = some s →
      CloseRace.ReclaimSpares s 0 := by
  intro acts
  have hmeets : Machine.Meets CloseRace.step CloseRace.NoPendingReclaim
      (CloseRace.init .default) acts := by decide
  exact ⟨hmeets, fun s hs => reclaim_spares_later_clients .default acts s hmeets hs 0⟩

/-- The slot of client 0 is handed to client 1 before the range of client 0 is
reclaimed; the reclaim then removes what client 1 wrote. -/
theorem reclaim_kills_reused_slot :
    ∃ s t, Machine.run CloseRace.step (CloseRace.init .default)
      [.allocate 0, .open 0, .removeAssigned 0, .releaseSlot 0, .allocate 1, .open 1,
        .crdt 1 (encodeBatch [.put 1024 1 1 [5]])] = some s ∧
      CloseRace.step s (.reclaim 0) = some t ∧
      s.conns[0]? = some (.released 0 (some (1024, 512))) ∧
      s.conns[1]? = some (.opened 0 1) ∧ s.written = [(1, 1024)] ∧
      s.rt.engine.isDead 1024 = false ∧ t.rt.engine.isDead 1024 = true ∧
      ¬ CloseRace.ReclaimSpares s 0 := by
  have hstate : ((Machine.run CloseRace.step (CloseRace.init .default)
      [.allocate 0, .open 0, .removeAssigned 0, .releaseSlot 0, .allocate 1, .open 1,
        .crdt 1 (encodeBatch [.put 1024 1 1 [5]])]).bind fun s =>
      (CloseRace.step s (.reclaim 0)).map fun t => decide
        (s.conns[0]? = some (.released 0 (some (1024, 512))) ∧
        s.conns[1]? = some (.opened 0 1) ∧ s.written = [(1, 1024)] ∧
        s.rt.engine.isDead 1024 = false ∧ t.rt.engine.isDead 1024 = true)) = some true := by
    decide
  obtain ⟨s, hrun, hs⟩ := Option.bind_eq_some_iff.mp hstate
  obtain ⟨t, hstep, ht⟩ := Option.map_eq_some_iff.mp hs
  obtain ⟨h0, h1, hw, halive, hdead⟩ := of_decide_eq_true ht
  refine ⟨s, t, hrun, hstep, h0, h1, hw, halive, hdead, fun hspares => ?_⟩
  have hcontra := hspares 0 _ t h0 hstep (1, 1024) (by rw [hw]; exact List.mem_singleton_self _)
    (by decide) halive
  rw [hdead] at hcontra
  cases hcontra

end Catalyrst.SceneState
