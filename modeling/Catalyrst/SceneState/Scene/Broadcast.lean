import Catalyrst.Lib.Machine
import Catalyrst.SceneState.Crdt.Snapshot
import Catalyrst.SceneState.Runtime.Relay

/-!
# Joining a room while others write (`scene.rs`, `ws.rs`)

`add_client` allocates an index, takes the snapshot and registers the client, in
three steps. A message is applied under the engine's lock and broadcast to the
clients registered by then. This module plays every interleaving of these steps
and says what a joined client knows once they have finished.
-/

namespace Catalyrst.SceneState
open Catalyrst.Lib CrdtEngine Replica

namespace Broadcast

/-- A connection's handler, with its outbound channel. -/
structure Conn where
  index : U32
  /-- What `on_client_open` returned. -/
  init : Option InitState
  /-- `Scene.clients` was told. -/
  registered : Bool
  /-- Bodies returned by `on_client_crdt` that are still to be broadcast. -/
  pending : List Bytes
  /-- The frames in the outbound channel. -/
  queue : List Bytes
  /-- The frames already taken out of the channel and sent. -/
  sent : List Bytes
  /-- The accepted messages of this client. -/
  own : List CrdtMessage
  /-- What the room had accepted when the snapshot was taken. -/
  seen : List CrdtMessage
  /-- The other clients that had their snapshot when the pending messages were
  applied. -/
  needs : List ℕ

structure State where
  rt : RelayRuntime
  /-- `Scene.clients`: the connection whose channel stands under each index. -/
  clients : OrdMap U32 ℕ
  conns : OrdMap ℕ Conn
  /-- The capacity of every outbound channel. -/
  cap : ℕ
  /-- Every accepted message of the room. -/
  log : List CrdtMessage

inductive Act where
  | allocate (conn : ℕ)
  | open (conn : ℕ)
  | register (conn : ℕ)
  | apply (conn : ℕ) (body : Bytes)
  | broadcast (conn : ℕ)
  | send (conn : ℕ)

def init (config : ServerTransportConfig) (cap : ℕ) : State :=
  ⟨RelayRuntime.new config, ∅, ∅, cap, []⟩

/-- `try_send`: a full channel drops the frame. -/
def Conn.trySend (cap : ℕ) (frame : Bytes) (conn : Conn) : Conn :=
  if conn.queue.length < cap then { conn with queue := conn.queue ++ [frame] } else conn

def sendTo (cap : ℕ) (frame : Bytes) (conns : OrdMap ℕ Conn) (c : ℕ) : OrdMap ℕ Conn :=
  match conns[c]? with
  | some conn => conns.insert c (conn.trySend cap frame)
  | none => conns

/-- `Scene::broadcast`: every registered client but the one under `except`. -/
def broadcast (cap : ℕ) (frame : Bytes) (except : U32) (clients : List (U32 × ℕ))
    (conns : OrdMap ℕ Conn) : OrdMap ℕ Conn :=
  clients.foldl (fun conns entry =>
    if entry.1 = except then conns else sendTo cap frame conns entry.2) conns

/-- The other connections that have taken their snapshot. -/
def snapshotTakers (s : State) (conn : ℕ) : List ℕ :=
  (s.conns.toList.filter fun e => decide (e.1 ≠ conn) && e.2.init.isSome).map Prod.fst

def step (s : State) : Act → Option State
  | .allocate conn =>
    match s.conns[conn]? with
    | some _ => none
    | none =>
      let r := s.rt.allocateClientIndex
      some { s with
        rt := r.2
        conns := s.conns.insert conn ⟨r.1, none, false, [], [], [], [], [], []⟩ }
  | .open conn =>
    match s.conns[conn]? with
    | some c =>
      if c.init.isSome then none
      else
        let r := s.rt.onClientOpen c.index
        some { s with
          rt := r.2
          conns := s.conns.insert conn { c with init := some r.1, seen := s.log } }
    | none => none
  | .register conn =>
    match s.conns[conn]? with
    | some c =>
      if c.init.isSome ∧ c.registered = false then
        some { s with
          clients := s.clients.insert c.index conn
          conns := s.conns.insert conn { c with registered := true } }
      else none
    | none => none
  | .apply conn body =>
    match s.conns[conn]? with
    | some c =>
      if c.registered = true ∧ c.pending = [] then
        let r := s.rt.onClientCrdt c.index body
        some { s with
          rt := r.2
          log := s.log ++ s.rt.accepted c.index body
          conns := s.conns.insert conn { c with
            pending := r.1
            own := c.own ++ s.rt.accepted c.index body
            needs := snapshotTakers s conn } }
      else none
    | none => none
  | .broadcast conn =>
    match s.conns[conn]? with
    | some c =>
      match c.pending with
      | [] => none
      | body :: rest =>
        let frame := Protocol.encodeMessage .crdt body
        some { s with
          conns := broadcast s.cap frame c.index s.clients.toList
            (s.conns.insert conn { c with pending := rest }) }
    | none => none
  | .send conn =>
    match s.conns[conn]? with
    | some c =>
      match c.queue with
      | [] => none
      | frame :: rest =>
        some { s with
          conns := s.conns.insert conn { c with queue := rest, sent := c.sent ++ [frame] } }
    | none => none

/-! ### What a client knows -/

def messagesOf (frame : Bytes) : List CrdtMessage :=
  match Protocol.decodeMessage frame with
  | some (.crdt, body) => decodeBatch body
  | _ => []

/-- The messages of every frame ever queued to the client, in order. -/
def Conn.frameMessages (conn : Conn) : List CrdtMessage :=
  (conn.sent ++ conn.queue).flatMap messagesOf

/-- However the client interleaves its own accepted messages with the frames, its
replica holds the cells and the removals of `e`. -/
def Conn.Agrees (conn : Conn) (e : CrdtEngine) : Prop :=
  ∀ start, conn.init = some start →
    ∀ msgs : List CrdtMessage, (∀ m, m ∈ msgs ↔ m ∈ conn.frameMessages ++ conn.own) →
      (new.applyAll (decodeBatch start.crdtState ++ msgs)).lww = e.lww ∧
      (new.applyAll (decodeBatch start.crdtState ++ msgs)).deleted = e.deleted

/-- All joins and all broadcasts have finished. -/
def Finished (s : State) : Prop :=
  ∀ (c : ℕ) (conn : Conn), s.conns[c]? = some conn → conn.registered = true ∧ conn.pending = []

/-- The client is registered and its channel has room. -/
def Ready (s : State) (c : ℕ) : Prop :=
  match s.conns[c]? with
  | some conn => s.clients[conn.index]? = some c ∧ conn.queue.length < s.cap
  | none => False

instance (s : State) (c : ℕ) : Decidable (Ready s c) :=
  match h : s.conns[c]? with
  | some conn => decidable_of_iff (s.clients[conn.index]? = some c ∧ conn.queue.length < s.cap)
    (by simp only [Ready, h])
  | none => isFalse (by simp only [Ready, h, not_false_eq_true])

/-- When a frame is broadcast, every other client that had its snapshot when the
messages were applied is registered and has room. -/
def Reaches (s : State) : Act → Prop
  | .broadcast conn =>
    match s.conns[conn]? with
    | some c => ∀ d ∈ c.needs, Ready s d
    | none => True
  | _ => True

instance (s : State) : (a : Act) → Decidable (Reaches s a)
  | .broadcast conn =>
    match h : s.conns[conn]? with
    | some c => decidable_of_iff (∀ d ∈ c.needs, Ready s d) (by simp only [Reaches, h])
    | none => isTrue (by simp only [Reaches, h])
  | .allocate _ => isTrue trivial
  | .open _ => isTrue trivial
  | .register _ => isTrue trivial
  | .apply _ _ => isTrue trivial
  | .send _ => isTrue trivial

/-! ### The broadcast loop -/

theorem find_sendTo (cap : ℕ) (frame : Bytes) (conns : OrdMap ℕ Conn) (c d : ℕ) :
    (sendTo cap frame conns c)[d]? =
      if c = d then conns[d]?.map (Conn.trySend cap frame) else conns[d]? := by
  unfold sendTo
  by_cases hcd : c = d
  · subst hcd
    cases h : conns[c]? with
    | none => simp [h]
    | some conn => simp
  · rw [if_neg hcd]
    cases h : conns[c]? with
    | none => rfl
    | some conn => simp only [OrdMap.find_insert, if_neg hcd]

/-- A connection after frames were queued to it: only its queue grew, by copies
of the frame. -/
def Conn.Grew (frame : Bytes) (conn conn' : Conn) : Prop :=
  ∃ k, conn' = { conn with queue := conn.queue ++ List.replicate k frame }

theorem Conn.Grew.trans {frame : Bytes} {a b c : Conn} (h : Conn.Grew frame a b)
    (h' : Conn.Grew frame b c) : Conn.Grew frame a c := by
  obtain ⟨k, rfl⟩ := h
  obtain ⟨k', rfl⟩ := h'
  refine ⟨k + k', ?_⟩
  simp only [List.replicate_add, List.append_assoc]

theorem Conn.grew_refl (frame : Bytes) (conn : Conn) : Conn.Grew frame conn conn :=
  ⟨0, by simp only [List.replicate_zero, List.append_nil]⟩

theorem Conn.grew_trySend (cap : ℕ) (frame : Bytes) (conn : Conn) :
    Conn.Grew frame conn (conn.trySend cap frame) := by
  unfold Conn.trySend
  split
  · exact ⟨1, rfl⟩
  · exact Conn.grew_refl frame conn

/-- The loop keeps every connection and only grows its queue. -/
theorem broadcast_grew (cap : ℕ) (frame : Bytes) (except : U32) (clients : List (U32 × ℕ))
    (conns : OrdMap ℕ Conn) (d : ℕ) :
    (∀ conn, conns[d]? = some conn →
      ∃ conn', (broadcast cap frame except clients conns)[d]? = some conn' ∧
        Conn.Grew frame conn conn') ∧
    (conns[d]? = none → (broadcast cap frame except clients conns)[d]? = none) := by
  induction clients generalizing conns with
  | nil => exact ⟨fun conn h => ⟨conn, h, Conn.grew_refl frame conn⟩, fun h => h⟩
  | cons entry clients ih =>
    have hcons : broadcast cap frame except (entry :: clients) conns =
        broadcast cap frame except clients
          (if entry.1 = except then conns else sendTo cap frame conns entry.2) := rfl
    rw [hcons]
    split
    · exact ih conns
    · refine ⟨fun conn h => ?_, fun h => ?_⟩
      · by_cases hd : entry.2 = d
        · have hnext : (sendTo cap frame conns entry.2)[d]? = some (conn.trySend cap frame) := by
            rw [find_sendTo, if_pos hd, h]
            rfl
          obtain ⟨conn', hfind, hgrew⟩ := (ih _).1 _ hnext
          exact ⟨conn', hfind, (Conn.grew_trySend cap frame conn).trans hgrew⟩
        · have hnext : (sendTo cap frame conns entry.2)[d]? = some conn := by
            rw [find_sendTo, if_neg hd, h]
          exact (ih _).1 conn hnext
      · refine (ih _).2 ?_
        rw [find_sendTo, h]
        split
        · rfl
        · rfl

theorem broadcast_grew_back {cap : ℕ} {frame : Bytes} {except : U32} {clients : List (U32 × ℕ)}
    {conns : OrdMap ℕ Conn} {d : ℕ} {conn' : Conn}
    (h : (broadcast cap frame except clients conns)[d]? = some conn') :
    ∃ conn, conns[d]? = some conn ∧ Conn.Grew frame conn conn' := by
  obtain ⟨hsome, hnone⟩ := broadcast_grew cap frame except clients conns d
  cases hd : conns[d]? with
  | none =>
    rw [hnone hd] at h
    cases h
  | some conn =>
    obtain ⟨conn'', hfind, hgrew⟩ := hsome conn hd
    rw [h] at hfind
    cases hfind
    exact ⟨conn, rfl, hgrew⟩

/-- A listed client with room gets the frame. -/
theorem broadcast_queued (cap : ℕ) (frame : Bytes) (except : U32) (clients : List (U32 × ℕ))
    (conns : OrdMap ℕ Conn) {i : U32} {d : ℕ} (hin : (i, d) ∈ clients) (hi : i ≠ except)
    {conn : Conn} (h : conns[d]? = some conn) (hroom : conn.queue.length < cap) :
    ∃ conn', (broadcast cap frame except clients conns)[d]? = some conn' ∧
      frame ∈ conn'.queue := by
  induction clients generalizing conns with
  | nil => cases hin
  | cons entry clients ih =>
    have hcons : broadcast cap frame except (entry :: clients) conns =
        broadcast cap frame except clients
          (if entry.1 = except then conns else sendTo cap frame conns entry.2) := rfl
    rw [hcons]
    split
    · rename_i hexcept
      rcases List.mem_cons.mp hin with rfl | hin
      · exact absurd hexcept hi
      · exact ih conns hin h
    · by_cases hd : entry.2 = d
      · -- the first send to `d` finds the room; later ones only grow the queue
        have hnext : (sendTo cap frame conns entry.2)[d]? =
            some { conn with queue := conn.queue ++ [frame] } := by
          rw [find_sendTo, if_pos hd, h]
          simp only [Option.map_some, Conn.trySend, if_pos hroom]
        obtain ⟨conn', hfind, k, rfl⟩ := (broadcast_grew cap frame except clients _ d).1 _ hnext
        refine ⟨_, hfind, ?_⟩
        simp
      · have hnext : (sendTo cap frame conns entry.2)[d]? = some conn := by
          rw [find_sendTo, if_neg hd, h]
        rcases List.mem_cons.mp hin with rfl | hin
        · exact absurd rfl hd
        · exact ih _ hin hnext

/-! ### The invariant -/

/-- What holds of a connection, given the messages accepted so far. -/
structure ConnInv (log : List CrdtMessage) (c : ℕ) (conn : Conn) : Prop where
  snap : ∀ start, conn.init = some start →
    joined (decodeBatch start.crdtState) = mask (joined conn.seen)
  seen : conn.seen ⊆ log
  own : conn.own ⊆ log
  frames : conn.frameMessages ⊆ log
  pending : ∀ body ∈ conn.pending, decodeBatch body ⊆ log
  sender : conn.pending ≠ [] → conn.index ≠ u32Max
  needs : c ∉ conn.needs

theorem ConnInv.mono {log log' : List CrdtMessage} {c : ℕ} {conn : Conn} (h : ConnInv log c conn)
    (hle : log ⊆ log') : ConnInv log' c conn :=
  ⟨h.snap, fun _ hm => hle (h.seen hm), fun _ hm => hle (h.own hm), fun _ hm => hle (h.frames hm),
    fun body hb _ hm => hle (h.pending body hb hm), h.sender, h.needs⟩

theorem connInv_allocated (log : List CrdtMessage) (c : ℕ) (index : U32) :
    ConnInv log c ⟨index, none, false, [], [], [], [], [], []⟩ := by
  refine ⟨?_, List.nil_subset _, List.nil_subset _, List.nil_subset _, ?_, ?_, List.not_mem_nil⟩
  · intro start hs
    cases hs
  · intro body hb
    cases hb
  · intro hp
    exact absurd rfl hp

/-- The message is known to the client or on its way to it. -/
def Known (conns : OrdMap ℕ Conn) (c : ℕ) (conn : Conn) (m : CrdtMessage) : Prop :=
  m ∈ conn.seen ∨ m ∈ conn.own ∨ m ∈ conn.frameMessages ∨
    ∃ (d : ℕ) (other : Conn), conns[d]? = some other ∧ c ∈ other.needs ∧
      ∃ body ∈ other.pending, m ∈ decodeBatch body

structure Inv (s : State) : Prop where
  wf : s.rt.Wf
  slots : s.rt.slots.Held fun c => s.conns[c]?.map Conn.index
  engine : s.rt.engine.view = mask (joined s.log)
  fits : ∀ m ∈ s.log, m.Fits
  conn : ∀ (c : ℕ) (conn : Conn), s.conns[c]? = some conn → ConnInv s.log c conn
  known : ∀ (c : ℕ) (conn : Conn), s.conns[c]? = some conn → conn.init.isSome = true →
    ∀ m ∈ s.log, Known s.conns c conn m

theorem init_inv (config : ServerTransportConfig) (cap : ℕ) : Inv (init config cap) := by
  have hnone : ∀ c : ℕ, (init config cap).conns[c]? = none := fun _ => Std.ExtTreeMap.getElem?_empty
  refine ⟨RelayRuntime.new_wf config, ClientSlots.held_empty fun c => ?_, ?_, ?_, ?_, ?_⟩
  · rw [hnone]
    rfl
  · show new.view = mask (joined [])
    rw [view_new]
    exact mask_stable.bot.symm
  · intro m hm
    cases hm
  · intro c conn h
    rw [hnone] at h
    cases h
  · intro c conn h
    rw [hnone] at h
    cases h

/-- A message on its way through the connection `x` stays on its way when `x`
keeps its pending bodies. -/
theorem known_insert {conns : OrdMap ℕ Conn} {x : ℕ} {q : Conn}
    (hkeep : ∀ old, conns[x]? = some old → ∀ c ∈ old.needs, ∀ body ∈ old.pending,
      c ∈ q.needs ∧ body ∈ q.pending)
    {c : ℕ} {conn : Conn} {m : CrdtMessage} (h : Known conns c conn m) :
    Known (conns.insert x q) c conn m := by
  rcases h with h | h | h | ⟨d, other, hd, hneeds, body, hbody, hm⟩
  · exact Or.inl h
  · exact Or.inr (Or.inl h)
  · exact Or.inr (Or.inr (Or.inl h))
  · refine Or.inr (Or.inr (Or.inr ?_))
    by_cases hx : x = d
    · subst hx
      obtain ⟨hn, hb⟩ := hkeep other hd c hneeds body hbody
      exact ⟨x, q, by simp only [OrdMap.find_insert, if_true], hn, body, hb, hm⟩
    · exact ⟨d, other, by simp only [OrdMap.find_insert, if_neg hx]; exact hd, hneeds,
        body, hbody, hm⟩

/-- Two states of a connection that differ only in the registration and in how
far its frames have travelled. -/
structure Conn.Same (old new : Conn) : Prop where
  index : new.index = old.index
  init : new.init = old.init
  pending : new.pending = old.pending
  frames : new.frameMessages = old.frameMessages
  own : new.own = old.own
  seen : new.seen = old.seen
  needs : new.needs = old.needs

theorem ConnInv.same {log : List CrdtMessage} {c : ℕ} {old new : Conn} (h : ConnInv log c old)
    (hs : Conn.Same old new) : ConnInv log c new := by
  refine ⟨?_, ?_, ?_, ?_, ?_, ?_, ?_⟩
  · rw [hs.init, hs.seen]
    exact h.snap
  · rw [hs.seen]
    exact h.seen
  · rw [hs.own]
    exact h.own
  · rw [hs.frames]
    exact h.frames
  · rw [hs.pending]
    exact h.pending
  · rw [hs.pending, hs.index]
    exact h.sender
  · rw [hs.needs]
    exact h.needs

theorem same_inv {s : State} (h : Inv s) {x : ℕ} {old new : Conn} (hx : s.conns[x]? = some old)
    (hs : Conn.Same old new) {clients : OrdMap U32 ℕ} :
    Inv { s with clients := clients, conns := s.conns.insert x new } := by
  have hkeep : ∀ old', s.conns[x]? = some old' → ∀ c ∈ old'.needs, ∀ body ∈ old'.pending,
      c ∈ new.needs ∧ body ∈ new.pending := by
    intro old' hold c hc body hb
    rw [hx] at hold
    cases hold
    rw [hs.needs, hs.pending]
    exact ⟨hc, hb⟩
  refine ⟨h.wf, h.slots.mono fun c i hi => ?_, h.engine, h.fits, ?_, ?_⟩
  · simp only [OrdMap.find_insert] at hi
    split at hi
    · rename_i heq
      rw [← heq, hx]
      simpa only [Option.map_some, hs.index] using hi
    · exact hi
  · intro c conn hc
    simp only [OrdMap.find_insert] at hc
    split at hc
    · rename_i heq
      rw [← Option.some.inj hc, ← heq]
      exact (h.conn x old hx).same hs
    · exact h.conn c conn hc
  · intro c conn hc hin m hm
    refine known_insert hkeep ?_
    simp only [OrdMap.find_insert] at hc
    split at hc
    · rename_i heq
      subst heq
      rw [← Option.some.inj hc] at hin ⊢
      rw [hs.init] at hin
      simpa only [Known, hs.seen, hs.own, hs.frames] using h.known x old hx hin m hm
    · exact h.known c conn hc hin m hm

theorem allocate_inv {s : State} (h : Inv s) {x : ℕ} (hx : s.conns[x]? = none) :
    Inv { s with
      rt := s.rt.allocateClientIndex.2
      conns := s.conns.insert x
        ⟨s.rt.allocateClientIndex.1, none, false, [], [], [], [], [], []⟩ } := by
  refine ⟨h.wf.allocate, h.slots.acquire (c := x) ?_ fun d hd => ?_, h.engine, h.fits, ?_, ?_⟩
  · simp only [OrdMap.find_insert, if_true]
    rfl
  · simp only [OrdMap.find_insert, if_neg (Ne.symm hd)]
  · intro c conn hc
    simp only [OrdMap.find_insert] at hc
    split at hc
    · rw [← Option.some.inj hc]
      exact connInv_allocated s.log c _
    · exact h.conn c conn hc
  · intro c conn hc hin m hm
    have hkeep : ∀ old, s.conns[x]? = some old → ∀ c ∈ old.needs, ∀ body ∈ old.pending,
        c ∈ ([] : List ℕ) ∧ body ∈ ([] : List Bytes) := by
      intro old hold
      rw [hx] at hold
      cases hold
    refine known_insert hkeep ?_
    simp only [OrdMap.find_insert] at hc
    split at hc
    · rw [← Option.some.inj hc] at hin
      cases hin
    · exact h.known c conn hc hin m hm

/-- The snapshot of the engine is what the room has accepted. -/
theorem Inv.joined_snapshot {s : State} (h : Inv s) :
    joined (decodeBatch s.rt.engine.snapshot) = mask (joined s.log) := by
  have hsame : s.rt.engine.snapshotMessages = (new.applyAll s.log).snapshotMessages := by
    obtain ⟨hl, hd⟩ := (view_eq_iff s.rt.engine (new.applyAll s.log)).mp
      (h.engine.trans (view_applyAll_new s.log).symm)
    simp only [snapshotMessages, hl, hd]
  have hfits : ∀ m ∈ s.rt.engine.snapshotMessages, m.Fits := by
    rw [hsame]
    exact snapshotMessages_fits s.log h.fits
  rw [snapshot, decodeBatch_encodeBatch _ hfits, joined_snapshotMessages, h.engine]

theorem open_inv {s : State} (h : Inv s) {x : ℕ} {c : Conn} (hx : s.conns[x]? = some c) :
    Inv { s with
      rt := (s.rt.onClientOpen c.index).2
      conns := s.conns.insert x
        { c with init := some (s.rt.onClientOpen c.index).1, seen := s.log } } := by
  have hc := h.conn x c hx
  have hkeep : ∀ old, s.conns[x]? = some old → ∀ d ∈ old.needs, ∀ body ∈ old.pending,
      d ∈ c.needs ∧ body ∈ c.pending := by
    intro old hold d hd body hb
    rw [hx] at hold
    cases hold
    exact ⟨hd, hb⟩
  refine ⟨h.wf.open c.index, h.slots.mono fun d i hi => ?_, h.engine, h.fits, ?_, ?_⟩
  · simp only [OrdMap.find_insert] at hi
    split at hi
    · rename_i heq
      rw [← heq, hx]
      exact hi
    · exact hi
  · intro d conn hd
    simp only [OrdMap.find_insert] at hd
    split at hd
    · rename_i heq
      rw [← Option.some.inj hd, ← heq]
      refine ⟨fun start hs => ?_, fun _ hm => hm, hc.own, hc.frames, hc.pending, hc.sender,
        hc.needs⟩
      rw [← Option.some.inj hs]
      exact h.joined_snapshot
    · exact h.conn d conn hd
  · intro d conn hd hin m hm
    simp only [OrdMap.find_insert] at hd
    split at hd
    · rw [← Option.some.inj hd]
      exact Or.inl hm
    · refine known_insert ?_ (h.known d conn hd hin m hm)
      exact hkeep

theorem mem_snapshotTakers (s : State) (x c : ℕ) :
    c ∈ snapshotTakers s x ↔ c ≠ x ∧ ∃ conn, s.conns[c]? = some conn ∧ conn.init.isSome = true := by
  simp only [snapshotTakers, List.mem_map, List.mem_filter, Bool.and_eq_true, decide_eq_true_eq]
  constructor
  · rintro ⟨⟨d, conn⟩, ⟨hin, hne, hinit⟩, rfl⟩
    exact ⟨hne, conn, (OrdMap.mem_entries _ _ _).mp hin, hinit⟩
  · rintro ⟨hne, conn, hc, hinit⟩
    exact ⟨(c, conn), ⟨(OrdMap.mem_entries _ _ _).mpr hc, hne, hinit⟩, rfl⟩

section Apply

variable {s : State} {x : ℕ} {c : Conn} {index : U32} {body : Bytes}

/-- The connection `x` once the engine has taken the body in. -/
abbrev Conn.applied (s : State) (x : ℕ) (c : Conn) (body : Bytes) : Conn :=
  { c with
    pending := (s.rt.onClientCrdt c.index body).1
    own := c.own ++ s.rt.accepted c.index body
    needs := snapshotTakers s x }

theorem accepted_fits : ∀ m ∈ s.rt.accepted index body, m.Fits := by
  intro m hm
  obtain ⟨_, _, _, _, hin, _⟩ := RelayRuntime.admitted_spec (s.rt.accepted_subset _ _ hm)
  exact decodeBatch_fits body m hin

/-- What is broadcast is what was accepted. -/
theorem decodeBatch_of_sent {b : Bytes} (hb : b ∈ (s.rt.onClientCrdt index body).1) :
    decodeBatch b = s.rt.accepted index body := by
  rw [RelayRuntime.onClientCrdt_fst] at hb
  split at hb
  · cases hb
  · rw [List.mem_singleton.mp hb, decodeBatch_encodeBatch _ accepted_fits]

theorem encodeBatch_sent (hne : s.rt.accepted index body ≠ []) :
    encodeBatch (s.rt.accepted index body) ∈ (s.rt.onClientCrdt index body).1 := by
  rw [RelayRuntime.onClientCrdt_fst, if_neg hne]
  exact List.mem_singleton_self _

/-- Only a client with a range has anything to broadcast. -/
theorem sender_has_range (h : Inv s) (hne : (s.rt.onClientCrdt index body).1 ≠ []) :
    index ≠ u32Max := by
  rintro rfl
  have hacc : s.rt.accepted u32Max body ≠ [] := by
    intro hnil
    rw [RelayRuntime.onClientCrdt_fst, if_pos hnil] at hne
    exact hne rfl
  obtain ⟨m, hm⟩ := List.exists_mem_of_ne_nil _ hacc
  obtain ⟨range, hr, hholds, _⟩ := RelayRuntime.admitted_spec (s.rt.accepted_subset _ _ hm)
  rw [h.wf.assigned _ range hr] at hholds
  exact ServerTransportConfig.not_holds_u32Max _ _ hholds

theorem engine_applied (h : Inv s) :
    (s.rt.onClientCrdt index body).2.engine.view =
      mask (joined (s.log ++ s.rt.accepted index body)) := by
  rw [RelayRuntime.onClientCrdt_snd]
  show (s.rt.engine.applyAll (s.rt.admitted index body)).view = _
  rw [← applyAll_accepted h.wf.uncapped, view_applyAll h.wf.uncapped.components h.wf.live,
    h.engine, mask_stable.join, joined_append]
  rfl

theorem connInv_applied (h : Inv s) (hx : s.conns[x]? = some c) :
    ConnInv (s.log ++ s.rt.accepted c.index body) x (.applied s x c body) := by
  have hc := h.conn x c hx
  have hgrow : s.log ⊆ s.log ++ s.rt.accepted c.index body := List.subset_append_left _ _
  have hnew : s.rt.accepted c.index body ⊆ s.log ++ s.rt.accepted c.index body :=
    List.subset_append_right _ _
  refine ⟨hc.snap, fun _ hm => hgrow (hc.seen hm), ?_, fun _ hm => hgrow (hc.frames hm), ?_,
    sender_has_range h, ?_⟩
  · intro m hm
    rcases List.mem_append.mp hm with hm | hm
    · exact hgrow (hc.own hm)
    · exact hnew hm
  · intro b hb m hm
    rw [decodeBatch_of_sent hb] at hm
    exact hnew hm
  · intro hin
    exact ((mem_snapshotTakers s x x).mp hin).1 rfl

/-- Nothing was on its way through the connection before. -/
theorem known_applied {d : ℕ} {conn : Conn} {m : CrdtMessage} (hx : s.conns[x]? = some c)
    (hidle : c.pending = []) (h : Known s.conns d conn m) :
    Known (s.conns.insert x (.applied s x c body)) d conn m := by
  refine known_insert (fun old hold d _ b hb => ?_) h
  rw [hx] at hold
  cases hold
  rw [hidle] at hb
  cases hb

/-- A new message is on its way to every other client with a snapshot. -/
theorem known_accepted {d : ℕ} {conn : Conn} {m : CrdtMessage} (hne : d ≠ x)
    (hd : s.conns[d]? = some conn) (hin : conn.init.isSome = true)
    (hm : m ∈ s.rt.accepted c.index body) :
    Known (s.conns.insert x (.applied s x c body)) d conn m := by
  have hself : (s.conns.insert x (.applied s x c body))[x]? = some (.applied s x c body) := by
    simp only [OrdMap.find_insert, if_true]
  refine Or.inr (Or.inr (Or.inr ⟨x, _, hself, ?_, encodeBatch (s.rt.accepted c.index body), ?_, ?_⟩))
  · exact (mem_snapshotTakers s x d).mpr ⟨hne, conn, hd, hin⟩
  · exact encodeBatch_sent (List.ne_nil_of_mem hm)
  · rw [decodeBatch_encodeBatch _ accepted_fits]
    exact hm

theorem apply_inv (h : Inv s) (hx : s.conns[x]? = some c) (hidle : c.pending = []) :
    Inv { s with
      rt := (s.rt.onClientCrdt c.index body).2
      log := s.log ++ s.rt.accepted c.index body
      conns := s.conns.insert x (.applied s x c body) } := by
  refine ⟨h.wf.crdt c.index body, ?_, engine_applied h, ?_, ?_, ?_⟩
  · rw [RelayRuntime.onClientCrdt_snd]
    refine h.slots.mono fun d i hi => ?_
    simp only [OrdMap.find_insert] at hi
    split at hi
    · rename_i heq
      rw [← heq, hx]
      exact hi
    · exact hi
  · intro m hm
    rcases List.mem_append.mp hm with hm | hm
    · exact h.fits m hm
    · exact accepted_fits m hm
  · intro d conn hd
    simp only [OrdMap.find_insert] at hd
    split at hd
    · rename_i heq
      rw [← Option.some.inj hd, ← heq]
      exact connInv_applied h hx
    · exact (h.conn d conn hd).mono (List.subset_append_left _ _)
  · intro d conn hd hin m hm
    simp only [OrdMap.find_insert] at hd
    split at hd
    · rename_i heq
      subst heq
      obtain rfl := Option.some.inj hd
      rcases List.mem_append.mp hm with hm | hm
      · rcases known_applied hx hidle (h.known x c hx hin m hm) with hk | hk | hk | hk
        · exact Or.inl hk
        · exact Or.inr (Or.inl (List.mem_append_left _ hk))
        · exact Or.inr (Or.inr (Or.inl hk))
        · exact Or.inr (Or.inr (Or.inr hk))
      · exact Or.inr (Or.inl (List.mem_append_right _ hm))
    · rename_i hne
      rcases List.mem_append.mp hm with hm | hm
      · exact known_applied hx hidle (h.known d conn hd hin m hm)
      · exact known_accepted (Ne.symm hne) hd hin hm

end Apply

theorem messagesOf_encodeMessage (body : Bytes) :
    messagesOf (Protocol.encodeMessage .crdt body) = decodeBatch body := by
  simp only [messagesOf, Protocol.decodeMessage_encodeMessage]

theorem mem_frameMessages {conn : Conn} {m : CrdtMessage} :
    m ∈ conn.frameMessages ↔ ∃ frame ∈ conn.sent ++ conn.queue, m ∈ messagesOf frame :=
  List.mem_flatMap

theorem Conn.Grew.frameMessages {frame : Bytes} {conn conn' : Conn}
    (h : Conn.Grew frame conn conn') (m : CrdtMessage) :
    (m ∈ conn.frameMessages → m ∈ conn'.frameMessages) ∧
    (m ∈ conn'.frameMessages → m ∈ conn.frameMessages ∨ m ∈ messagesOf frame) := by
  obtain ⟨k, rfl⟩ := h
  refine ⟨fun hm => ?_, fun hm => ?_⟩
  · obtain ⟨f, hf, hmf⟩ := mem_frameMessages.mp hm
    refine mem_frameMessages.mpr ⟨f, ?_, hmf⟩
    rw [← List.append_assoc]
    exact List.mem_append_left _ hf
  · obtain ⟨f, hf, hmf⟩ := mem_frameMessages.mp hm
    rw [← List.append_assoc] at hf
    rcases List.mem_append.mp hf with hf | hf
    · exact Or.inl (mem_frameMessages.mpr ⟨f, hf, hmf⟩)
    · rw [List.eq_of_mem_replicate hf] at hmf
      exact Or.inr hmf

/-- A connection whose queue grew by frames of accepted messages. -/
theorem ConnInv.grew {log : List CrdtMessage} {c : ℕ} {conn conn' : Conn} {body : Bytes}
    (h : ConnInv log c conn) (hg : Conn.Grew (Protocol.encodeMessage .crdt body) conn conn')
    (hbody : decodeBatch body ⊆ log) : ConnInv log c conn' := by
  have hframes : conn'.frameMessages ⊆ log := by
    intro m hm
    rcases (hg.frameMessages m).2 hm with hm | hm
    · exact h.frames hm
    · rw [messagesOf_encodeMessage] at hm
      exact hbody hm
  obtain ⟨k, rfl⟩ := hg
  exact ⟨h.snap, h.seen, h.own, hframes, h.pending, h.sender, h.needs⟩

theorem Ready.elim {s : State} {d : ℕ} (h : Ready s d) {conn : Conn} (hd : s.conns[d]? = some conn) :
    s.clients[conn.index]? = some d ∧ conn.queue.length < s.cap := by
  simpa only [Ready, hd] using h

section Broadcasts

variable {s : State} {x d : ℕ} {c conn' : Conn} {body : Bytes} {rest : List Bytes} {m : CrdtMessage}

/-- The connections once the body of `x` has been broadcast. -/
abbrev broadcasted (s : State) (x : ℕ) (c : Conn) (body : Bytes) (rest : List Bytes) :
    OrdMap ℕ Conn :=
  broadcast s.cap (Protocol.encodeMessage .crdt body) c.index s.clients.toList
    (s.conns.insert x { c with pending := rest })

/-- Where a connection after the loop comes from. -/
theorem conn_of_broadcasted (hx : s.conns[x]? = some c)
    (hd : (broadcasted s x c body rest)[d]? = some conn') :
    ∃ old conn, s.conns[d]? = some old ∧
      (d = x ∧ conn = { c with pending := rest } ∧ old = c ∨ d ≠ x ∧ conn = old) ∧
      Conn.Grew (Protocol.encodeMessage .crdt body) conn conn' := by
  obtain ⟨conn, hconn, hgrew⟩ := broadcast_grew_back hd
  simp only [OrdMap.find_insert] at hconn
  split at hconn
  · rename_i heq
    subst heq
    exact ⟨c, conn, hx, Or.inl ⟨rfl, (Option.some.inj hconn).symm, rfl⟩, hgrew⟩
  · rename_i hne
    exact ⟨conn, conn, hconn, Or.inr ⟨Ne.symm hne, rfl⟩, hgrew⟩

/-- What is still to be broadcast by any connection stays so. -/
theorem pending_of_broadcasted {conn : Conn}
    (hd : (s.conns.insert x { c with pending := rest })[d]? = some conn) :
    ∃ conn', (broadcasted s x c body rest)[d]? = some conn' ∧
      conn'.needs = conn.needs ∧ conn'.pending = conn.pending := by
  obtain ⟨conn', hd', k, rfl⟩ := (broadcast_grew _ _ _ _ _ d).1 conn hd
  exact ⟨_, hd', rfl, rfl⟩

theorem connInv_rest (h : Inv s) (hx : s.conns[x]? = some c) (hpending : c.pending = body :: rest) :
    ConnInv s.log x { c with pending := rest } := by
  have hc := h.conn x c hx
  refine ⟨hc.snap, hc.seen, hc.own, hc.frames, fun b hb => hc.pending b ?_, fun _ => ?_, hc.needs⟩
  · rw [hpending]
    exact List.mem_cons_of_mem _ hb
  · refine hc.sender ?_
    rw [hpending]
    exact List.cons_ne_nil _ _

/-- The frame reaches a client that needs it: it is registered, under another index, with room. -/
theorem frame_of_broadcasted {old : Conn} (h : Inv s) (hx : s.conns[x]? = some c)
    (hpending : c.pending = body :: rest) (hready : Ready s d) (hneeds : d ∈ c.needs)
    (hold : s.conns[d]? = some old) (hd : (broadcasted s x c body rest)[d]? = some conn')
    (hm : m ∈ decodeBatch body) : m ∈ conn'.frameMessages := by
  have hne : d ≠ x := fun heq => (h.conn x c hx).needs (heq ▸ hneeds)
  obtain ⟨hclient, hroom⟩ := hready.elim hold
  have hindex : old.index ≠ c.index := by
    intro heq
    have hpend : c.pending ≠ [] := by
      rw [hpending]
      exact List.cons_ne_nil _ _
    refine (h.conn x c hx).sender hpend (h.slots.distinct d x c.index hne ?_ ?_)
    · rw [hold]
      exact congrArg some heq
    · rw [hx]
      rfl
  have hd1 : (s.conns.insert x { c with pending := rest })[d]? = some old := by
    simp only [OrdMap.find_insert, if_neg (Ne.symm hne)]
    exact hold
  obtain ⟨conn'', hd'', hqueued⟩ := broadcast_queued s.cap (Protocol.encodeMessage .crdt body)
    c.index s.clients.toList _ ((OrdMap.mem_entries _ _ _).mpr hclient) hindex hd1 hroom
  obtain rfl := Option.some.inj (hd.symm.trans hd'')
  refine mem_frameMessages.mpr ⟨_, List.mem_append_right _ hqueued, ?_⟩
  rw [messagesOf_encodeMessage]
  exact hm

theorem known_broadcasted (h : Inv s) (hx : s.conns[x]? = some c)
    (hpending : c.pending = body :: rest) (hready : ∀ d ∈ c.needs, Ready s d)
    (hd : (broadcasted s x c body rest)[d]? = some conn') (hin : conn'.init.isSome = true)
    (hm : m ∈ s.log) : Known (broadcasted s x c body rest) d conn' m := by
  obtain ⟨old, conn, hold, hcase, hgrew⟩ := conn_of_broadcasted hx hd
  have hsame : old.init.isSome = true ∧ conn'.seen = old.seen ∧ conn'.own = old.own ∧
      (m ∈ old.frameMessages → m ∈ conn'.frameMessages) := by
    have hf := (hgrew.frameMessages m).1
    obtain ⟨k, rfl⟩ := hgrew
    rcases hcase with ⟨_, rfl, rfl⟩ | ⟨_, rfl⟩
    · exact ⟨hin, rfl, rfl, hf⟩
    · exact ⟨hin, rfl, rfl, hf⟩
  obtain ⟨hinit, hseen, hown, hframes⟩ := hsame
  rcases h.known d old hold hinit m hm with hk | hk | hk | ⟨e, other, he, hneeds, b, hb, hmb⟩
  · exact Or.inl (hseen.symm ▸ hk)
  · exact Or.inr (Or.inl (hown.symm ▸ hk))
  · exact Or.inr (Or.inr (Or.inl (hframes hk)))
  · by_cases hex : e = x
    · subst hex
      obtain rfl := Option.some.inj (hx.symm.trans he)
      rw [hpending] at hb
      rcases List.mem_cons.mp hb with rfl | hb
      · exact Or.inr (Or.inr (Or.inl
          (frame_of_broadcasted h hx hpending (hready d hneeds) hneeds hold hd hmb)))
      · have hself : (s.conns.insert e { c with pending := rest })[e]? =
            some { c with pending := rest } := by
          simp only [OrdMap.find_insert, if_true]
        obtain ⟨other', he', hn', hp'⟩ := pending_of_broadcasted hself
        exact Or.inr (Or.inr (Or.inr ⟨e, other', he', hn' ▸ hneeds, b, hp' ▸ hb, hmb⟩))
    · have hother : (s.conns.insert x { c with pending := rest })[e]? = some other := by
        simp only [OrdMap.find_insert, if_neg (Ne.symm hex)]
        exact he
      obtain ⟨other', he', hn', hp'⟩ := pending_of_broadcasted hother
      exact Or.inr (Or.inr (Or.inr ⟨e, other', he', hn' ▸ hneeds, b, hp' ▸ hb, hmb⟩))

theorem broadcast_inv (h : Inv s) (hx : s.conns[x]? = some c) (hpending : c.pending = body :: rest)
    (hready : ∀ d ∈ c.needs, Ready s d) : Inv { s with conns := broadcasted s x c body rest } := by
  have hbody : decodeBatch body ⊆ s.log := by
    refine (h.conn x c hx).pending body ?_
    rw [hpending]
    exact List.mem_cons_self ..
  refine ⟨h.wf, h.slots.mono fun d i hi => ?_, h.engine, h.fits, ?_, ?_⟩
  · obtain ⟨conn', hd, hindex⟩ := Option.map_eq_some_iff.mp hi
    obtain ⟨old, conn, hold, hcase, k, rfl⟩ := conn_of_broadcasted hx hd
    rw [hold]
    rcases hcase with ⟨_, rfl, rfl⟩ | ⟨_, rfl⟩
    · exact congrArg some hindex
    · exact congrArg some hindex
  · intro d conn' hd
    obtain ⟨old, conn, hold, hcase, hgrew⟩ := conn_of_broadcasted hx hd
    rcases hcase with ⟨rfl, rfl, rfl⟩ | ⟨_, rfl⟩
    · exact (connInv_rest h hx hpending).grew hgrew hbody
    · exact (h.conn d conn hold).grew hgrew hbody
  · exact fun d conn' hd hin m hm => known_broadcasted h hx hpending hready hd hin hm

end Broadcasts

/-- What a step can do, guards included. -/
theorem step_cases {s t : State} {a : Act} (h : step s a = some t) :
    (∃ x, a = .allocate x ∧ s.conns[x]? = none ∧ t = { s with
      rt := s.rt.allocateClientIndex.2
      conns := s.conns.insert x
        ⟨s.rt.allocateClientIndex.1, none, false, [], [], [], [], [], []⟩ }) ∨
    (∃ x c, a = .open x ∧ s.conns[x]? = some c ∧ t = { s with
      rt := (s.rt.onClientOpen c.index).2
      conns := s.conns.insert x
        { c with init := some (s.rt.onClientOpen c.index).1, seen := s.log } }) ∨
    (∃ x c, a = .register x ∧ s.conns[x]? = some c ∧ t = { s with
      clients := s.clients.insert c.index x
      conns := s.conns.insert x { c with registered := true } }) ∨
    (∃ x c body, a = .apply x body ∧ s.conns[x]? = some c ∧ c.pending = [] ∧ t = { s with
      rt := (s.rt.onClientCrdt c.index body).2
      log := s.log ++ s.rt.accepted c.index body
      conns := s.conns.insert x { c with
        pending := (s.rt.onClientCrdt c.index body).1
        own := c.own ++ s.rt.accepted c.index body
        needs := snapshotTakers s x } }) ∨
    (∃ x c body rest, a = .broadcast x ∧ s.conns[x]? = some c ∧ c.pending = body :: rest ∧
      t = { s with
        conns := broadcast s.cap (Protocol.encodeMessage .crdt body) c.index s.clients.toList
          (s.conns.insert x { c with pending := rest }) }) ∨
    ∃ x c frame rest, a = .send x ∧ s.conns[x]? = some c ∧ c.queue = frame :: rest ∧
      t = { s with
        conns := s.conns.insert x { c with queue := rest, sent := c.sent ++ [frame] } } := by
  cases a with
  | allocate x =>
    dsimp only [step] at h
    split at h
    · cases h
    · rename_i hx
      exact Or.inl ⟨x, rfl, hx, (Option.some.inj h).symm⟩
  | «open» x =>
    dsimp only [step] at h
    split at h
    · rename_i c hx
      split at h
      · cases h
      · exact Or.inr (Or.inl ⟨x, c, rfl, hx, (Option.some.inj h).symm⟩)
    · cases h
  | register x =>
    dsimp only [step] at h
    split at h
    · rename_i c hx
      split at h
      · exact Or.inr (Or.inr (Or.inl ⟨x, c, rfl, hx, (Option.some.inj h).symm⟩))
      · cases h
    · cases h
  | apply x body =>
    dsimp only [step] at h
    split at h
    · rename_i c hx
      split at h
      · rename_i hidle
        exact Or.inr (Or.inr (Or.inr (Or.inl
          ⟨x, c, body, rfl, hx, hidle.2, (Option.some.inj h).symm⟩)))
      · cases h
    · cases h
  | broadcast x =>
    dsimp only [step] at h
    split at h
    · rename_i c hx
      split at h
      · cases h
      · rename_i body rest hp
        exact Or.inr (Or.inr (Or.inr (Or.inr (Or.inl
          ⟨x, c, body, rest, rfl, hx, hp, (Option.some.inj h).symm⟩))))
    · cases h
  | send x =>
    dsimp only [step] at h
    split at h
    · rename_i c hx
      split at h
      · cases h
      · rename_i frame rest hq
        exact Or.inr (Or.inr (Or.inr (Or.inr (Or.inr
          ⟨x, c, frame, rest, rfl, hx, hq, (Option.some.inj h).symm⟩))))
    · cases h

theorem step_inv {s t : State} {a : Act} (h : Inv s) (hok : Reaches s a)
    (hs : step s a = some t) : Inv t := by
  rcases step_cases hs with ⟨x, _, hx, rfl⟩ | ⟨x, c, _, hx, rfl⟩ | ⟨x, c, _, hx, rfl⟩ |
    ⟨x, c, body, _, hx, hidle, rfl⟩ | ⟨x, c, body, rest, rfl, hx, hp, rfl⟩ |
    ⟨x, c, frame, rest, _, hx, hq, rfl⟩
  · exact allocate_inv h hx
  · exact open_inv h hx
  · refine same_inv h hx ?_
    exact ⟨rfl, rfl, rfl, rfl, rfl, rfl, rfl⟩
  · exact apply_inv h hx hidle
  · refine broadcast_inv h hx hp ?_
    simpa only [Reaches, hx] using hok
  · refine same_inv h hx ?_
    refine ⟨rfl, rfl, rfl, ?_, rfl, rfl, rfl⟩
    simp only [Conn.frameMessages, hq, List.append_assoc, List.cons_append, List.nil_append]

/-- With nothing on its way any more, every client agrees with the engine. -/
theorem Inv.agrees {s : State} (h : Inv s) (hfin : Finished s) {c : ℕ} {conn : Conn}
    (hc : s.conns[c]? = some conn) : conn.Agrees s.rt.engine := by
  intro start hstart msgs hmsgs
  have hconn := h.conn c conn hc
  have hmem : ∀ m, m ∈ conn.seen ++ msgs ↔ m ∈ s.log := by
    intro m
    rw [List.mem_append, hmsgs, List.mem_append]
    constructor
    · rintro (hm | hm | hm)
      · exact hconn.seen hm
      · exact hconn.frames hm
      · exact hconn.own hm
    · intro hm
      rcases h.known c conn hc (by rw [hstart]; rfl) m hm with hk | hk | hk |
        ⟨d, other, hd, _, b, hb, _⟩
      · exact Or.inl hk
      · exact Or.inr (Or.inr hk)
      · exact Or.inr (Or.inl hk)
      · rw [(hfin d other hd).2] at hb
        cases hb
  have hview : (new.applyAll (decodeBatch start.crdtState ++ msgs)).view = s.rt.engine.view := by
    rw [view_applyAll_new, joined_append, hconn.snap start hstart, mask_stable.join,
      ← joined_append, joined_congr hmem, h.engine]
  exact (view_eq_iff _ _).mp hview

end Broadcast

/-- In every run in which each frame reaches the clients that need it, every
client holds the cells and the removals of the server once all joins and
broadcasts have finished. -/
theorem joined_clients_agree (config : ServerTransportConfig) (cap : ℕ)
    (acts : List Broadcast.Act) (s : Broadcast.State)
    (hok : Machine.Meets Broadcast.step Broadcast.Reaches (Broadcast.init config cap) acts)
    (hrun : Machine.run Broadcast.step (Broadcast.init config cap) acts = some s)
    (hfin : Broadcast.Finished s) (c : ℕ) (conn : Broadcast.Conn) (hc : s.conns[c]? = some conn) :
    conn.Agrees s.rt.engine :=
  (Machine.run_invariant_of_meets Broadcast.step
    (fun _ _ _ hp ha hs => Broadcast.step_inv hp ha hs) acts _ s hok hrun
    (Broadcast.init_inv config cap)).agrees hfin hc

/-- Client 1 joins between two messages of client 0 and hears both. -/
theorem joined_clients_agree_joining :
    let acts : List Broadcast.Act := [.allocate 0, .open 0, .register 0,
      .apply 0 (encodeBatch [.put 1024 1 1 [5]]), .allocate 1, .open 1, .register 1,
      .broadcast 0, .apply 0 (encodeBatch [.put 1025 1 1 [6]]), .broadcast 0, .send 1]
    ∃ s conn, Machine.Meets Broadcast.step Broadcast.Reaches (Broadcast.init .default 4) acts ∧
      Machine.run Broadcast.step (Broadcast.init .default 4) acts = some s ∧
      Broadcast.Finished s ∧ s.conns[1]? = some conn ∧ conn.Agrees s.rt.engine := by
  intro acts
  have hmeets : Machine.Meets Broadcast.step Broadcast.Reaches (Broadcast.init .default 4) acts := by
    decide
  have hstate : (Machine.run Broadcast.step (Broadcast.init .default 4) acts).map
      (fun s => decide ((s.conns.keys = [0, 1] ∧
        ∀ e ∈ s.conns.toList, e.2.registered = true ∧ e.2.pending = []))) = some true := by
    decide
  obtain ⟨s, hrun, hs⟩ := Option.map_eq_some_iff.mp hstate
  obtain ⟨hkeys, hall⟩ := of_decide_eq_true hs
  have hfin : Broadcast.Finished s := fun c conn hc =>
    hall (c, conn) ((OrdMap.mem_entries _ _ _).mpr hc)
  obtain ⟨conn, hc⟩ := (OrdMap.mem_keys s.conns 1).mp (by rw [hkeys]; decide)
  exact ⟨s, conn, hmeets, hrun, hfin, hc,
    joined_clients_agree .default 4 acts s hmeets hrun hfin 1 conn hc⟩

/-- Client 1 takes its snapshot, client 0's message is applied and broadcast, and
only then client 1 is registered: it never hears of the message. -/
theorem joining_client_misses_update :
    ∃ s conn, Machine.run Broadcast.step (Broadcast.init .default 4)
      [.allocate 0, .open 0, .register 0, .allocate 1, .open 1,
        .apply 0 (encodeBatch [.put 1024 1 1 [5]]), .broadcast 0, .register 1] = some s ∧
      Broadcast.Finished s ∧ s.conns[1]? = some conn ∧ conn.frameMessages = [] ∧ conn.own = [] ∧
      s.rt.engine.lww.toList = [(⟨1024, 0, 1⟩, ⟨1, some [5]⟩)] ∧
      ¬ conn.Agrees s.rt.engine := by
  have hstate : ((Machine.run Broadcast.step (Broadcast.init .default 4)
      [.allocate 0, .open 0, .register 0, .allocate 1, .open 1,
        .apply 0 (encodeBatch [.put 1024 1 1 [5]]), .broadcast 0, .register 1]).bind fun s =>
      s.conns[1]?.map fun conn => decide
        ((∀ e ∈ s.conns.toList, e.2.registered = true ∧ e.2.pending = []) ∧
        conn.frameMessages = [] ∧ conn.own = [] ∧
        s.rt.engine.lww.toList = [(⟨1024, 0, 1⟩, ⟨1, some [5]⟩)] ∧
        conn.init.map (fun start => (new.applyAll (decodeBatch start.crdtState)).lww.toList) =
          some [])) = some true := by
    decide
  obtain ⟨s, hrun, hs⟩ := Option.bind_eq_some_iff.mp hstate
  obtain ⟨conn, hc, hdec⟩ := Option.map_eq_some_iff.mp hs
  obtain ⟨hall, hframes, hown, hlww, hreplica⟩ := of_decide_eq_true hdec
  have hfin : Broadcast.Finished s := fun c conn hc =>
    hall (c, conn) ((OrdMap.mem_entries _ _ _).mpr hc)
  refine ⟨s, conn, hrun, hfin, hc, hframes, hown, hlww, fun hagrees => ?_⟩
  obtain ⟨start, hstart, hempty⟩ := Option.map_eq_some_iff.mp hreplica
  have heq := (hagrees start hstart [] fun m => by rw [hframes, hown]; rfl).1
  rw [List.append_nil] at heq
  rw [heq, hlww] at hempty
  cases hempty

end Catalyrst.SceneState
