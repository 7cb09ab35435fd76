import Catalyrst.Lib.Machine
import Catalyrst.SceneState.JsRuntime.SceneThread

/-!
# Ranges handed out by the JavaScript runtime

A connection reads the transport config, computes its range and tells the scene
thread, which drains its commands some time later. `registerScene` looks at the
channels the thread has already drained, so the config it replaces may be one
from which a range in flight was computed.
-/

namespace Catalyrst.SceneState
open Catalyrst.Lib

namespace JsRanges

/-- Where a connection stands between `allocate_client_index` and the end of
`on_client_close`. -/
inductive Phase where
  | allocated (index : U32)
  | configRead (index : U32) (cfg : ServerTransportConfig)
  | openSent (index : U32) (cfg : ServerTransportConfig)
  | connected (index : U32) (init : InitState)
  | closeSent (index : U32)
  | outboundRemoved (index : U32)

namespace Phase

def index : Phase → U32
  | allocated index => index
  | configRead index _ => index
  | openSent index _ => index
  | connected index _ => index
  | closeSent index => index
  | outboundRemoved index => index

/-- `on_client_close` has not been called yet. -/
def isLive : Phase → Bool
  | closeSent _ => false
  | outboundRemoved _ => false
  | _ => true

/-- `ClientOpen` is on its way or drained, and `on_client_close` has not been called. -/
def isOpen : Phase → Bool
  | openSent _ _ => true
  | connected _ _ => true
  | _ => false

/-- The range of a connection that has read the config. -/
def pledged : Phase → Range
  | configRead index cfg => cfg.rangeForClient index
  | openSent index cfg => cfg.rangeForClient index
  | connected _ init => (init.start, init.size)
  | _ => EMPTY_RANGE

/-- The slot a connection has to give back: the scene thread takes it over once
`ClientClose` is sent, unless it has stopped. -/
def slot (running : Bool) (p : Phase) : Option U32 :=
  if p.isLive || !running then some p.index else none

end Phase

structure State where
  rt : JsRuntime
  conns : OrdMap ℕ Phase

inductive Act where
  -- the connections
  | allocate (conn : ℕ)
  | readConfig (conn : ℕ)
  | sendOpen (conn : ℕ)
  | connect (conn : ℕ)
  | crdt (conn : ℕ) (body : Bytes)
  | sendClose (conn : ℕ)
  | removeOutbound (conn : ℕ)
  | closed (conn : ℕ)
  -- the scene thread
  | drain
  | registerScene (cfg : Option SceneConfig)
  | sendToRenderer (bytes : Bytes)
  | updateCrdtState (bytes : Bytes)
  | clientSend (index : U32) (bytes : Bytes)
  | getMessages (index : U32)
  | deliverOpen (index : U32)
  | reclaim (index : U32)
  | flush
  | retain
  | finish

def init (limits : RuntimeLimits) (staticCrdt : Bytes) : State := ⟨JsRuntime.spawn limits staticCrdt, ∅⟩

/-- A step of the scene thread, which is gone once it has stopped. -/
def threadStep (rt : JsRuntime) : Act → Option JsRuntime
  | .drain => rt.drain
  | .registerScene cfg => some (rt.registerScene cfg)
  | .sendToRenderer bytes => some (rt.crdtSendToRenderer bytes)
  | .updateCrdtState bytes => some (rt.updateCrdtState bytes)
  | .clientSend index bytes => some (rt.clientSend index bytes)
  | .getMessages index => some (rt.clientGetMessages index).2
  | .deliverOpen index => rt.deliverOpen index
  | .reclaim index => rt.reclaim index
  | .flush => some rt.flushOutbound
  | .retain => some rt.retain
  | .finish => some rt.finish
  | _ => none

/-- A step of a connection: the runtime and the connection after (`none` when it is
over). -/
def connStep (rt : JsRuntime) (phase : Option Phase) : Act → Option (JsRuntime × Option Phase)
  | .allocate _ =>
    match phase with
    | none => some (rt.allocateClientIndex.2, some (.allocated rt.allocateClientIndex.1))
    | _ => none
  | .readConfig conn =>
    match phase with
    | some (.allocated index) =>
      some ((rt.readConfig index conn).2, some (.configRead index (rt.readConfig index conn).1))
    | _ => none
  | .sendOpen _ =>
    match phase with
    | some (.configRead index cfg) =>
      some (rt.sendClientOpen index cfg, some (.openSent index cfg))
    | _ => none
  | .connect _ =>
    match phase with
    | some (.openSent index cfg) => some (rt, some (.connected index (rt.initState index cfg)))
    | _ => none
  | .crdt _ body =>
    match phase with
    | some (.connected index init) =>
      some (rt.onClientCrdt index body, some (.connected index init))
    | _ => none
  | .sendClose _ =>
    match phase with
    | some (.connected index _) => some (rt.sendClientClose index, some (.closeSent index))
    | _ => none
  | .removeOutbound _ =>
    match phase with
    | some (.closeSent index) => some (rt.removeOutbound index, some (.outboundRemoved index))
    | _ => none
  | .closed _ =>
    match phase with
    | some (.outboundRemoved index) => some (rt.releaseIfStopped index, none)
    | _ => none
  | _ => none

/-- The connection that an action belongs to, if any. -/
def Act.conn : Act → Option ℕ
  | .allocate conn => some conn
  | .readConfig conn => some conn
  | .sendOpen conn => some conn
  | .connect conn => some conn
  | .crdt conn _ => some conn
  | .sendClose conn => some conn
  | .removeOutbound conn => some conn
  | .closed conn => some conn
  | _ => none

def setConn (conns : OrdMap ℕ Phase) (conn : ℕ) : Option Phase → OrdMap ℕ Phase
  | some phase => conns.insert conn phase
  | none => conns.erase conn

def step (s : State) (a : Act) : Option State :=
  match a.conn with
  | some conn =>
    (connStep s.rt s.conns[conn]? a).map fun r => ⟨r.1, setConn s.conns conn r.2⟩
  | none =>
    if s.rt.running then (threadStep s.rt a).map fun rt => { s with rt := rt } else none

/-- Two clients connected at the same time hold no number in common. -/
def RangesDisjoint (s : State) : Prop :=
  ∀ (c d : ℕ) (p q : Phase), c ≠ d → s.conns[c]? = some p → s.conns[d]? = some q →
    p.isOpen = true → q.isOpen = true → ∀ number, ¬ (p.pledged.Holds number ∧ q.pledged.Holds number)

/-! ### The condition -/

/-- A replacement of the config changes nothing, or no connection has read a range
from it. -/
def KeepsPledges (s : State) (cfg : SceneConfig) : Prop :=
  s.rt.live = true ∨ cfg.transport = s.rt.config ∨ ∀ e ∈ s.conns.toList, e.2.pledged.2.val = 0

/-- The command that comes next does not overflow the inbound queue of a client
that is connected. -/
def NoOverflow (s : State) : Prop :=
  match s.rt.queue with
  | .clientCrdt index _ :: _ =>
    match s.rt.clients[index]? with
    | some c => s.rt.limits.clientInboundMax ≤ c.inbound.length →
        ∀ e ∈ s.conns.toList, e.2.isOpen = true → e.2.index ≠ index
    | none => True
  | _ => True

/-- The config is not replaced under a range that a connection has read, no
connected client's inbound queue overflows, and the thread stops only when no
connection is left. -/
def Frozen (s : State) : Act → Prop
  | .registerScene (some cfg) => KeepsPledges s cfg
  | .drain => NoOverflow s
  | .finish => ∀ e ∈ s.conns.toList, False
  | _ => True

/-! ### The channel of an index, with the commands in flight -/

inductive ChanState where
  | absent
  | opened
  | closing
  /-- A second `ClientOpen` for a channel that is not closed. -/
  | clash
  deriving DecidableEq

def chanState : Option ClientChannel → ChanState
  | some ch => if ch.closed then .absent else if ch.closing then .closing else .opened
  | none => .absent

def advance (i : U32) (st : ChanState) : Command → ChanState
  | .clientOpen index _ _ =>
    if index = i then
      match st with
      | .absent => .opened
      | _ => .clash
    else st
  | .clientClose index =>
    if index = i then
      match st with
      | .opened => .closing
      | st => st
    else st
  | .clientCrdt _ _ => st

/-- Where the channel of `i` will stand when the commands in flight are drained. -/
def settled (i : U32) (st : ChanState) (queue : List Command) : ChanState :=
  queue.foldl (advance i) st

def settledAt (rt : JsRuntime) (i : U32) : ChanState :=
  settled i (chanState rt.clients[i]?) rt.queue

theorem settled_cons (i : U32) (st : ChanState) (command : Command) (queue : List Command) :
    settled i st (command :: queue) = settled i (advance i st command) queue := rfl

theorem settled_clash (i : U32) (queue : List Command) : settled i .clash queue = .clash := by
  induction queue with
  | nil => rfl
  | cons command queue ih =>
    have hstay : advance i .clash command = .clash := by cases command <;> simp [advance]
    rw [settled_cons, hstay, ih]

/-- No command takes a channel back to absent. -/
theorem settled_ne_absent (i : U32) (queue : List Command) {st : ChanState} (h : st ≠ .absent) :
    settled i st queue ≠ .absent := by
  induction queue generalizing st with
  | nil => exact h
  | cons command queue ih =>
    rw [settled_cons]
    refine ih ?_
    cases command <;> cases st <;> simp_all [advance] <;> split <;> simp

/-- Without a clash, a channel that is there has no `ClientOpen` coming. -/
theorem settled_of_no_clash (i : U32) (queue : List Command) {st : ChanState}
    (hst : st = .opened ∨ st = .closing) (h : settled i st queue ≠ .clash) :
    settled i .closing queue = .closing ∧ settled i .absent queue = .absent := by
  induction queue generalizing st with
  | nil => exact ⟨rfl, rfl⟩
  | cons command queue ih =>
    rw [settled_cons] at h ⊢
    rw [settled_cons]
    cases command with
    | clientOpen index start size =>
      by_cases hi : index = i
      · refine absurd ?_ h
        have hclash : advance i st (.clientOpen index start size) = .clash := by
          rcases hst with rfl | rfl <;> simp [advance, hi]
        rw [hclash, settled_clash]
      · simp only [advance, hi, if_false] at h ⊢
        exact ih hst h
    | clientCrdt index body => exact ih hst h
    | clientClose index =>
      by_cases hi : index = i
      · have hnext : advance i st (.clientClose index) = .closing := by
          rcases hst with rfl | rfl <;> simp [advance, hi]
        rw [hnext] at h
        simp only [advance, hi, if_true]
        exact ih (Or.inr rfl) h
      · simp only [advance, hi, if_false] at h ⊢
        exact ih hst h

theorem settledAt_send (rt : JsRuntime) (command : Command) (i : U32) :
    settledAt (rt.send command) i = advance i (settledAt rt i) command := by
  simp only [settledAt, settled, JsRuntime.send, List.foldl_append, List.foldl_cons, List.foldl_nil]

/-! ### The invariant -/

/-- Where the channel of every index stands, while the thread is running. Index
`u32::MAX` has no range and is left out. -/
structure Tidy (rt : JsRuntime) (conns : OrdMap ℕ Phase) : Prop where
  unopened : ∀ (c : ℕ) (p : Phase), conns[c]? = some p → p.isLive = true → p.isOpen = false →
    p.index ≠ u32Max → settledAt rt p.index = .absent
  opened : ∀ (c : ℕ) (p : Phase), conns[c]? = some p → p.isOpen = true → p.index ≠ u32Max →
    settledAt rt p.index = .opened
  free : ∀ i, i ∉ rt.slots → i ≠ u32Max → settledAt rt i = .absent
  noClash : ∀ i, i ≠ u32Max → settledAt rt i ≠ .clash

structure Inv (s : State) : Prop where
  slots : s.rt.slots.Held fun c => s.conns[c]?.bind (Phase.slot s.rt.running)
  pledges : ∀ (c : ℕ) (p : Phase), s.conns[c]? = some p → ∀ number, p.pledged.Holds number →
    p.pledged = s.rt.config.rangeForClient p.index
  tidy : s.rt.running = true → Tidy s.rt s.conns

theorem Phase.isLive_of_isOpen {p : Phase} (h : p.isOpen = true) : p.isLive = true := by
  cases p <;> first | rfl | cases h

theorem Phase.slot_of_isLive {p : Phase} (running : Bool) (h : p.isLive = true) :
    p.slot running = some p.index := by
  simp [Phase.slot, h]

theorem Inv.slot_eq {s : State} {c : ℕ} {p : Phase} (hc : s.conns[c]? = some p)
    (hlive : p.isLive = true) : s.conns[c]?.bind (Phase.slot s.rt.running) = some p.index := by
  rw [hc, Option.bind_some, Phase.slot_of_isLive _ hlive]

theorem Inv.rangesDisjoint {s : State} (h : Inv s) : RangesDisjoint s := by
  rintro c d p q hne hc hd hp hq number ⟨hpn, hqn⟩
  have hpr := h.pledges c p hc number hpn
  have hqr := h.pledges d q hd number hqn
  rw [hpr] at hpn
  rw [hqr] at hqn
  have hindex := ServerTransportConfig.holds_unique hpn hqn
  have hmax := h.slots.distinct c d p.index hne
    (Inv.slot_eq hc (Phase.isLive_of_isOpen hp))
    (hindex ▸ Inv.slot_eq hd (Phase.isLive_of_isOpen hq))
  rw [hmax] at hpn
  exact s.rt.config.not_holds_u32Max number hpn

theorem init_inv (limits : RuntimeLimits) (staticCrdt : Bytes) : Inv (init limits staticCrdt) := by
  have hnone : ∀ c : ℕ, (init limits staticCrdt).conns[c]? = none := fun c =>
    Std.ExtTreeMap.getElem?_empty
  have habsent : ∀ i, settledAt (init limits staticCrdt).rt i = .absent := by
    intro i
    simp only [settledAt, init, JsRuntime.spawn, settled, List.foldl_nil,
      Std.ExtTreeMap.getElem?_empty, chanState]
  refine ⟨ClientSlots.held_empty fun c => by rw [hnone]; rfl, fun c p hc => ?_, fun _ => ⟨?_, ?_, ?_, ?_⟩⟩
  · rw [hnone] at hc
    cases hc
  · intro c p hc
    rw [hnone] at hc
    cases hc
  · intro c p hc
    rw [hnone] at hc
    cases hc
  · intro i _ _
    exact habsent i
  · intro i _
    rw [habsent i]
    simp

/-! ### Steps of the scene thread -/

/-- A thread step that keeps the config and the slots: every channel with its
commands in flight settles as before, except one that its client has left. -/
theorem Inv.of_settled {rt rt' : JsRuntime} {conns : OrdMap ℕ Phase} (h : Inv ⟨rt, conns⟩)
    (hconfig : rt'.config = rt.config) (hslots : rt'.slots = rt.slots)
    (hrunning : rt'.running = rt.running)
    (hsettled : ∀ i, i ≠ u32Max → settledAt rt i ≠ .clash → settledAt rt' i = settledAt rt i ∨
      settledAt rt i ≠ .absent ∧ settledAt rt' i = .closing ∧
        ∀ (c : ℕ) (p : Phase), conns[c]? = some p → p.isOpen = true → p.index ≠ i) :
    Inv ⟨rt', conns⟩ := by
  refine ⟨by simpa only [hslots, hrunning] using h.slots, by simpa only [hconfig] using h.pledges,
    fun hrun => ?_⟩
  have ht := h.tidy (hrunning ▸ hrun)
  have habsent : ∀ i, i ≠ u32Max → settledAt rt i = .absent → settledAt rt' i = .absent := by
    intro i hi ha
    rcases hsettled i hi (ht.noClash i hi) with heq | ⟨hne, _⟩
    · rw [heq, ha]
    · exact absurd ha hne
  refine ⟨fun c p hc hlive hopen hi => habsent _ hi (ht.unopened c p hc hlive hopen hi),
    fun c p hc hopen hi => ?_, fun i hfree hi => habsent i hi (ht.free i (hslots ▸ hfree) hi),
    fun i hi => ?_⟩
  · rcases hsettled p.index hi (ht.noClash _ hi) with heq | ⟨_, _, hleft⟩
    · exact heq.trans (ht.opened c p hc hopen hi)
    · exact absurd rfl (hleft c p hc hopen)
  · rcases hsettled i hi (ht.noClash i hi) with heq | ⟨_, hclosing, _⟩
    · exact heq ▸ ht.noClash i hi
    · simp [hclosing]

/-- A thread step that leaves every channel where it stands. -/
theorem Inv.of_same {rt rt' : JsRuntime} {conns : OrdMap ℕ Phase} (h : Inv ⟨rt, conns⟩)
    (hconfig : rt'.config = rt.config) (hslots : rt'.slots = rt.slots)
    (hrunning : rt'.running = rt.running) (hqueue : rt'.queue = rt.queue)
    (hstate : ∀ i : U32, chanState rt'.clients[i]? = chanState rt.clients[i]?) : Inv ⟨rt', conns⟩ :=
  h.of_settled hconfig hslots hrunning fun i _ _ =>
    Or.inl (by simp only [settledAt, hstate, hqueue])

theorem find_modify (m : OrdMap U32 ClientChannel) (k i : U32) (f : ClientChannel → ClientChannel) :
    (m.modify k f)[i]? = if k = i then m[i]?.map f else m[i]? := by
  rw [Std.ExtTreeMap.getElem?_modify]
  simp only [Std.LawfulEqCmp.compare_eq_iff_eq]
  split
  · rename_i h
    rw [h]
  · rfl

/-- An update that touches neither flag leaves the channel where it stands. -/
theorem chanState_modify (m : OrdMap U32 ClientChannel) (k i : U32)
    {f : ClientChannel → ClientChannel}
    (hf : ∀ c, (f c).closed = c.closed ∧ (f c).closing = c.closing) :
    chanState (m.modify k f)[i]? = chanState m[i]? := by
  rw [find_modify]
  split
  · cases m[i]? with
    | none => rfl
    | some c => simp only [Option.map_some, chanState, hf c]
  · rfl

theorem chanState_insert (m : OrdMap U32 ClientChannel) (k i : U32) {c c' : ClientChannel}
    (hk : m[k]? = some c) (hc : c'.closed = c.closed ∧ c'.closing = c.closing) :
    chanState (m.insert k c')[i]? = chanState m[i]? := by
  rw [OrdMap.find_insert]
  split
  · rename_i h
    subst h
    simp only [hk, chanState, hc]
  · rfl

theorem chanState_map (m : OrdMap U32 ClientChannel) (i : U32)
    {f : U32 → ClientChannel → ClientChannel}
    (hf : ∀ k c, (f k c).closed = c.closed ∧ (f k c).closing = c.closing) :
    chanState (m.map f)[i]? = chanState m[i]? := by
  rw [Std.ExtTreeMap.getElem?_map]
  cases m[i]? with
  | none => rfl
  | some c => simp only [Option.map_some, chanState, hf i c]

theorem chanState_retain (m : OrdMap U32 ClientChannel) (i : U32) :
    chanState (m.filter fun _ ch => !ch.closed)[i]? = chanState m[i]? := by
  rw [Std.ExtTreeMap.getElem?_filter']
  cases m[i]? with
  | none => rfl
  | some c =>
    cases hc : c.closed with
    | true => simp [Option.filter, chanState, hc]
    | false => simp [Option.filter, hc]

theorem receive_closed (rt : JsRuntime) (index : U32) (body : Bytes) (c : ClientChannel) :
    (rt.receive index body c).closed = c.closed := by
  unfold JsRuntime.receive
  split
  · rfl
  · dsimp only
    split <;> rfl

theorem openChannel_state (rt : JsRuntime) (index start size i : U32)
    (hclash : advance i (chanState rt.clients[i]?) (.clientOpen index start size) ≠ .clash) :
    chanState (rt.openChannel index start size).clients[i]? =
      advance i (chanState rt.clients[i]?) (.clientOpen index start size) := by
  by_cases hi : index = i
  · subst hi
    cases hc : rt.clients[index]? with
    | none => simp [JsRuntime.openChannel, hc, chanState, advance, ClientChannel.new]
    | some c =>
      cases hclosed : c.closed with
      | true => simp [JsRuntime.openChannel, hc, chanState, advance, ClientChannel.new, hclosed]
      | false =>
        refine absurd ?_ hclash
        cases hclosing : c.closing <;> simp [hc, chanState, advance, hclosed, hclosing]
  · have hsame : (rt.openChannel index start size).clients[i]? = rt.clients[i]? := by
      unfold JsRuntime.openChannel
      split
      · split
        · rw [OrdMap.find_insert, if_neg hi]
        · rfl
      · rw [OrdMap.find_insert, if_neg hi]
    simp only [hsame, advance, hi, if_false]

theorem closeChannel_state (m : OrdMap U32 ClientChannel) (index i : U32) :
    chanState (m.modify index fun c => { c with closing := true })[i]? =
      advance i (chanState m[i]?) (.clientClose index) := by
  rw [find_modify]
  by_cases hi : index = i
  · cases m[i]? with
    | none => simp [hi, chanState, advance]
    | some c =>
      cases hclosed : c.closed <;> cases hclosing : c.closing <;>
        simp [hi, chanState, advance, hclosed, hclosing]
  · simp only [hi, if_false, advance]

/-- A body is queued, or its channel closes because the queue is full. -/
theorem receive_state (rt : JsRuntime) (index i : U32) (body : Bytes) :
    chanState (rt.clients.modify index (rt.receive index body))[i]? = chanState rt.clients[i]? ∨
      ∃ c, index = i ∧ rt.clients[i]? = some c ∧
        rt.limits.clientInboundMax ≤ c.inbound.length ∧ chanState rt.clients[i]? = .opened ∧
        chanState (rt.clients.modify index (rt.receive index body))[i]? = .closing := by
  rw [find_modify]
  by_cases hi : index = i
  · subst hi
    cases hc : rt.clients[index]? with
    | none => exact Or.inl (by simp)
    | some c =>
      have hclosed := receive_closed rt index body c
      by_cases hfull : rt.limits.clientInboundMax ≤ c.inbound.length
      · cases hcl : c.closed with
        | true => exact Or.inl (by simp [chanState, hclosed, hcl])
        | false =>
          cases hcg : c.closing with
          | true => exact Or.inl (by simp [chanState, JsRuntime.receive, hfull, hcl, hcg])
          | false =>
            exact Or.inr ⟨c, rfl, rfl, hfull, by simp [chanState, hcl, hcg],
              by simp [chanState, JsRuntime.receive, hfull, hcl]⟩
      · refine Or.inl ?_
        have hclosing : (rt.receive index body c).closing = c.closing := by
          simp only [JsRuntime.receive, hfull, if_false]
          split <;> rfl
        simp [chanState, hclosed, hclosing]
  · exact Or.inl (by simp [hi])

/-- Draining a command takes its effect out of the commands in flight. -/
theorem drain_settled {rt rt' : JsRuntime} (hdrain : rt.drain = some rt') (i : U32)
    (hclash : settledAt rt i ≠ .clash) :
    settledAt rt' i = settledAt rt i ∨
      ∃ body queue c, rt.queue = .clientCrdt i body :: queue ∧ rt.clients[i]? = some c ∧
        rt.limits.clientInboundMax ≤ c.inbound.length ∧ settledAt rt i ≠ .absent ∧
        settledAt rt' i = .closing := by
  unfold JsRuntime.drain at hdrain
  split at hdrain
  · cases hdrain
  · rename_i command queue hq
    rw [← Option.some.inj hdrain]
    have hbefore : settledAt rt i = settled i (advance i (chanState rt.clients[i]?) command) queue := by
      rw [settledAt, hq, settled_cons]
    rw [hbefore] at hclash
    cases command with
    | clientOpen index start size =>
      refine Or.inl ?_
      have hnext : advance i (chanState rt.clients[i]?) (.clientOpen index start size) ≠ .clash := by
        intro hc
        exact hclash (by rw [hc, settled_clash])
      rw [hbefore, ← openChannel_state rt index start size i hnext]
      rfl
    | clientClose index =>
      refine Or.inl ?_
      rw [hbefore, ← closeChannel_state]
      rfl
    | clientCrdt index body =>
      rcases receive_state { rt with queue := queue } index i body with
        hsame | ⟨c, rfl, hc, hfull, hst, hst'⟩
      · exact Or.inl (by rw [hbefore]; exact congrArg (settled i · queue) hsame)
      · have hopened : chanState rt.clients[index]? = .opened := hst
        have hno := settled_of_no_clash index queue (Or.inl hopened) hclash
        refine Or.inr ⟨body, queue, c, hq, hc, hfull, ?_, ?_⟩
        · rw [hbefore]
          exact settled_ne_absent index queue (by simp [advance, hopened])
        · exact (congrArg (settled index · queue) hst').trans hno.1

theorem drain_inv {s : State} {rt : JsRuntime} (h : Inv s) (hok : NoOverflow s)
    (hdrain : s.rt.drain = some rt) : Inv { s with rt := rt } := by
  have hframe : rt.config = s.rt.config ∧ rt.slots = s.rt.slots ∧ rt.running = s.rt.running := by
    unfold JsRuntime.drain at hdrain
    split at hdrain
    · cases hdrain
    · rename_i command queue hq
      rw [← Option.some.inj hdrain]
      cases command <;> exact ⟨rfl, rfl, rfl⟩
  refine h.of_settled hframe.1 hframe.2.1 hframe.2.2 fun i hi hclash => ?_
  rcases drain_settled hdrain i hclash with hsame | ⟨body, queue, c, hq, hc, hfull, hne, hcl⟩
  · exact Or.inl hsame
  · refine Or.inr ⟨hne, hcl, fun d p hd hopen => ?_⟩
    simp only [NoOverflow, hq, hc] at hok
    exact hok hfull (d, p) ((OrdMap.mem_entries _ _ _).mpr hd) hopen

theorem registerScene_inv {s : State} (h : Inv s) (cfg : Option SceneConfig)
    (hok : Frozen s (.registerScene cfg)) : Inv { s with rt := s.rt.registerScene cfg } := by
  cases cfg with
  | none => exact h
  | some cfg =>
    by_cases hlive : s.rt.live = true
    · simpa only [JsRuntime.registerScene, hlive, if_true] using h
    · have hrt : s.rt.registerScene (some cfg) = { s.rt with config := cfg.transport } := by
        simp only [JsRuntime.registerScene, hlive, if_false, Bool.false_eq_true]
      rw [hrt]
      refine ⟨h.slots, fun c p hc number hn => ?_, fun hrun => ?_⟩
      · rcases hok with hl | heq | hnone
        · exact absurd hl hlive
        · simpa only [heq] using h.pledges c p hc number hn
        · have hsize := hnone (c, p) ((OrdMap.mem_entries _ _ _).mpr hc)
          exact absurd hn (Range.not_holds_of_size_zero hsize number)
      · have ht := h.tidy hrun
        exact ⟨ht.unopened, ht.opened, ht.free, ht.noClash⟩

/-- What the reclaim of one channel does to where the channels stand. -/
theorem reclaim_state {rt rt' : JsRuntime} {index : U32} (h : rt.reclaim index = some rt') :
    rt'.config = rt.config ∧ rt'.running = rt.running ∧ rt'.queue = rt.queue ∧
    rt'.slots = rt.slots.release index ∧ chanState rt.clients[index]? = .closing ∧
    chanState rt'.clients[index]? = .absent ∧
    ∀ i, i ≠ index → chanState rt'.clients[i]? = chanState rt.clients[i]? := by
  unfold JsRuntime.reclaim at h
  split at h
  · rename_i ch hch
    split at h
    · rename_i hflags
      rw [← Option.some.inj h]
      simp only [Bool.and_eq_true, Bool.not_eq_true'] at hflags
      have hpush : ∀ body (i : U32), chanState (JsRuntime.pushToOthers rt.clients index body)[i]? =
          chanState rt.clients[i]? := by
        intro body i
        refine chanState_map _ i fun k c => ?_
        split <;> exact ⟨rfl, rfl⟩
      refine ⟨rfl, rfl, rfl, rfl, by simp [hch, chanState, hflags], ?_, fun i hi => ?_⟩
      · rw [find_modify, if_pos rfl]
        split
        · rw [hch]
          rfl
        · cases (JsRuntime.pushToOthers rt.clients index _)[index]? <;> rfl
      · rw [find_modify, if_neg (Ne.symm hi)]
        split
        · rfl
        · exact hpush _ i
    · cases h
  · cases h

theorem reclaim_inv {s : State} {rt : JsRuntime} {index : U32} (h : Inv s)
    (hrun : s.rt.running = true) (hreclaim : s.rt.reclaim index = some rt) :
    Inv { s with rt := rt } := by
  obtain ⟨hconfig, hrunning, hqueue, hslots, hclosing, habsent, hother⟩ := reclaim_state hreclaim
  have ht := h.tidy hrun
  have hsame : ∀ i, i ≠ index → settledAt rt i = settledAt s.rt i := by
    intro i hi
    simp only [settledAt, hother i hi, hqueue]
  have hsettled : index ≠ u32Max →
      settledAt s.rt index = .closing ∧ settledAt rt index = .absent := by
    intro hmax
    have hclash := ht.noClash index hmax
    simp only [settledAt, hclosing, habsent, hqueue] at hclash ⊢
    exact settled_of_no_clash index _ (Or.inr rfl) hclash
  -- a connection that has not closed would still need the channel
  have hleft : index ≠ u32Max → ∀ (c : ℕ) (p : Phase), s.conns[c]? = some p → p.isLive = true →
      p.index ≠ index := by
    intro hmax c p hc hlive heq
    have hcl := (hsettled hmax).1
    rw [← heq] at hcl hmax
    cases hopen : p.isOpen with
    | true =>
      have hst := ht.opened c p hc hopen hmax
      rw [hcl] at hst
      cases hst
    | false =>
      have hst := ht.unopened c p hc hlive hopen hmax
      rw [hcl] at hst
      cases hst
  have hheld : s.rt.slots.Held fun c => s.conns[c]?.bind (Phase.slot true) := by
    simpa only [hrun] using h.slots
  refine ⟨?_, by simpa only [hconfig] using h.pledges, fun _ => ?_⟩
  · simp only [hrunning, hrun, hslots]
    by_cases hmax : index = u32Max
    · refine ⟨fun c i hi => ?_, hheld.distinct⟩
      rcases hheld.used c i hi with hin | hmax'
      · by_cases heq : i = index
        · exact Or.inr (heq.trans hmax)
        · exact Or.inl (Finset.mem_erase.mpr ⟨heq, hin⟩)
      · exact Or.inr hmax'
    · refine hheld.releaseFree fun c hc => ?_
      obtain ⟨p, hp, hslot⟩ := Option.bind_eq_some_iff.mp hc
      simp only [Phase.slot, Bool.not_true, Bool.or_false, Option.ite_none_right_eq_some] at hslot
      exact hleft hmax c p hp hslot.1 (Option.some.inj hslot.2)
  · refine ⟨fun c p hc hlive hopen hmax => ?_, fun c p hc hopen hmax => ?_, fun i hfree hmax => ?_,
      fun i hmax => ?_⟩
    · by_cases heq : p.index = index
      · exact absurd heq (hleft (heq ▸ hmax) c p hc hlive)
      · exact (hsame _ heq).trans (ht.unopened c p hc hlive hopen hmax)
    · by_cases heq : p.index = index
      · exact absurd heq (hleft (heq ▸ hmax) c p hc (Phase.isLive_of_isOpen hopen))
      · exact (hsame _ heq).trans (ht.opened c p hc hopen hmax)
    · by_cases heq : i = index
      · rw [heq]
        exact (hsettled (heq ▸ hmax)).2
      · refine (hsame i heq).trans (ht.free i (fun hin => hfree ?_) hmax)
        simp only [hslots]
        exact Finset.mem_erase.mpr ⟨heq, hin⟩
    · by_cases heq : i = index
      · rw [heq, (hsettled (heq ▸ hmax)).2]
        simp
      · rw [hsame i heq]
        exact ht.noClash i hmax

theorem finish_inv {s : State} (hok : Frozen s .finish) :
    Inv { s with rt := s.rt.finish } := by
  have hnone : ∀ c : ℕ, s.conns[c]? = none := by
    intro c
    cases hc : s.conns[c]? with
    | none => rfl
    | some p => exact absurd ((OrdMap.mem_entries _ _ _).mpr hc) (hok (c, p))
  refine ⟨ClientSlots.held_empty fun c => by simp only [hnone]; rfl, fun c p hc => ?_, fun hrun => ?_⟩
  · rw [hnone] at hc
    cases hc
  · cases hrun

theorem applyAsServer_frame (rt : JsRuntime) (bytes : Bytes) :
    (rt.applyAsServer bytes).2.2.config = rt.config ∧
    (rt.applyAsServer bytes).2.2.slots = rt.slots ∧
    (rt.applyAsServer bytes).2.2.running = rt.running ∧
    (rt.applyAsServer bytes).2.2.queue = rt.queue ∧
    (rt.applyAsServer bytes).2.2.clients = rt.clients := ⟨rfl, rfl, rfl, rfl, rfl⟩

theorem clientSend_inv {s : State} (h : Inv s) (index : U32) (bytes : Bytes) :
    Inv { s with rt := s.rt.clientSend index bytes } := by
  obtain ⟨hconfig, hslots, hrunning, hqueue, hclients⟩ := applyAsServer_frame s.rt bytes
  unfold JsRuntime.clientSend
  split
  · exact h
  · dsimp only
    generalize (if (s.rt.applyAsServer bytes).2.1 = true then
      encodeBatch (s.rt.applyAsServer bytes).1 else bytes) = payload
    split
    · exact h.of_same hconfig hslots hrunning hqueue fun i => by rw [hclients]
    · refine h.of_same hconfig hslots hrunning hqueue fun i => ?_
      exact chanState_modify _ index i fun c => ⟨rfl, rfl⟩

theorem getMessages_inv {s : State} (h : Inv s) (index : U32) :
    Inv { s with rt := (s.rt.clientGetMessages index).2 } := by
  unfold JsRuntime.clientGetMessages
  split
  · exact h
  · rename_i ch hch
    exact h.of_same rfl rfl rfl rfl fun i => chanState_insert _ index i hch ⟨rfl, rfl⟩

theorem deliverOpen_inv {s : State} {rt : JsRuntime} {index : U32} (h : Inv s)
    (hdeliver : s.rt.deliverOpen index = some rt) : Inv { s with rt := rt } := by
  unfold JsRuntime.deliverOpen at hdeliver
  split at hdeliver
  · rename_i ch hch
    split at hdeliver
    · cases hdeliver
    · rw [← Option.some.inj hdeliver]
      exact h.of_same rfl rfl rfl rfl fun i => chanState_insert _ index i hch ⟨rfl, rfl⟩
  · cases hdeliver

/-- One step of the scene thread. -/
theorem threadStep_inv {s : State} {rt : JsRuntime} {a : Act} (h : Inv s)
    (hrun : s.rt.running = true) (hok : Frozen s a) (hstep : threadStep s.rt a = some rt) :
    Inv { s with rt := rt } := by
  cases a with
  | drain => exact drain_inv h hok hstep
  | registerScene cfg =>
    rw [← Option.some.inj hstep]
    exact registerScene_inv h cfg hok
  | sendToRenderer bytes =>
    rw [← Option.some.inj hstep]
    exact h.of_same rfl rfl rfl rfl fun i => rfl
  | updateCrdtState bytes =>
    rw [← Option.some.inj hstep]
    exact h.of_same rfl rfl rfl rfl fun i => rfl
  | clientSend index bytes =>
    rw [← Option.some.inj hstep]
    exact clientSend_inv h index bytes
  | getMessages index =>
    rw [← Option.some.inj hstep]
    exact getMessages_inv h index
  | deliverOpen index => exact deliverOpen_inv h hstep
  | reclaim index => exact reclaim_inv h hrun hstep
  | flush =>
    rw [← Option.some.inj hstep]
    exact h.of_same rfl rfl rfl rfl fun i => chanState_map _ i fun k c => ⟨rfl, rfl⟩
  | retain =>
    rw [← Option.some.inj hstep]
    exact h.of_same rfl rfl rfl rfl fun i => chanState_retain _ i
  | finish =>
    rw [← Option.some.inj hstep]
    exact finish_inv hok
  | _ => cases hstep

/-! ### Steps of a connection -/

/-- A connection moves on without touching its slot, and the runtime keeps the
config and the slots. -/
theorem Inv.of_move {s : State} {rt : JsRuntime} {conn : ℕ} {p p' : Phase} (h : Inv s)
    (hp : s.conns[conn]? = some p) (hlive : p.isLive = true) (hindex : p'.index = p.index)
    (hconfig : rt.config = s.rt.config) (hslots : rt.slots = s.rt.slots)
    (hrunning : rt.running = s.rt.running)
    (hpledge : ∀ number, p'.pledged.Holds number →
      p'.pledged = s.rt.config.rangeForClient p'.index)
    (hsettled : s.rt.running = true → p.index ≠ u32Max → settledAt rt p.index ≠ .clash ∧
      (p'.isOpen = true → settledAt rt p.index = .opened) ∧
      (p'.isLive = true → p'.isOpen = false → settledAt rt p.index = .absent))
    (hother : ∀ i, i ≠ p.index → settledAt rt i = settledAt s.rt i) :
    Inv ⟨rt, s.conns.insert conn p'⟩ := by
  have hfind : ∀ (c : ℕ) (q : Phase), (s.conns.insert conn p')[c]? = some q →
      c = conn ∧ q = p' ∨ c ≠ conn ∧ s.conns[c]? = some q := by
    intro c q hc
    rw [OrdMap.find_insert] at hc
    split at hc
    · rename_i heq
      exact Or.inl ⟨heq.symm, (Option.some.inj hc).symm⟩
    · rename_i hne
      exact Or.inr ⟨Ne.symm hne, hc⟩
  refine ⟨?_, fun c q hc number hn => ?_, fun hrun => ?_⟩
  · simp only [hslots, hrunning]
    refine h.slots.mono fun c i hc => ?_
    obtain ⟨q, hq, hslot⟩ := Option.bind_eq_some_iff.mp hc
    rcases hfind c q hq with ⟨rfl, rfl⟩ | ⟨_, hold⟩
    · have hi : p.index = i := by
        unfold Phase.slot at hslot
        split at hslot
        · exact hindex ▸ Option.some.inj hslot
        · cases hslot
      exact hi ▸ Inv.slot_eq hp hlive
    · rw [hold]
      exact hslot
  · simp only [hconfig]
    rcases hfind c q hc with ⟨rfl, rfl⟩ | ⟨_, hold⟩
    · exact hpledge number hn
    · exact h.pledges c q hold number hn
  · have hrun' : s.rt.running = true := hrunning ▸ hrun
    have ht := h.tidy hrun'
    -- the index of another live connection is not the one that moves
    have hapart : ∀ (c : ℕ) (q : Phase), c ≠ conn → s.conns[c]? = some q → q.isLive = true →
        q.index ≠ u32Max → q.index ≠ p.index := by
      intro c q hne hq hqlive hmax heq
      exact hmax (h.slots.distinct c conn q.index hne (Inv.slot_eq hq hqlive)
        (heq ▸ Inv.slot_eq hp hlive))
    refine ⟨fun c q hc hql hqo hmax => ?_, fun c q hc hqo hmax => ?_, fun i hfree hmax => ?_,
      fun i hmax => ?_⟩
    · rcases hfind c q hc with ⟨rfl, rfl⟩ | ⟨hne, hold⟩
      · rw [hindex] at hmax ⊢
        exact (hsettled hrun' hmax).2.2 hql hqo
      · exact (hother _ (hapart c q hne hold hql hmax)).trans (ht.unopened c q hold hql hqo hmax)
    · rcases hfind c q hc with ⟨rfl, rfl⟩ | ⟨hne, hold⟩
      · rw [hindex] at hmax ⊢
        exact (hsettled hrun' hmax).2.1 hqo
      · have hql := Phase.isLive_of_isOpen hqo
        exact (hother _ (hapart c q hne hold hql hmax)).trans (ht.opened c q hold hqo hmax)
    · simp only [hslots] at hfree
      by_cases heq : i = p.index
      · subst heq
        rcases h.slots.used conn p.index (Inv.slot_eq hp hlive) with hin | hm
        · exact absurd hin hfree
        · exact absurd hm hmax
      · exact (hother i heq).trans (ht.free i hfree hmax)
    · by_cases heq : i = p.index
      · subst heq
        exact (hsettled hrun' hmax).1
      · rw [hother i heq]
        exact ht.noClash i hmax

/-- The commands in flight for other indices are the same after a `ClientOpen` or a
`ClientClose` is sent. -/
theorem advance_other {i : U32} {st : ChanState} {command : Command} (h : ∀ index start size,
    command = .clientOpen index start size → i ≠ index) (h' : ∀ index,
    command = .clientClose index → i ≠ index) : advance i st command = st := by
  cases command with
  | clientOpen index start size => simp only [advance, Ne.symm (h index start size rfl), if_false]
  | clientCrdt index body => rfl
  | clientClose index => simp only [advance, Ne.symm (h' index rfl), if_false]

theorem allocate_inv {s : State} {conn : ℕ} (h : Inv s) (hp : s.conns[conn]? = none) :
    Inv ⟨s.rt.allocateClientIndex.2,
      s.conns.insert conn (.allocated s.rt.allocateClientIndex.1)⟩ := by
  have hother : ∀ d : ℕ, d ≠ conn →
      (s.conns.insert conn (Phase.allocated s.rt.allocateClientIndex.1))[d]? = s.conns[d]? := by
    intro d hd
    rw [OrdMap.find_insert, if_neg (Ne.symm hd)]
  have hself : (s.conns.insert conn (Phase.allocated s.rt.allocateClientIndex.1))[conn]? =
      some (.allocated s.rt.allocateClientIndex.1) := by
    rw [OrdMap.find_insert, if_pos rfl]
  refine ⟨?_, fun c p hc number hn => ?_, fun hrun => ?_⟩
  · refine h.slots.acquire (c := conn) ?_ fun d hd => ?_
    · rw [hself]
      rfl
    · rw [hother d hd]
      rfl
  · by_cases hconn : c = conn
    · subst hconn
      rw [hself] at hc
      rw [← Option.some.inj hc] at hn
      exact absurd hn (ServerTransportConfig.not_holds_empty number)
    · rw [hother c hconn] at hc
      exact h.pledges c p hc number hn
  · have ht := h.tidy hrun
    refine ⟨fun c p hc hlive hopen hmax => ?_, fun c p hc hopen hmax => ?_, fun i hfree hmax => ?_,
      ht.noClash⟩
    · by_cases hconn : c = conn
      · subst hconn
        rw [hself] at hc
        rw [← Option.some.inj hc] at hmax ⊢
        rcases s.rt.slots.acquire_fresh with hfresh | hm
        · exact ht.free _ hfresh hmax
        · exact absurd hm hmax
      · rw [hother c hconn] at hc
        exact ht.unopened c p hc hlive hopen hmax
    · by_cases hconn : c = conn
      · subst hconn
        rw [hself] at hc
        rw [← Option.some.inj hc] at hopen
        cases hopen
      · rw [hother c hconn] at hc
        exact ht.opened c p hc hopen hmax
    · exact ht.free i (fun hin => hfree (Finset.mem_insert_of_mem hin)) hmax

theorem readConfig_inv {s : State} {conn : ℕ} {index : U32} (h : Inv s)
    (hp : s.conns[conn]? = some (.allocated index)) :
    Inv ⟨(s.rt.readConfig index conn).2,
      s.conns.insert conn (.configRead index (s.rt.readConfig index conn).1)⟩ := by
  refine h.of_move hp rfl rfl rfl rfl rfl (fun _ _ => rfl) (fun hrun hmax => ?_) fun _ _ => rfl
  have habsent := (h.tidy hrun).unopened conn _ hp rfl rfl hmax
  have hsame : settledAt (s.rt.readConfig index conn).2 index = .absent := habsent
  exact ⟨by simp [Phase.index, hsame], (fun hopen => nomatch hopen), fun _ _ => hsame⟩

theorem sendOpen_inv {s : State} {conn : ℕ} {index : U32} {cfg : ServerTransportConfig} (h : Inv s)
    (hp : s.conns[conn]? = some (.configRead index cfg)) :
    Inv ⟨s.rt.sendClientOpen index cfg, s.conns.insert conn (.openSent index cfg)⟩ := by
  refine h.of_move hp rfl rfl rfl rfl rfl (h.pledges conn (.configRead index cfg) hp)
    (fun hrun hmax => ?_) fun i hi => ?_
  · have habsent := (h.tidy hrun).unopened conn _ hp rfl rfl hmax
    have hsent : settledAt (s.rt.sendClientOpen index cfg) index = .opened := by
      have hbefore : settledAt s.rt index = .absent := habsent
      rw [JsRuntime.sendClientOpen, settledAt_send, hbefore]
      simp [advance]
    exact ⟨by simp [Phase.index, hsent], fun _ => hsent, fun _ hopen => nomatch hopen⟩
  · rw [JsRuntime.sendClientOpen, settledAt_send]
    refine advance_other (fun _ _ _ heq => ?_) fun _ heq => nomatch heq
    injection heq with hindex
    exact hindex ▸ hi

theorem connect_inv {s : State} {conn : ℕ} {index : U32} {cfg : ServerTransportConfig} (h : Inv s)
    (hp : s.conns[conn]? = some (.openSent index cfg)) :
    Inv ⟨s.rt, s.conns.insert conn (.connected index (s.rt.initState index cfg))⟩ := by
  refine h.of_move hp rfl rfl rfl rfl rfl (h.pledges conn (.openSent index cfg) hp)
    (fun hrun hmax => ?_) fun _ _ => rfl
  have hopened := (h.tidy hrun).opened conn _ hp rfl hmax
  exact ⟨by simp [hopened], fun _ => hopened, fun _ hopen => nomatch hopen⟩

theorem crdt_inv {s : State} {conn : ℕ} {index : U32} {start : InitState} (h : Inv s)
    (hp : s.conns[conn]? = some (.connected index start)) (body : Bytes) :
    Inv ⟨s.rt.onClientCrdt index body, s.conns.insert conn (.connected index start)⟩ := by
  have hsame : ∀ i, settledAt (s.rt.onClientCrdt index body) i = settledAt s.rt i := fun i =>
    settledAt_send s.rt _ i
  refine h.of_move hp rfl rfl rfl rfl rfl (h.pledges conn _ hp) (fun hrun hmax => ?_)
    fun i _ => hsame i
  have hopened := (h.tidy hrun).opened conn _ hp rfl hmax
  rw [hsame, hopened]
  exact ⟨by simp, fun _ => rfl, fun _ hopen => nomatch hopen⟩

theorem sendClose_inv {s : State} {conn : ℕ} {index : U32} {start : InitState} (h : Inv s)
    (hp : s.conns[conn]? = some (.connected index start)) :
    Inv ⟨s.rt.sendClientClose index, s.conns.insert conn (.closeSent index)⟩ := by
  refine h.of_move hp rfl rfl rfl rfl rfl
    (fun number hn => absurd hn (ServerTransportConfig.not_holds_empty number))
    (fun hrun hmax => ?_) fun i hi => ?_
  · have hopened := (h.tidy hrun).opened conn _ hp rfl hmax
    have hsent : settledAt (s.rt.sendClientClose index) index = .closing := by
      have hbefore : settledAt s.rt index = .opened := hopened
      rw [JsRuntime.sendClientClose, settledAt_send, hbefore]
      simp [advance]
    exact ⟨by simp [Phase.index, hsent], (fun hopen => nomatch hopen), fun hlive => nomatch hlive⟩
  · rw [JsRuntime.sendClientClose, settledAt_send]
    refine advance_other (fun _ _ _ heq => nomatch heq) fun _ heq => ?_
    injection heq with hindex
    exact hindex ▸ hi

/-- After `ClientClose` is sent a connection holds nothing that the thread looks at. -/
theorem Tidy.of_left {rt rt' : JsRuntime} {conns conns' : OrdMap ℕ Phase} (ht : Tidy rt conns)
    (hslots : rt'.slots = rt.slots) (hsettled : ∀ i, settledAt rt' i = settledAt rt i)
    (hlive : ∀ (c : ℕ) (p : Phase), conns'[c]? = some p → p.isLive = true → conns[c]? = some p) :
    Tidy rt' conns' := by
  refine ⟨fun c p hc hl hopen hmax => ?_, fun c p hc hopen hmax => ?_, fun i hfree hmax => ?_,
    fun i hmax => ?_⟩
  · exact (hsettled _).trans (ht.unopened c p (hlive c p hc hl) hl hopen hmax)
  · exact (hsettled _).trans
      (ht.opened c p (hlive c p hc (Phase.isLive_of_isOpen hopen)) hopen hmax)
  · exact (hsettled i).trans (ht.free i (hslots ▸ hfree) hmax)
  · exact (hsettled i).symm ▸ ht.noClash i hmax

theorem removeOutbound_inv {s : State} {conn : ℕ} {index : U32} (h : Inv s)
    (hp : s.conns[conn]? = some (.closeSent index)) :
    Inv ⟨s.rt.removeOutbound index, s.conns.insert conn (.outboundRemoved index)⟩ := by
  have hfind : ∀ (c : ℕ) (q : Phase), (s.conns.insert conn (.outboundRemoved index))[c]? = some q →
      c = conn ∧ q = .outboundRemoved index ∨ s.conns[c]? = some q := by
    intro c q hc
    rw [OrdMap.find_insert] at hc
    split at hc
    · rename_i heq
      exact Or.inl ⟨heq.symm, (Option.some.inj hc).symm⟩
    · exact Or.inr hc
  refine ⟨h.slots.mono fun c i hc => ?_, fun c q hc number hn => ?_, fun hrun => ?_⟩
  · obtain ⟨q, hq, hslot⟩ := Option.bind_eq_some_iff.mp hc
    rcases hfind c q hq with ⟨rfl, rfl⟩ | hold
    · rw [hp]
      exact hslot
    · rw [hold]
      exact hslot
  · rcases hfind c q hc with ⟨rfl, rfl⟩ | hold
    · exact absurd hn (ServerTransportConfig.not_holds_empty number)
    · exact h.pledges c q hold number hn
  · refine (h.tidy hrun).of_left rfl (fun _ => rfl) fun c q hc hl => ?_
    rcases hfind c q hc with ⟨rfl, rfl⟩ | hold
    · cases hl
    · exact hold

theorem closed_inv {s : State} {conn : ℕ} {index : U32} (h : Inv s)
    (hp : s.conns[conn]? = some (.outboundRemoved index)) :
    Inv ⟨s.rt.releaseIfStopped index, s.conns.erase conn⟩ := by
  have hfind : ∀ (c : ℕ) (q : Phase), (s.conns.erase conn)[c]? = some q → s.conns[c]? = some q := by
    intro c q hc
    rw [OrdMap.find_erase] at hc
    split at hc
    · cases hc
    · exact hc
  cases hrunning : s.rt.running with
  | true =>
    have hrt : s.rt.releaseIfStopped index = s.rt := by
      simp only [JsRuntime.releaseIfStopped, hrunning, if_true]
    rw [hrt]
    refine ⟨h.slots.mono fun c i hc => ?_, fun c q hc => h.pledges c q (hfind c q hc),
      fun hrun => (h.tidy hrun).of_left rfl (fun _ => rfl) fun c q hc _ => hfind c q hc⟩
    obtain ⟨q, hq, hslot⟩ := Option.bind_eq_some_iff.mp hc
    rw [hfind c q hq]
    exact hslot
  | false =>
    have hrt : s.rt.releaseIfStopped index =
        { s.rt with slots := s.rt.slots.release index } := by
      simp only [JsRuntime.releaseIfStopped, hrunning, if_false, Bool.false_eq_true]
    rw [hrt]
    refine ⟨?_, fun c q hc => h.pledges c q (hfind c q hc), fun hrun => ?_⟩
    · refine h.slots.release (c := conn) ?_ ?_ fun d hd => ?_
      · simp only [hp, Option.bind_some, Phase.slot, hrunning, Bool.not_false, Bool.or_true, if_true,
          Phase.index]
      · rw [OrdMap.find_erase, if_pos rfl]
        rfl
      · rw [OrdMap.find_erase, if_neg (Ne.symm hd)]
    · exact absurd (hrunning.symm.trans hrun) (by simp)

/-- One step of a connection. -/
theorem connStep_inv {s : State} {conn : ℕ} {a : Act} {r : JsRuntime × Option Phase} (h : Inv s)
    (hconn : a.conn = some conn) (hstep : connStep s.rt s.conns[conn]? a = some r) :
    Inv ⟨r.1, setConn s.conns conn r.2⟩ := by
  unfold connStep at hstep
  split at hstep
  · split at hstep
    · rename_i hp
      rw [← Option.some.inj hstep]
      exact allocate_inv h hp
    · cases hstep
  · rename_i d
    split at hstep
    · rename_i index hp
      have hd : d = conn := Option.some.inj hconn
      subst hd
      rw [← Option.some.inj hstep]
      exact readConfig_inv h hp
    · cases hstep
  · split at hstep
    · rename_i index cfg hp
      rw [← Option.some.inj hstep]
      exact sendOpen_inv h hp
    · cases hstep
  · split at hstep
    · rename_i index cfg hp
      rw [← Option.some.inj hstep]
      exact connect_inv h hp
    · cases hstep
  · rename_i body
    split at hstep
    · rename_i index start hp
      rw [← Option.some.inj hstep]
      exact crdt_inv h hp body
    · cases hstep
  · split at hstep
    · rename_i index start hp
      rw [← Option.some.inj hstep]
      exact sendClose_inv h hp
    · cases hstep
  · split at hstep
    · rename_i index hp
      rw [← Option.some.inj hstep]
      exact removeOutbound_inv h hp
    · cases hstep
  · split at hstep
    · rename_i index hp
      rw [← Option.some.inj hstep]
      exact closed_inv h hp
    · cases hstep
  · cases hstep

theorem step_inv {s t : State} {a : Act} (h : Inv s) (hok : Frozen s a) (hstep : step s a = some t) :
    Inv t := by
  unfold step at hstep
  split at hstep
  · rename_i conn hconn
    obtain ⟨r, hr, rfl⟩ := Option.map_eq_some_iff.mp hstep
    exact connStep_inv h hconn hr
  · split at hstep
    · rename_i hrun
      obtain ⟨rt, hrt, rfl⟩ := Option.map_eq_some_iff.mp hstep
      exact threadStep_inv h hrun hok hrt
    · cases hstep

instance (s : State) (cfg : SceneConfig) : Decidable (KeepsPledges s cfg) :=
  inferInstanceAs (Decidable (_ ∨ _ ∨ ∀ e ∈ _, _))

instance (s : State) : Decidable (NoOverflow s) :=
  match hq : s.rt.queue with
  | .clientCrdt index _ :: _ =>
    match hc : s.rt.clients[index]? with
    | some c => decidable_of_iff (s.rt.limits.clientInboundMax ≤ c.inbound.length →
        ∀ e ∈ s.conns.toList, e.2.isOpen = true → e.2.index ≠ index)
        (by simp only [NoOverflow, hq, hc])
    | none => isTrue (by simp only [NoOverflow, hq, hc])
  | .clientOpen _ _ _ :: _ => isTrue (by simp only [NoOverflow, hq])
  | .clientClose _ :: _ => isTrue (by simp only [NoOverflow, hq])
  | [] => isTrue (by simp only [NoOverflow, hq])

instance (s : State) : (a : Act) → Decidable (Frozen s a)
  | .registerScene (some cfg) => inferInstanceAs (Decidable (KeepsPledges s cfg))
  | .registerScene none => isTrue trivial
  | .drain => inferInstanceAs (Decidable (NoOverflow s))
  | .finish => inferInstanceAs (Decidable (∀ e ∈ s.conns.toList, False))
  | .allocate _ => isTrue trivial
  | .readConfig _ => isTrue trivial
  | .sendOpen _ => isTrue trivial
  | .connect _ => isTrue trivial
  | .crdt _ _ => isTrue trivial
  | .sendClose _ => isTrue trivial
  | .removeOutbound _ => isTrue trivial
  | .closed _ => isTrue trivial
  | .sendToRenderer _ => isTrue trivial
  | .updateCrdtState _ => isTrue trivial
  | .clientSend _ _ => isTrue trivial
  | .getMessages _ => isTrue trivial
  | .deliverOpen _ => isTrue trivial
  | .reclaim _ => isTrue trivial
  | .flush => isTrue trivial
  | .retain => isTrue trivial

end JsRanges

/-- In every run in which the config is not replaced under a range that a connection
has read, no connected client's inbound queue overflows and the scene thread stops
only when no connection is left, two clients connected at the same time hold
disjoint ranges. -/
theorem js_ranges_disjoint (limits : RuntimeLimits) (staticCrdt : Bytes) (acts : List JsRanges.Act)
    (s : JsRanges.State)
    (hok : Machine.Meets JsRanges.step JsRanges.Frozen (JsRanges.init limits staticCrdt) acts)
    (hrun : Machine.run JsRanges.step (JsRanges.init limits staticCrdt) acts = some s) :
    JsRanges.RangesDisjoint s :=
  (Machine.run_invariant_of_meets JsRanges.step
    (fun _ _ _ hp ha hs => JsRanges.step_inv hp ha hs) acts _ s hok hrun
    (JsRanges.init_inv limits staticCrdt)).rangesDisjoint

/-- Client 0 leaves and client 2 takes over its slot. -/
theorem js_ranges_disjoint_reused :
    let acts : List JsRanges.Act := [.registerScene (some ⟨some 600, some (some 424, none)⟩),
      .allocate 0, .readConfig 0, .sendOpen 0, .connect 0, .drain,
      .allocate 1, .readConfig 1, .sendOpen 1, .connect 1,
      .registerScene (some ⟨some 0, none⟩), .crdt 0 (encodeBatch [.put 1024 1 1 [5]]), .drain, .drain,
      .sendClose 0, .removeOutbound 0, .closed 0, .drain, .reclaim 0, .retain,
      .allocate 2, .readConfig 2, .sendOpen 2, .connect 2]
    Machine.Meets JsRanges.step JsRanges.Frozen (JsRanges.init .default []) acts ∧
    (Machine.run JsRanges.step (JsRanges.init .default []) acts).isSome = true ∧
    ∀ s, Machine.run JsRanges.step (JsRanges.init .default []) acts = some s →
      JsRanges.RangesDisjoint s := by
  intro acts
  have hmeets : Machine.Meets JsRanges.step JsRanges.Frozen (JsRanges.init .default []) acts := by
    decide
  exact ⟨hmeets, by decide, fun s hs => js_ranges_disjoint .default [] acts s hmeets hs⟩

/-- Client 0 holds the range (1024, 512) and its `ClientOpen` is still in flight, so
`registerScene` sees no channel and replaces the config. Client 1 is handed the
same range. -/
theorem registerScene_reissues_range :
    ∃ s p q, Machine.run JsRanges.step (JsRanges.init .default [])
      [.allocate 0, .readConfig 0, .sendOpen 0, .connect 0,
        .registerScene (some ⟨some 0, some (some 512, some 512)⟩),
        .allocate 1, .readConfig 1, .sendOpen 1, .connect 1, .drain, .drain] = some s ∧
      s.conns[0]? = some p ∧ s.conns[1]? = some q ∧ p.isOpen = true ∧ q.isOpen = true ∧
      p.pledged = (1024, 512) ∧ q.pledged = (1024, 512) ∧ ¬ JsRanges.RangesDisjoint s := by
  have hstate : ((Machine.run JsRanges.step (JsRanges.init .default [])
      [.allocate 0, .readConfig 0, .sendOpen 0, .connect 0,
        .registerScene (some ⟨some 0, some (some 512, some 512)⟩),
        .allocate 1, .readConfig 1, .sendOpen 1, .connect 1, .drain, .drain]).bind fun s =>
      s.conns[0]?.bind fun p => s.conns[1]?.map fun q => decide
        (p.isOpen = true ∧ q.isOpen = true ∧ p.pledged = (1024, 512) ∧ q.pledged = (1024, 512))) =
      some true := by
    decide
  obtain ⟨s, hrun, hs⟩ := Option.bind_eq_some_iff.mp hstate
  obtain ⟨p, hp, hs⟩ := Option.bind_eq_some_iff.mp hs
  obtain ⟨q, hq, hs⟩ := Option.map_eq_some_iff.mp hs
  obtain ⟨hpo, hqo, hpr, hqr⟩ := of_decide_eq_true hs
  refine ⟨s, p, q, hrun, hp, hq, hpo, hqo, hpr, hqr, fun hdisjoint => ?_⟩
  refine hdisjoint 0 1 p q (by decide) hp hq hpo hqo 1024 ?_
  rw [hpr, hqr]
  decide

/-- The other two conditions are needed as well: with an inbound queue of one body
the second one closes client 0's channel, and a thread that stops drops the slot of
client 0. In both runs client 1 gets slot 0 while client 0 is connected. -/
example :
    let overflow : List JsRanges.Act := [.allocate 0, .readConfig 0, .sendOpen 0, .connect 0,
      .crdt 0 (encodeBatch [.put 1024 1 1 [5]]), .crdt 0 [], .drain, .drain, .drain, .reclaim 0,
      .allocate 1, .readConfig 1, .sendOpen 1, .connect 1]
    let stopped : List JsRanges.Act := [.allocate 0, .readConfig 0, .sendOpen 0, .connect 0, .finish,
      .allocate 1, .readConfig 1, .sendOpen 1, .connect 1]
    ([overflow, stopped].map fun acts =>
      (Machine.run JsRanges.step (JsRanges.init ⟨1, 1024, 100000⟩ []) acts).map fun s =>
        s.conns.toList.map fun e => (e.2.isOpen, e.2.pledged)) =
    List.replicate 2 (some [(true, 1024, 512), (true, 1024, 512)]) := by decide

end Catalyrst.SceneState
