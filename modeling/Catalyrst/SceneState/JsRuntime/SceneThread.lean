import Catalyrst.SceneState.Runtime.Relay

/-!
# The JavaScript runtime (`runtime.rs` `JsRuntime`, `jsruntime/scene_thread.rs`)

Connections send commands to one scene thread, which keeps a channel for every
client and runs the scene's script. The connections and the thread share the
engine, the snapshot, the transport config, the slots and the outbound senders.
Every definition below is what one side does between two points at which the
other can act.
-/

namespace Catalyrst.SceneState
open Catalyrst.Lib

inductive Command where
  /-- The range the client was told about travels with the command. -/
  | clientOpen (index start size : U32)
  | clientCrdt (index : U32) (body : Bytes)
  | clientClose (index : U32)
  deriving DecidableEq

structure ClientChannel where
  start : U32
  size : U32
  inbound : List Bytes
  outbound : List Bytes
  openDelivered : Bool
  closing : Bool
  closed : Bool
  deriving DecidableEq

def ClientChannel.new (start size : U32) : ClientChannel := ⟨start, size, [], [], false, false, false⟩

def ClientChannel.range (ch : ClientChannel) : Range := (ch.start, ch.size)

/-- Push onto a bounded queue: the oldest entry goes when the bound is reached. -/
def ClientChannel.pushOutbound (cap : ℕ) (payload : Bytes) (ch : ClientChannel) : ClientChannel :=
  let kept := if cap ≤ ch.outbound.length then ch.outbound.tail else ch.outbound
  { ch with outbound := kept ++ [payload] }

/-- The first argument of `registerScene`, with the properties that could be read. -/
structure SceneConfig where
  reservedLocalEntities : Option U32
  /-- `serverLimit` and `clientLimit`, when `networkEntitiesLimit` is an object. -/
  networkEntitiesLimit : Option (Option U32 × Option U32)

def SceneConfig.transport (cfg : SceneConfig) : ServerTransportConfig :=
  let limits := match cfg.networkEntitiesLimit with
    | some (server, client) => (server.getD 512, client.getD 512)
    | none => (512, 512)
  ⟨cfg.reservedLocalEntities.getD 512, limits.1, limits.2⟩

structure RuntimeLimits where
  clientInboundMax : ℕ
  clientOutboundMax : ℕ
  crdtMaxComponents : ℕ

def RuntimeLimits.default : RuntimeLimits := ⟨1024, 1024, 100000⟩

/-- What the connections and the scene thread share, the commands in flight and
the thread's own channels. -/
structure JsRuntime where
  engine : CrdtEngine
  snapshot : Bytes
  config : ServerTransportConfig
  slots : ClientSlots
  /-- The connection whose sender is registered for an index. -/
  outbound : OrdMap U32 ℕ
  running : Bool
  queue : List Command
  clients : OrdMap U32 ClientChannel
  limits : RuntimeLimits

namespace JsRuntime

/-- `spawn`: the engine is seeded with the scene's static messages. -/
def spawn (limits : RuntimeLimits) (staticCrdt : Bytes) : JsRuntime :=
  let msgs := decodeBatch staticCrdt
  let engine := CrdtEngine.withCap limits.crdtMaxComponents
  let seeded := (engine.applyBatch msgs).2
  { engine := seeded
    snapshot := if msgs = [] then [] else seeded.snapshot
    config := ServerTransportConfig.default
    slots := ∅
    outbound := ∅
    running := true
    queue := []
    clients := ∅
    limits := limits }

def send (rt : JsRuntime) (command : Command) : JsRuntime :=
  { rt with queue := rt.queue ++ [command] }

/-! ### The connections' side -/

def allocateClientIndex (rt : JsRuntime) : U32 × JsRuntime :=
  let r := rt.slots.acquire
  (r.1, { rt with slots := r.2 })

/-- `on_client_open`, first part: register the sender and read the config. -/
def readConfig (rt : JsRuntime) (index : U32) (conn : ℕ) : ServerTransportConfig × JsRuntime :=
  (rt.config, { rt with outbound := rt.outbound.insert index conn })

/-- `on_client_open`, second part: the range is computed from the config read. -/
def sendClientOpen (rt : JsRuntime) (index : U32) (cfg : ServerTransportConfig) : JsRuntime :=
  let range := cfg.rangeForClient index
  rt.send (.clientOpen index range.1 range.2)

/-- `on_client_open`, last part: what the client is told. -/
def initState (rt : JsRuntime) (index : U32) (cfg : ServerTransportConfig) : InitState :=
  let range := cfg.rangeForClient index
  ⟨range.1, range.2, cfg.reservedLocalEntities, rt.snapshot⟩

def onClientCrdt (rt : JsRuntime) (index : U32) (body : Bytes) : JsRuntime :=
  rt.send (.clientCrdt index body)

/-- `on_client_close`, first part. -/
def sendClientClose (rt : JsRuntime) (index : U32) : JsRuntime := rt.send (.clientClose index)

/-- `on_client_close`, second part. -/
def removeOutbound (rt : JsRuntime) (index : U32) : JsRuntime :=
  { rt with outbound := rt.outbound.erase index }

/-- `on_client_close`, last part: the scene thread releases the slot, unless it is
gone. -/
def releaseIfStopped (rt : JsRuntime) (index : U32) : JsRuntime :=
  if rt.running then rt else { rt with slots := rt.slots.release index }

/-! ### The command loop of the scene thread -/

def openChannel (rt : JsRuntime) (index start size : U32) : JsRuntime :=
  { rt with
    clients := match rt.clients[index]? with
      | some existing =>
        if existing.closed then rt.clients.insert index (ClientChannel.new start size)
        else rt.clients
      | none => rt.clients.insert index (ClientChannel.new start size) }

/-- The ranges of the other channels that are not closed. -/
def foreignRanges (rt : JsRuntime) (index : U32) : List Range :=
  (rt.clients.toList.filter fun e => decide (e.1 ≠ index) && !e.2.closed).map
    fun e => e.2.range

/-- A full inbound queue closes the channel; otherwise the admitted messages are
queued for the scene. -/
def receive (rt : JsRuntime) (index : U32) (body : Bytes) (c : ClientChannel) : ClientChannel :=
  if rt.limits.clientInboundMax ≤ c.inbound.length then { c with closing := true }
  else
    let guard := AuthorityGuard.mk (.client c.start c.size) rt.config.networkFloor
      (rt.foreignRanges index)
    let msgs := guard.filter (decodeClientBatch body c.start c.size)
    if msgs = [] then c else { c with inbound := c.inbound ++ [encodeBatch msgs] }

def handle (rt : JsRuntime) : Command → JsRuntime
  | .clientOpen index start size => rt.openChannel index start size
  | .clientCrdt index body =>
    { rt with clients := rt.clients.modify index (rt.receive index body) }
  | .clientClose index =>
    { rt with clients := rt.clients.modify index fun c => { c with closing := true } }

/-- `try_recv` and the command's arm. -/
def drain (rt : JsRuntime) : Option JsRuntime :=
  match rt.queue with
  | [] => none
  | command :: queue => some ({ rt with queue := queue }.handle command)

/-! ### What the scene's script can call -/

/-- Whether some channel is not closed. -/
def live (rt : JsRuntime) : Bool := rt.clients.toList.any fun e => !e.2.closed

/-- `registerScene`: the config is replaced only while no channel is open. An
argument that is not an object (`none`) leaves it alone. -/
def registerScene (rt : JsRuntime) (cfg : Option SceneConfig) : JsRuntime :=
  match cfg with
  | none => rt
  | some cfg => if rt.live then rt else { rt with config := cfg.transport }

/-- `apply_as_server`: the messages admitted, whether any was dropped, and the
runtime after. -/
def applyAsServer (rt : JsRuntime) (bytes : Bytes) : List CrdtMessage × Bool × JsRuntime :=
  let decoded := decodeBatch bytes
  let msgs := (AuthorityGuard.mk .server rt.config.networkFloor []).filter decoded
  let engine := if msgs = [] then rt.engine else (rt.engine.applyBatch msgs).2
  (msgs, decide (msgs.length < decoded.length),
    { rt with engine := engine, snapshot := engine.snapshot })

def crdtSendToRenderer (rt : JsRuntime) (bytes : Bytes) : JsRuntime := (rt.applyAsServer bytes).2.2

def updateCrdtState (rt : JsRuntime) (bytes : Bytes) : JsRuntime := { rt with snapshot := bytes }

/-- `client.sendCrdtMessage`: what was dropped does not reach the wire either. -/
def clientSend (rt : JsRuntime) (index : U32) (bytes : Bytes) : JsRuntime :=
  if bytes = [] then rt
  else
    let r := rt.applyAsServer bytes
    let payload := if r.2.1 then encodeBatch r.1 else bytes
    if payload = [] then r.2.2
    else { r.2.2 with
      clients := r.2.2.clients.modify index
        (ClientChannel.pushOutbound rt.limits.clientOutboundMax payload) }

/-- `client.getMessages`: the queued bodies, and the runtime after. -/
def clientGetMessages (rt : JsRuntime) (index : U32) : List Bytes × JsRuntime :=
  match rt.clients[index]? with
  | none => ([], rt)
  | some ch => (ch.inbound, { rt with clients := rt.clients.insert index { ch with inbound := [] } })

/-! ### Client events, flush and retirement -/

/-- The `open` event is delivered once, when an observer is installed. -/
def deliverOpen (rt : JsRuntime) (index : U32) : Option JsRuntime :=
  match rt.clients[index]? with
  | some ch =>
    if ch.openDelivered || ch.closing || ch.closed then none
    else some { rt with clients := rt.clients.insert index { ch with openDelivered := true } }
  | none => none

/-- Queue a body for every open channel but `index`. -/
def pushToOthers (clients : OrdMap U32 ClientChannel) (index : U32) (body : Bytes) :
    OrdMap U32 ClientChannel :=
  clients.map fun other ch =>
    if other ≠ index ∧ ch.closed = false then { ch with outbound := ch.outbound ++ [body] } else ch

/-- The reclaim of `deliver_client_events` for one channel that is closing: free
its range, mark it closed and only then release the slot. -/
def reclaim (rt : JsRuntime) (index : U32) : Option JsRuntime :=
  match rt.clients[index]? with
  | some ch =>
    if ch.closing && !ch.closed then
      let r := rt.engine.reclaimRange ch.start ch.size
      let clients := if r.1 = [] then rt.clients
        else pushToOthers rt.clients index (encodeBatch r.1)
      some { rt with
        engine := r.2
        snapshot := if r.1 = [] then rt.snapshot else r.2.snapshot
        clients := clients.modify index fun c => { c with closed := true }
        slots := rt.slots.release index }
    else none
  | none => none

/-- Whether or not a sender is registered, the outbound queues are empty after. -/
def flushOutbound (rt : JsRuntime) : JsRuntime :=
  { rt with clients := rt.clients.map fun _ ch => { ch with outbound := [] } }

def retain (rt : JsRuntime) : JsRuntime :=
  { rt with clients := rt.clients.filter fun _ ch => !ch.closed }

/-- The thread stops: nothing will reclaim a range from here on, and every slot is
dropped. -/
def finish (rt : JsRuntime) : JsRuntime := { rt with running := false, slots := ∅ }

end JsRuntime

end Catalyrst.SceneState
