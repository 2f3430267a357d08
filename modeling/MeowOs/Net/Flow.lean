import MeowOs.Net.Protocols

/-! # The flow of a packet

Hooks, the delivery to sockets, and the loop that takes a packet up through its
layers, over a bridge and down again.
-/

namespace MeowOs.Net

open MeowOs.Machine Prog

/-! ## Hooks -/

inductive HookStage where
  | badPacket
  | inbound (layer : NetLayerType)
  | bridge (layer : NetLayerType)
  | outbound (layer : NetLayerType)
  deriving DecidableEq

abbrev NetHookFunction := NetPacket → Prog NetState (HookResult × NetPacket)

def initHooks : HookStage → List NetHookFunction
  | .bridge .arp => [processArp]
  | .bridge .ethernet => [ethernetBridgeHook]
  | .bridge .ipv4 => [ipv4BridgeHook]
  | .inbound .icmp => [icmpInHook]
  | .bridge .udp => [udpBridgeHook]
  | _ => []

/-- `HookStorage::call_hooks`: the loop over the hooks of a stage. -/
def runHooks : List NetHookFunction → NetPacket → HookResult → Prog NetState (HookResult × NetPacket)
  | [], packet, result => pure (result, packet)
  | hook :: rest, packet, result => do
    let (res, packet) ← hook packet
    match res with
    | .nothing => runHooks rest packet result
    | .layerModified => runHooks rest packet .layerModified
    | .drop => pure (.drop, packet)

/-! ## Sockets -/

/-- The reversed addresses whose bit is set in `i`, from the address with bit `j` on. -/
def selectAddresses (i : Nat) : Nat → List (AddressPair NetAddress) → List (AddressPair NetAddress)
  | _, [] => []
  | j, addr :: rest =>
    if i.testBit j then addr.reverse :: selectAddresses i (j + 1) rest else selectAddresses i (j + 1) rest

def combination (addresses : List (AddressPair NetAddress)) (top : AddressPair NetAddress) (i : Nat) :
    List (AddressPair NetAddress) :=
  selectAddresses i 0 addresses ++ [top.reverse]

def pushTo (packet : NetPacket) (addrs : List (AddressPair NetAddress)) : List NetSocket → Option (List NetSocket)
  | [] => some []
  | socket :: rest =>
    if socket.addresses = addrs then do
      let processed ← packet.intoProcessed
      let queue ← socket.queue.push processed
      let rest ← pushTo packet addrs rest
      pure ({ socket with queue := queue } :: rest)
    else do
      let rest ← pushTo packet addrs rest
      pure (socket :: rest)

def deliverTo (packet : NetPacket) (addrs : List (AddressPair NetAddress)) : Prog NetState Unit := fun net =>
  (pushTo packet addrs (net.sockets (net.hashAddrSlice addrs))).map fun bucket =>
    ((), { net with sockets := Function.update net.sockets (net.hashAddrSlice addrs) bucket })

def deliver (packet : NetPacket) : Prog NetState Unit :=
  match packet.addresses.getLast? with
  | none => pure ()
  | some top =>
    Prog.forUp (fun i => deliverTo packet (combination packet.addresses top i)) 0 (2 ^ (packet.addresses.length - 1))

def callHooks (registered : HookStage → List NetHookFunction) (packet : NetPacket) (stage : HookStage) :
    Prog NetState (Bool × NetPacket) := do
  let (res, packet) ← runHooks (registered stage) packet .nothing
  match res with
  | .drop => pure (false, packet)
  -- "fix layer modification" is a `todo!`
  | .layerModified => Prog.panic
  | .nothing =>
    match stage with
    | .inbound _ => do
      deliver packet
      pure (true, packet)
    | _ => pure (true, packet)

/-! ## The loop -/

def processInboundPacket (registered : HookStage → List NetHookFunction) (packet : NetPacket) (layerType : NetLayerType)
    (layerOffset : Nat) : Prog NetState (IncomingFlowDirection × NetPacket) :=
  if layerType = .none then pure (.drop, packet)
  else do
    let (parsed, packet) ← parseLayer packet layerType layerOffset
    match parsed with
    | none => do
      let (_, packet) ← callHooks registered packet .badPacket
      pure (.drop, packet)
    | some parsed => do
      let isKnown ← Prog.ofOption parsed.isKnown
      let packet := { packet with parsedLayers := packet.parsedLayers ++ [parsed] }
      let (goesOn, packet) ← callHooks registered packet (.inbound layerType)
      if !goesOn || !isKnown then pure (.drop, packet)
      else do
        let highest ← Prog.ofOption packet.getHighestLayer
        let layer ← Prog.ofOption highest
        let tables ← NetState.getTables
        let direction ← Prog.ofOption (layer.incomingFlowDirection tables)
        pure (direction, packet)

def processBridge (registered : HookStage → List NetHookFunction) (packet : NetPacket) (layerType : NetLayerType) :
    Prog NetState (Bool × NetPacket) := do
  let (goesOn, packet) ← callHooks registered packet (.bridge layerType)
  if goesOn then do
    let original := packet
    let packet ← Prog.ofOption packet.bridgeToOutSetLayers
    let highest ← Prog.ofOption packet.getHighestLayer
    let topLayer ← Prog.ofOption highest
    let topLayerOffset ← Prog.ofOption topLayer.upperLayerOffset
    let packet ← Prog.ofOption (packet.nukeLowerLayers topLayerOffset)
    pure (true, { packet with parsedLayers := [], source := .otherPacket original })
  else pure (false, packet)

def processOutboundPacket (registered : HookStage → List NetHookFunction) (packet : NetPacket) (layerType : NetLayerType) :
    Prog NetState (OutgoingFlowDirection × NetPacket) := do
  let (goesOn, packet) ← callHooks registered packet (.outbound layerType)
  if goesOn then constructLayer packet layerType else pure (.drop, packet)

/-- One round of the loop of `process_packet_flow`: what it pushes on the queue for a packet, last element on top. -/
def flowStep (registered : HookStage → List NetHookFunction) (offset : Nat) (packet : PacketInRouting) :
    Prog NetState (List (Nat × PacketInRouting)) :=
  match packet.routingStep with
  | .incoming => do
    let (direction, data) ← processInboundPacket registered packet.data packet.layer offset
    match direction with
    | .layerUp upper upperOffset => pure [(upperOffset, ⟨data, .incoming, upper⟩)]
    | .bridge => pure [(0, ⟨data, .bridge, packet.layer⟩)]
    | .both upper upperOffset => pure [(upperOffset, ⟨data, .incoming, upper⟩), (0, ⟨data, .bridge, packet.layer⟩)]
    | .drop => pure []
  | .bridge => do
    let (goesOn, data) ← processBridge registered packet.data packet.layer
    pure (if goesOn then [(0, ⟨data, .outgoing, packet.layer⟩)] else [])
  | .outgoing => do
    let (direction, data) ← processOutboundPacket registered packet.data packet.layer
    match direction with
    | .layerDown (.normal lower) => pure [(0, ⟨data, .outgoing, lower⟩)]
    | .layerDown (.nic nic) => do
      NetState.sendPacket nic data.chunks
      pure []
    | .drop => pure []

/-- The loop of `process_packet_flow`, over the queue with its top first. -/
def flowLoop (registered : HookStage → List NetHookFunction) : Nat → List (Nat × PacketInRouting) → Prog NetState Unit
  | 0, _ => Prog.panic
  | _ + 1, [] => pure ()
  | fuel + 1, (offset, packet) :: queue => do
    let pushed ← flowStep registered offset packet
    flowLoop registered fuel (pushed.reverse ++ queue)

def processPacketFlow (registered : HookStage → List NetHookFunction) (fuel : Nat) (packet : PacketInRouting) :
    Prog NetState Unit := fun net =>
  if net.netInitialized then flowLoop registered fuel [(0, packet)] net else some ((), net)

/-- A frame from a network interface is taken in, as `append_raw_net_queue` and `process_packets` do it. -/
def receiveFrame (fuel : Nat) (nicId : Nat) (chunks : List (List UInt8)) : Prog NetState Unit := do
  let packet ← Prog.ofOption (NetPacket.new chunks (.nic nicId))
  processPacketFlow initHooks fuel ⟨packet, .incoming, .ethernet⟩

end MeowOs.Net
