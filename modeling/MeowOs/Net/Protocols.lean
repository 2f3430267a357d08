import MeowOs.Collections.DataQueue
import MeowOs.Machine.Prog
import MeowOs.Net.RoutingTables

/-! # Protocol layers

Parsers, constructors and hooks of Ethernet, ARP, IPv4, ICMP and UDP.  A parser
returns the header, or `none` for a bad packet, and the packet as it is then;
it panics where the source indexes or subtracts out of range.
-/

namespace MeowOs.Net

open MeowOs.Machine
open Prog (assert modify ofOption panic)
open MeowOs.Collections

/-! ## State -/

structure NetSocket where
  id : Nat
  addresses : List (AddressPair NetAddress)
  queue : DataQueueHead ProcessedPacket

structure NetState where
  netInitialized : Bool
  tables : RoutingTables
  /-- `NET_SOCKETS`, by the hash of the addresses. -/
  sockets : Nat → List NetSocket
  /-- `hash_addr_slice`, whose keys are random. -/
  hashAddrSlice : List (AddressPair NetAddress) → Nat
  netQueue : DataQueueHead PacketInRouting
  sent : List (Nic × List (List UInt8))

namespace NetState

def getTables : Prog NetState RoutingTables := fun net => some (net.tables, net)

def setTables (tables : RoutingTables) : Prog NetState Unit := modify fun net => { net with tables := tables }

def addNetPacketToQueue (packet : PacketInRouting) : Prog NetState Unit := fun net =>
  if net.netInitialized then (net.netQueue.push packet).map fun q => ((), { net with netQueue := q })
  else some ((), net)

def appendNetQueue (other : DataQueueHead PacketInRouting) : Prog NetState Unit := fun net =>
  if net.netInitialized then (net.netQueue.append other).map fun q => ((), { net with netQueue := q })
  else some ((), net)

def sendPacket (nic : Nic) (data : List (List UInt8)) : Prog NetState Unit :=
  modify fun net => { net with sent := net.sent ++ [(nic, data)] }

end NetState

/-! ## Layers -/

inductive IncomingFlowDirection where
  | layerUp (upper : NetLayerType) (offset : Nat)
  | bridge
  | both (upper : NetLayerType) (offset : Nat)
  | drop

inductive LayerDownType where
  | normal (layer : NetLayerType)
  | nic (nic : Nic)

inductive OutgoingFlowDirection where
  | layerDown (down : LayerDownType)
  | drop

inductive HookResult where
  | nothing | layerModified | drop

def EthernetHeader.upperLayerType (header : EthernetHeader) : NetLayerType :=
  if header.upperType = 0x0800 then .ipv4
  else if header.upperType = 0x0806 then .arp
  -- IPv6 is not supported yet
  else .unknown

def EthernetHeader.upperLayerOffset (header : EthernetHeader) : Nat := header.offset + 14

def ArpHeader.upperLayerOffset (header : ArpHeader) : Nat := header.offset + header.size

def Ipv4Header.upperLayerType (header : Ipv4Header) : NetLayerType :=
  if header.protocol = 1 then .icmp
  else if header.protocol = 6 then .tcp
  else if header.protocol = 17 then .udp
  else if header.protocol = 41 then .ipv6
  else .unknown

def Ipv4Header.upperLayerOffset (header : Ipv4Header) : Nat := header.offset + header.ihl * 4

def IcmpHeader.upperLayerOffset (header : IcmpHeader) : Nat := header.offset + 8 + header.payload.length

def UdpHeader.upperLayerOffset (header : UdpHeader) : Nat := header.offset + 8

namespace NetLayerData

/-- `is_known`, which panics for `None`. -/
def isKnown : NetLayerData → Option Bool
  | .unparsed => some false
  | .unknown _ => some false
  | .none => Option.none
  | _ => some true

/-- `get().is_some()`: the layer has methods. -/
def hasMethods : NetLayerData → Bool
  | .ethernet _ => true
  | .arp _ => true
  | .ipv4 _ => true
  | .icmp _ => true
  | .udp _ => true
  | _ => false

def upperLayerOffset : NetLayerData → Option Nat
  | .ethernet header => some header.upperLayerOffset
  | .arp header => some header.upperLayerOffset
  | .ipv4 header => some header.upperLayerOffset
  | .icmp header => some header.upperLayerOffset
  | .udp header => some header.upperLayerOffset
  | _ => Option.none

def incomingFlowDirection (tables : RoutingTables) : NetLayerData → Option IncomingFlowDirection
  | .ethernet header =>
    if header.destination.isBroadcast then some (.both header.upperLayerType header.upperLayerOffset)
    else if tables.isOwnMac header.destination then some (.layerUp header.upperLayerType header.upperLayerOffset)
    else some .bridge
  | .arp _ => some .bridge
  | .ipv4 header =>
    if header.inInterfaceNetworks.any fun network => network.contains header.address.target then
      some (.layerUp header.upperLayerType header.upperLayerOffset)
    else some .bridge
  | .icmp _ => some .drop
  | .udp _ => some .bridge
  | _ => Option.none

/-- `bridge_to_out_set_layers` of the layer: what it pushes, if anything.  The time to live is counted down. -/
def bridgeToOutSetLayers : NetLayerData → Option (List NetLayerFlowId)
  | .ethernet header => some [.ethernet ⟨⟨header.source, header.destination⟩, header.upperType, Option.none⟩]
  | .arp header =>
    -- a packet through the ARP bridge is a response
    some [.arp ⟨2, header.flowId.protocol.reverse, header.flowId.hardware.reverse⟩]
  | .ipv4 header =>
    if header.ttl = 0 then Option.none
    else some [.ipv4 ⟨header.address, header.protocol, header.diffServices, header.ttl - 1, header.fragmentInfo⟩]
  | _ => some []

end NetLayerData

namespace NetPacket

/-- `get_highest_layer`, which panics for a layer without methods. -/
def getHighestLayer (packet : NetPacket) : Option (Option NetLayerData) :=
  match packet.parsedLayers.getLast? with
  | none => some none
  | some layer => if layer.hasMethods then some (some layer) else none

def getLayer (packet : NetPacket) (indexFromTop : Nat) : Option (Option NetLayerData) :=
  if packet.parsedLayers.length < 1 + indexFromTop then none
  else match packet.parsedLayers[packet.parsedLayers.length - 1 - indexFromTop]? with
    | none => some none
    | some layer => if layer.hasMethods then some (some layer) else none

def intoProcessed (packet : NetPacket) : Option ProcessedPacket := do
  let highest ← packet.getHighestLayer
  pure ⟨packet, (highest.bind NetLayerData.upperLayerOffset).getD 0⟩

def bridgeToOutSetLayers (packet : NetPacket) : Option NetPacket :=
  match packet.parsedLayers.getLast? with
  | none => some packet
  | some layer => do
    let pushed ← layer.bridgeToOutSetLayers
    pure { packet with layersToConstruct := packet.layersToConstruct ++ pushed }

end NetPacket

/-- `parse_ethernet_frame`, but for the station that is remembered. -/
def parseEthernetFrame (packet : NetPacket) : Option (Option EthernetHeader × NetPacket) :=
  let packetLen := packet.length
  if packetLen < 14 then some (none, packet)
  else do
    let packet ← packet.ensureLength 14
    let data ← packet.chunks[0]?
    let destination ← slice data 0 6 >>= Bytes.ofSlice 6
    let source ← slice data 6 12 >>= Bytes.ofSlice 6
    let lowerType ← u16At data 12
    pure (some ⟨0, packetLen - 4, source, destination, lowerType⟩, packet.appendAddress ⟨.mac source, .mac destination⟩)

/-- The loop of `bridge_hook` over the other members of the bridge. -/
def bridgeTargets (tables : RoutingTables) (packet : NetPacket) (header : EthernetHeader) (mac : MacAddress) :
    List MacAddress → DataQueueHead PacketInRouting → Option (DataQueueHead PacketInRouting)
  | [], outQueue => some outQueue
  | outMac :: rest, outQueue =>
    if outMac = mac then bridgeTargets tables packet header mac rest outQueue
    else match tables.getNicOfOwnAddress (.mac outMac) with
      | none => bridgeTargets tables packet header mac rest outQueue
      | some nic => do
        let newPacket ← packet.nukeLowerLayers header.upperLayerOffset
        match nic.nicType with
        | .ipv4 => none
        | .ethernet =>
          let flow := NetLayerFlowId.ethernet ⟨⟨header.source, outMac⟩, header.upperType, some outMac⟩
          let outQueue ← outQueue.push ⟨{ newPacket with layersToConstruct := [flow] }, .outgoing, .ethernet⟩
          bridgeTargets tables packet header mac rest outQueue

def ethernetBridgeHook (packet : NetPacket) : Prog NetState (HookResult × NetPacket) := do
  let highest ← ofOption packet.getHighestLayer
  match highest, packet.source with
  | some (.ethernet header), .nic inNic => do
    let tables ← NetState.getTables
    match tables.getMacOfOwnNic inNic with
    | none => pure (.drop, packet)
    | some mac => do
      let outMacs := tables.getMacBridges mac
      let outQueue ← ofOption (bridgeTargets tables packet header mac outMacs (DataQueueHead.new outMacs.length))
      NetState.appendNetQueue outQueue
      pure (.drop, packet)
  | _, _ => pure (.drop, packet)

def constructEthernet (packet : NetPacket) : Prog NetState (OutgoingFlowDirection × NetPacket) :=
  let rest := { packet with layersToConstruct := packet.layersToConstruct.dropLast }
  match packet.layersToConstruct.getLast? with
  | some (.ethernet data) => do
    let tables ← NetState.getTables
    let (nic, tables) := match data.outInterface with
      | some mac => (tables.getNicOfOwnAddress (.mac mac), tables)
      | none => tables.getRouteMacNic data.macAddr.target
    NetState.setTables tables
    match nic with
    | none => pure (.drop, rest)
    | some outNic =>
      if outNic.nicType ≠ .ethernet then pure (.drop, rest)
      else do
        let header := data.macAddr.target.data ++ data.macAddr.source.data ++ u16Bytes data.etherType
        let packet ← ofOption (rest.insertChunkFront header)
        pure (.layerDown (.nic outNic), packet)
  | _ => pure (.drop, rest)

/-! ## ARP -/

def HardwareAddr.fromBytes (hardwareType : Nat) (data : List UInt8) : Option (Option HardwareAddr) :=
  if hardwareType = 1 then do
    let mac ← slice data 0 6 >>= Bytes.ofSlice 6
    pure (some (.ethernet mac))
  else some none

def ProtocolAddr.fromBytes (protocolType : Nat) (data : List UInt8) : Option (Option ProtocolAddr) :=
  if protocolType = 0x0800 then do
    let addr ← slice data 0 4 >>= Bytes.ofSlice 4
    pure (some (.ipv4 addr))
  else if protocolType = 0x86DD then do
    let addr ← slice data 0 16 >>= Bytes.ofSlice 16
    pure (some (.ipv6 addr))
  else some none

/-- The addresses of `parse_arp`: hardware and protocol of the sender, then of the target.  The slice of the target's
protocol address has the size of a hardware address. -/
def parseArpAddresses (data : List UInt8) (offset hardwareType protocolType hardwareSize protocolSize : Nat) :
    Option (Option (AddressPair HardwareAddr × AddressPair ProtocolAddr)) := do
  let senderHardware ← slice data offset (offset + hardwareSize) >>= HardwareAddr.fromBytes hardwareType
  match senderHardware with
  | none => pure none
  | some senderHardware => do
    let offset := offset + hardwareSize
    let senderProtocol ← slice data offset (offset + protocolSize) >>= ProtocolAddr.fromBytes protocolType
    match senderProtocol with
    | none => pure none
    | some senderProtocol => do
      let offset := offset + protocolSize
      let targetHardware ← slice data offset (offset + hardwareSize) >>= HardwareAddr.fromBytes hardwareType
      match targetHardware with
      | none => pure none
      | some targetHardware => do
        let offset := offset + hardwareSize
        let targetProtocol ← slice data offset (offset + hardwareSize) >>= ProtocolAddr.fromBytes protocolType
        match targetProtocol with
        | none => pure none
        | some targetProtocol => pure (some (⟨senderHardware, targetHardware⟩, ⟨senderProtocol, targetProtocol⟩))

def parseArp (packet : NetPacket) (offset : Nat) : Option (Option ArpHeader × NetPacket) := do
  let packet ← packet.ensureLength (offset + 28)
  let data ← packet.chunks[0]?
  let hardwareType ← u16At data offset
  let protocolType ← u16At data (offset + 2)
  let hardwareSize ← data[offset + 4]?
  let protocolSize ← data[offset + 5]?
  let operation ← u16At data (offset + 6)
  let addresses ← parseArpAddresses data (offset + 8) hardwareType protocolType hardwareSize.toNat protocolSize.toNat
  pure (addresses.map fun found =>
    ⟨offset, ⟨operation, found.2, found.1⟩, 8 + 2 * hardwareSize.toNat + 2 * protocolSize.toNat⟩, packet)

def processArp (packet : NetPacket) : Prog NetState (HookResult × NetPacket) :=
  match packet.source with
  | .nic inNic => do
    let highest ← ofOption packet.getHighestLayer
    match highest with
    | some (.arp arpLayer) => do
      let tables ← NetState.getTables
      match tables.getNicAddressesFromId inNic with
      | none => pure (.drop, packet)
      | some nicInfo =>
        match nicInfo.findSome? NetAddress.intoHardware with
        | none => pure (.drop, packet)
        | some selfHwAddr => do
          let flow := arpLayer.flowId
          let tables := tables.updateArpEntry flow.hardware.source selfHwAddr flow.protocol.source
          if flow.operation = 2 then do
            NetState.setTables (tables.updateArpEntry flow.hardware.target selfHwAddr flow.protocol.target)
            pure (.drop, packet)
          else do
            NetState.setTables tables
            if nicInfo.any fun addr => addr.intoProtocol == some flow.protocol.target then
              let answered := { arpLayer with flowId := { flow with hardware := { flow.hardware with target := selfHwAddr } } }
              pure (.nothing, { packet with parsedLayers := packet.parsedLayers.dropLast ++ [.arp answered] })
            else pure (.drop, packet)
    | _ => pure (.drop, packet)
  | _ => pure (.drop, packet)

def HardwareAddr.bytes : HardwareAddr → List UInt8
  | .ethernet mac => mac.data

def ProtocolAddr.bytes : ProtocolAddr → List UInt8
  | .ipv4 address => address.data
  | .ipv6 address => address.data

def ProtocolAddr.type : ProtocolAddr → Nat
  | .ipv4 _ => 0x0800
  | .ipv6 _ => 0x86DD

/-- `write_data_to_packet` into a chunk of the right size. -/
def ArpFlowId.bytes (data : ArpFlowId) : List UInt8 :=
  u16Bytes 1 ++ u16Bytes data.protocol.source.type ++ [6, UInt8.ofNat data.protocol.source.bytes.length] ++
    u16Bytes data.operation ++ data.hardware.source.bytes ++ data.protocol.source.bytes ++ data.hardware.target.bytes ++
    data.protocol.target.bytes

def constructArp (packet : NetPacket) : Prog NetState (OutgoingFlowDirection × NetPacket) :=
  let rest := { packet with layersToConstruct := packet.layersToConstruct.dropLast }
  match packet.layersToConstruct.getLast? with
  | some (.arp data) =>
    match data.hardware with
    | ⟨.ethernet sourceMac, .ethernet destMac⟩ => do
      -- the chunk is sized for the source's protocol address twice; behind a shorter one it is not written, taken as 0
      assert (data.protocol.target.bytes.length ≤ data.protocol.source.bytes.length)
      let unwritten := data.protocol.source.bytes.length - data.protocol.target.bytes.length
      let flow := NetLayerFlowId.ethernet ⟨⟨sourceMac, destMac⟩, 0x0806, none⟩
      let packet ← ofOption ({ rest with layersToConstruct := rest.layersToConstruct ++ [flow] }.insertChunkFront
        (data.bytes ++ List.replicate unwritten 0))
      pure (.layerDown (.normal .ethernet), packet)
  | _ => pure (.drop, rest)

/-! ## IPv4 -/

def interfaceNetworksOf (tables : RoutingTables) (source : NetPacketSource NetPacket) : List Ipv4Network :=
  match source with
  | .nic nicId =>
    (((tables.getNicAddressesFromId nicId).getD []).filterMap fun addr => match addr with
      | .ipv4Network network => some network
      | _ => none).insertionSort fun a b => a.cmp b ≠ .gt
  | _ => []

/-- The fields of an IPv4 header, from `data` on. -/
def parseIpv4Fields (data : List UInt8) (offset ihl : Nat) (networks : List Ipv4Network) : Option Ipv4Header := do
  let services ← data[1]?
  let totalLength ← u16At data 2
  let identification ← u16At data 4
  let flags ← data[6]?
  let fragment ← u16At data 6
  let ttl ← data[8]?
  let protocol ← data[9]?
  let headerChecksum ← u16At data 10
  let source ← slice data 12 16 >>= Bytes.ofSlice 4
  let destination ← slice data 16 20 >>= Bytes.ofSlice 4
  pure ⟨offset, ihl, services.toNat / 4, totalLength, ⟨identification, flags.toNat / 32, fragment % 0x2000⟩, ttl.toNat,
    protocol.toNat, headerChecksum, ⟨source, destination⟩, networks⟩

/-- The length check leaves the offset out, and the checksum is computed before the header is known
to be in one chunk. -/
def parseIpv4Packet (tables : RoutingTables) (packet : NetPacket) (offset : Nat) :
    Option (Option Ipv4Header × NetPacket) :=
  let packetLen := packet.length
  if packetLen < offset + 1 then some (none, packet)
  else do
    let packet ← packet.ensureLength (offset + 1)
    let data ← packet.chunks[0]?
    let vIhl ← data[offset]?
    if vIhl.toNat / 16 ≠ 4 then pure (none, packet)
    else
      let headerLen := vIhl.toNat % 16 * 4
      if packetLen < headerLen then pure (none, packet)
      else do
        let checksum ← slice data offset (offset + headerLen) >>= computeInternetChecksum
        if checksum ≠ 0 then pure (none, packet)
        else do
          let packet ← packet.ensureLength headerLen
          let data ← packet.chunks[0]?
          let fields ← slice data offset data.length
          let header ← parseIpv4Fields fields offset (vIhl.toNat % 16) (interfaceNetworksOf tables packet.source)
          if header.totalLength < headerLen then none
          else
            pure (some header, { packet with upperLayerSize := some (header.totalLength - headerLen) }.appendAddress
              ⟨.ipv4Address header.address.source, .ipv4Address header.address.target⟩)

def Ipv4Address.isMulticast (ip : Ipv4Address) : Bool := (beNat ip.data) / 2 ^ 28 == 0xE

def Ipv4Network.broadcastFor (network : Ipv4Network) (ip : Ipv4Address) : Bool :=
  ip.data == [255, 255, 255, 255] ||
    beNat ip.data == beNat network.address.data ||| (2 ^ 32 - 1 - beNat network.mask.data)

/-- `downcast_ref::<Ipv4Header>()` of an element of `parsed_layers`, whose type is `NetLayerData` whatever it holds. -/
def downcastIpv4Header (_layer : NetLayerData) : Option Ipv4Header := none

def sendIcmpError (packet : NetPacket) (icmpType code data : Nat) : Prog NetState Unit :=
  match packet.parsedLayers.reverse.findSome? downcastIpv4Header with
  | none => pure ()
  | some ipv4Layer => do
    let destinationAddr := ipv4Layer.address.source
    let icmpCode ← if ipv4Layer.upperLayerType = .icmp then
        (do
          let first ← ofOption packet.chunks[0]?
          let b ← ofOption first[ipv4Layer.upperLayerOffset]?
          pure (some b.toNat))
      else pure none
    if ipv4Layer.inInterfaceNetworks.any (fun network => network.broadcastFor destinationAddr) ||
        destinationAddr.isMulticast || icmpCode.any fun c => [3, 4, 5, 11, 12].contains c then pure ()
    else do
      let tables ← NetState.getTables
      match tables.getIpv4Route destinationAddr with
      | none => pure ()
      | some route => do
        let packet ← ofOption (packet.ensureLength (ipv4Layer.upperLayerOffset + 8))
        let first ← ofOption packet.chunks[0]?
        if first.length < ipv4Layer.upperLayerOffset + 8 then pure ()
        else do
          let payload ← ofOption (slice first ipv4Layer.offset (ipv4Layer.upperLayerOffset + 8))
          let reply ← ofOption (NetPacket.new [] (.otherPacket packet))
          let flow := NetLayerFlowId.icmp ⟨icmpType, code, ⟨route.localInterfaceIp, destinationAddr⟩, data, payload⟩
          NetState.addNetPacketToQueue ⟨{ reply with layersToConstruct := [flow] }, .outgoing, .icmp⟩

def ipv4BridgeHook (packet : NetPacket) : Prog NetState (HookResult × NetPacket) := do
  let highest ← ofOption packet.getHighestLayer
  match highest with
  | some (.ipv4 header) =>
    if header.ttl = 1 then do
      sendIcmpError packet 11 0 0
      pure (.drop, packet)
    else pure (.nothing, packet)
  | _ => pure (.drop, packet)

/-- The header before its checksum is filled in. -/
def Ipv4FlowId.bytes (data : Ipv4FlowId) (upperLayersLength : Nat) (checksum : List UInt8) : List UInt8 :=
  [0x45, UInt8.ofNat (data.diffServices * 4)] ++ u16Bytes ((upperLayersLength + 20) % 2 ^ 16) ++
    u16Bytes data.fragmentInfo.identification ++
    u16Bytes ((data.fragmentInfo.flags * 2 ^ 13 % 2 ^ 16) ||| (data.fragmentInfo.fragmentOffset % 2 ^ 16)) ++
    [UInt8.ofNat data.ttl, UInt8.ofNat data.protocol] ++ checksum ++ data.address.source.data ++ data.address.target.data

inductive Ipv4Error where
  | networkUnreachable | hostUnreachable | otherNonFatal | otherFatal

/-- The next layer down of an IPv4 packet that has none set: by the routing tables. -/
def routeIpv4 (tables : RoutingTables) (data : Ipv4FlowId) : Except Ipv4Error (List NetLayerFlowId × LayerDownType) :=
  match tables.getIpv4Route data.address.target with
  | none => .error .networkUnreachable
  | some route =>
    match tables.getOwnIpv4Mac route.network.address with
    | none => .error .otherFatal
    | some ownMac =>
      match tables.getArpEntry (.ipv4 route.firstHopIp) (.ethernet ownMac) with
      | none => .error (if route.firstHopIp = data.address.target then .hostUnreachable else .networkUnreachable)
      | some (.ethernet remoteMac) =>
        match (tables.getNicInfoFromOwnAddr (.mac ownMac)).head? with
        | none => .error .otherFatal
        | some nicInfo =>
          match nicInfo.nicType with
          | .ethernet => .ok ([.ethernet ⟨⟨ownMac, remoteMac⟩, 0x0800, none⟩], .normal .ethernet)
          | .ipv4 =>
            match tables.nicStorage nicInfo.id with
            | none => .error .otherFatal
            | some nic => .ok ([], .nic nic)

/-- The lower layer of an IPv4 packet: what is set, or else what the tables say. -/
def lowerOfIpv4 (tables : RoutingTables) (data : Ipv4FlowId) (layers : List NetLayerFlowId) :
    Except Ipv4Error (List NetLayerFlowId × LayerDownType) :=
  match layers.getLast? with
  | none => routeIpv4 tables data
  | some (.ethernet _) => .ok ([], .normal .ethernet)
  | some (.ipv4 _) => .ok ([], .normal .ipv4)
  | some _ => .error .otherFatal

/-- `construct_layer` of IPv4. -/
def constructIpv4 (packet : NetPacket) : Prog NetState (OutgoingFlowDirection × NetPacket) :=
  let rest := { packet with layersToConstruct := packet.layersToConstruct.dropLast }
  match packet.layersToConstruct.getLast? with
  | some (.ipv4 data) => do
    let tables ← NetState.getTables
    match lowerOfIpv4 tables data rest.layersToConstruct with
    | .ok (pushed, down) => do
      let checksum ← ofOption (computeInternetChecksum (data.bytes packet.length [0, 0]))
      let header := data.bytes packet.length (u16Bytes checksum)
      let packet ← ofOption
        ({ rest with layersToConstruct := rest.layersToConstruct ++ pushed }.insertChunkFront header)
      pure (.layerDown down, packet)
    | .error .otherNonFatal => pure (.drop, rest)
    -- "handle fatal error in construct_layer for IPv4" is a `todo!`
    | .error .otherFatal => panic
    | .error .networkUnreachable =>
      match packet.source with
      | .nic _ => panic
      | .proc _ => panic
      | .otherPacket original => do
        sendIcmpError original 3 0 0
        pure (.drop, rest)
      | .other => pure (.drop, rest)
    | .error .hostUnreachable =>
      match packet.source with
      | .nic _ => panic
      | .proc _ => panic
      | .otherPacket original => do
        sendIcmpError original 3 1 0
        pure (.drop, rest)
      | .other => pure (.drop, rest)
  | _ => pure (.drop, rest)

def parseIcmp (packet : NetPacket) (offset : Nat) : Option (Option IcmpHeader × NetPacket) := do
  let packet ← packet.ensureLength (offset + 8)
  match packet.upperLayerSize with
  | none => pure (none, packet)
  | some len => do
    let data ← packet.chunks[0]?
    let icmpType ← data[offset]?
    let code ← data[offset + 1]?
    let checksum ← u16At data (offset + 2)
    let word ← slice data (offset + 4) (offset + 8)
    let payload ← slice data (offset + 8) (offset + len)
    pure (some ⟨offset, icmpType.toNat, code.toNat, checksum, beNat word, payload⟩, packet)

def IcmpFlowId.bytes (data : IcmpFlowId) (checksum : List UInt8) : List UInt8 :=
  [UInt8.ofNat data.icmpType, UInt8.ofNat data.code] ++ checksum ++ u16Bytes (data.data / 2 ^ 16) ++
    u16Bytes (data.data % 2 ^ 16) ++ data.payload

def constructIcmp (packet : NetPacket) : Prog NetState (OutgoingFlowDirection × NetPacket) :=
  let rest := { packet with layersToConstruct := packet.layersToConstruct.dropLast }
  match packet.layersToConstruct.getLast? with
  | some (.icmp data) => do
    let checksum ← ofOption (computeInternetChecksum (data.bytes [0, 0]))
    let packet ← ofOption (rest.insertChunkFront (data.bytes (u16Bytes checksum)))
    let flow := NetLayerFlowId.ipv4 ⟨data.address, 1, 0, 64, ⟨0, 0, 0⟩⟩
    pure (.layerDown (.normal .ipv4), { packet with layersToConstruct := packet.layersToConstruct ++ [flow] })
  | _ => pure (.drop, rest)

def icmpInHook (packet : NetPacket) : Prog NetState (HookResult × NetPacket) := do
  let highest ← ofOption packet.getHighestLayer
  match highest with
  | some (.icmp icmpLayer) => do
    let below ← ofOption (packet.getLayer 1)
    match below with
    | some (.ipv4 ipv4Layer) =>
      if icmpLayer.icmpType = 8 then do
        let reply ← ofOption (NetPacket.new [] (.otherPacket packet))
        let flow := NetLayerFlowId.icmp ⟨0, 0, ipv4Layer.address.reverse, icmpLayer.data, icmpLayer.payload⟩
        NetState.addNetPacketToQueue ⟨{ reply with layersToConstruct := [flow] }, .outgoing, .icmp⟩
        pure (.drop, packet)
      else pure (.drop, packet)
    | _ => pure (.drop, packet)
  | _ => pure (.drop, packet)

/-! ## UDP -/

def parseUdp (packet : NetPacket) (offset : Nat) : Option (Option UdpHeader × NetPacket) := do
  let packet ← packet.ensureLength (offset + 8)
  let data ← packet.chunks[0]?
  let sourcePort ← u16At data offset
  let destPort ← u16At data (offset + 2)
  let length ← u16At data (offset + 4)
  let checksum ← u16At data (offset + 6)
  pure (some ⟨offset, ⟨sourcePort, destPort⟩, length, checksum⟩,
    packet.appendAddress ⟨.udpPort sourcePort, .udpPort destPort⟩)

/-- `bridge_hook_function` of UDP: it only prints the packet. -/
def udpBridgeHook (packet : NetPacket) : Prog NetState (HookResult × NetPacket) := pure (.drop, packet)

def constructUdp (packet : NetPacket) : Prog NetState (OutgoingFlowDirection × NetPacket) :=
  let rest := { packet with layersToConstruct := packet.layersToConstruct.dropLast }
  match packet.layersToConstruct.getLast?, rest.layersToConstruct.getLast? with
  | some (.udp data), some nextLayer => do
    assert (8 + packet.length % 2 ^ 16 < 2 ^ 16)
    let len := u16Bytes (8 + packet.length % 2 ^ 16)
    let header (checksum : List UInt8) := u16Bytes data.sourcePort ++ u16Bytes data.destPort ++ len ++ checksum
    match nextLayer with
    | .ipv4 flow => do
      let pseudo := flow.address.source.data ++ flow.address.target.data ++ [0, 17] ++ len ++ header [0, 0]
      let checksum ← ofOption (computeInternetChecksum (pseudo ++ packet.bytes))
      let packet ← ofOption (rest.insertChunkFront (header (u16Bytes checksum)))
      pure (.layerDown (.normal .ipv4), packet)
    | .ipv6 => panic
    | _ => pure (.drop, rest)
  | _, _ => pure (.drop, rest)

/-! ## All layers -/

def parseLayer (packet : NetPacket) (layerType : NetLayerType) (offset : Nat) :
    Prog NetState (Option NetLayerData × NetPacket) := do
  let tables ← NetState.getTables
  match layerType with
  | .ethernet => do
    let (header, packet) ← ofOption (parseEthernetFrame packet)
    match header, packet.source with
    | some header, .nic nic => NetState.setTables (tables.registerForeignMacAddress header.source nic)
    | _, _ => pure ()
    pure (header.map .ethernet, packet)
  | .arp => do
    let (header, packet) ← ofOption (parseArp packet offset)
    pure (header.map .arp, packet)
  | .ipv4 => do
    let (header, packet) ← ofOption (parseIpv4Packet tables packet offset)
    pure (header.map .ipv4, packet)
  | .icmp => do
    let (header, packet) ← ofOption (parseIcmp packet offset)
    pure (header.map .icmp, packet)
  | .udp => do
    let (header, packet) ← ofOption (parseUdp packet offset)
    pure (header.map .udp, packet)
  | .unknown => pure (some (.unknown offset), packet)
  | .none => pure (some .none, packet)
  | _ => pure (none, packet)

def constructLayer (packet : NetPacket) : NetLayerType → Prog NetState (OutgoingFlowDirection × NetPacket)
  | .ethernet => constructEthernet packet
  | .arp => constructArp packet
  | .ipv4 => constructIpv4 packet
  | .icmp => constructIcmp packet
  | .udp => constructUdp packet
  | _ => panic

end MeowOs.Net
