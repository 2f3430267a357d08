import MeowOs.Net.Flow
import MeowOs.Net.LongestPrefix

/-! # IPv4 on the way out

What `construct_layer` makes of an IPv4 flow: the header in front of the packet,
and the layer below.
-/

namespace MeowOs.Net

open MeowOs.Machine Prog

/-! ## Headers -/

theorem wordSum_isSome {header : List UInt8} {k : Nat} (even : header.length = 2 * k) (sum : Nat) :
    ∃ res, wordSum header sum = some res := by
  induction k generalizing header sum with
  | zero =>
    obtain rfl := List.length_eq_zero_iff.mp even
    exact ⟨sum, rfl⟩
  | succ k ih =>
    match header, even with
    | high :: low :: rest, even =>
      simp only [List.length_cons] at even
      exact ih (show rest.length = 2 * k by omega) _

theorem computeInternetChecksum_isSome {header : List UInt8} {k : Nat} (even : header.length = 2 * k) :
    ∃ sum, computeInternetChecksum header = some sum := by
  obtain ⟨res, sum⟩ := wordSum_isSome even 0
  exact ⟨_, by rw [computeInternetChecksum, sum, Option.map_some]⟩

def Ipv4FlowId.header (data : Ipv4FlowId) (n : Nat) : List UInt8 :=
  data.bytes n (u16Bytes ((computeInternetChecksum (data.bytes n [0, 0])).getD 0))

theorem Ipv4FlowId.length_bytes (data : Ipv4FlowId) (n : Nat) {checksum : List UInt8} (two : checksum.length = 2) :
    (data.bytes n checksum).length = 20 := by
  simp [Ipv4FlowId.bytes, u16Bytes, two, data.address.source.size, data.address.target.size]

def NetPacket.withIpv4 (packet : NetPacket) (data : Ipv4FlowId) (layers : List NetLayerFlowId) : NetPacket :=
  { packet with
    chunks := data.header packet.length :: packet.chunks
    length := packet.length + 20
    layersToConstruct := layers }

section Construct

variable {net : NetState} {packet : NetPacket} {data : Ipv4FlowId} {below pushed : List NetLayerFlowId} {down : LayerDownType}

theorem constructIpv4_ok (layers : packet.layersToConstruct = below ++ [.ipv4 data])
    (lower : lowerOfIpv4 net.tables data below = .ok (pushed, down)) : constructIpv4 packet net =
      if packet.length + 20 < 2 ^ 32 then some ((.layerDown down, packet.withIpv4 data (below ++ pushed)), net)
      else none := by
  obtain ⟨checksum, sum⟩ := computeInternetChecksum_isSome (k := 10)
    (data.length_bytes packet.length (show ([0, 0] : List UInt8).length = 2 from rfl))
  have size := data.length_bytes packet.length (rfl : (u16Bytes checksum).length = 2)
  unfold constructIpv4
  simp only [layers, List.getLast?_append, List.getLast?_singleton, Option.some_or, List.dropLast_concat]
  rw [bind_of_eq_some (show NetState.getTables net = some (net.tables, net) from rfl), lower]
  dsimp only
  rw [sum, bind_of_eq_some (ofOption_eq_some.mpr ⟨rfl, rfl⟩), NetPacket.insertChunkFront, size]
  split
  · simp [Prog.ofOption, bind_run, pure_run, NetPacket.withIpv4, Ipv4FlowId.header, sum]
  · rfl

/-- No ICMP error is ever sent: the IPv4 layer of the packet is never found. -/
theorem sendIcmpError_eq (packet : NetPacket) (icmpType code word : Nat) :
    sendIcmpError packet icmpType code word = pure () := by
  have missing : packet.parsedLayers.reverse.findSome? downcastIpv4Header = none :=
    List.findSome?_eq_none_iff.mpr fun _ _ => rfl
  unfold sendIcmpError
  rw [missing]

theorem constructIpv4_error {e : Ipv4Error} (layers : packet.layersToConstruct = below ++ [.ipv4 data])
    (lower : lowerOfIpv4 net.tables data below = .error e) : constructIpv4 packet net = match e, packet.source with
      | .otherFatal, _ => none
      | .networkUnreachable, .nic _ | .networkUnreachable, .proc _ | .hostUnreachable, .nic _ | .hostUnreachable, .proc _ =>
        none
      | _, _ => some ((.drop, { packet with layersToConstruct := below }), net) := by
  unfold constructIpv4
  simp only [layers, List.getLast?_append, List.getLast?_singleton, Option.some_or, List.dropLast_concat, sendIcmpError_eq]
  rw [bind_of_eq_some (show NetState.getTables net = some (net.tables, net) from rfl)]
  simp only [lower]
  cases e <;> cases packet.source <;> rfl

/-! ## The first hop -/

theorem routeIpv4_ethernet {route : Ipv4Route} (routed : net.tables.getIpv4Route data.address.target = some route)
    {own remote : MacAddress} :
    routeIpv4 net.tables data = .ok ([.ethernet ⟨⟨own, remote⟩, 0x0800, none⟩], .normal .ethernet) ↔
      net.tables.getOwnIpv4Mac route.network.address = some own ∧
        net.tables.getArpEntry (.ipv4 route.firstHopIp) (.ethernet own) = some (.ethernet remote) ∧
        ∃ info, (net.tables.getNicInfoFromOwnAddr (.mac own)).head? = some info ∧ info.nicType = .ethernet := by
  unfold routeIpv4
  rw [routed]
  dsimp only
  cases mine : net.tables.getOwnIpv4Mac route.network.address with
  | none => simp
  | some mac =>
    dsimp only
    constructor
    · intro found
      split at found
      next => cases found
      next hop =>
      split at found
      next => cases found
      next info first =>
      split at found
      next type =>
        cases found
        exact ⟨rfl, hop, info, first, type⟩
      · split at found
        next => cases found
        next => cases found
    · rintro ⟨same, hop, info, first, type⟩
      cases same
      rw [hop]
      rw [first]
      dsimp only
      rw [type]

/-- A packet with a route whose first hop is known goes to the Ethernet layer, from the interface with the route's local
address to the first hop, exactly if that interface is the one found for the network address of the route, and is an
Ethernet interface, and the packet is not too long. -/
theorem outgoing_takes_route_iff (net : NetState) (packet : NetPacket) (data : Ipv4FlowId) (route : Ipv4Route)
    (own remote : MacAddress) (layers : packet.layersToConstruct = [.ipv4 data])
    (routed : net.tables.getIpv4Route data.address.target = some route)
    (_owned : net.tables.getOwnIpv4Mac route.localInterfaceIp = some own)
    (hop : net.tables.getArpEntry (.ipv4 route.firstHopIp) (.ethernet own) = some (.ethernet remote)) :
    (∃ out, constructIpv4 packet net = some ((.layerDown (.normal .ethernet), out), net) ∧
        out.layersToConstruct = [.ethernet ⟨⟨own, remote⟩, 0x0800, none⟩]) ↔
      net.tables.getOwnIpv4Mac route.network.address = some own ∧
        (∃ info, (net.tables.getNicInfoFromOwnAddr (.mac own)).head? = some info ∧ info.nicType = .ethernet) ∧
        packet.length + 20 < 2 ^ 32 := by
  constructor
  · rintro ⟨out, run, flow⟩
    cases lower : lowerOfIpv4 net.tables data [] with
    | error e =>
      rw [constructIpv4_error layers lower] at run
      split at run <;> cases run
    | ok found =>
      obtain ⟨pushed, down⟩ := found
      rw [constructIpv4_ok layers lower] at run
      split at run
      case isFalse => cases run
      case isTrue short =>
      cases run
      obtain rfl : pushed = _ := flow
      obtain ⟨mac, -, type⟩ := (routeIpv4_ethernet routed).mp lower
      exact ⟨mac, type, short⟩
  · rintro ⟨mac, type, short⟩
    have lower : lowerOfIpv4 net.tables data [] = _ := (routeIpv4_ethernet routed).mpr ⟨mac, hop, type⟩
    exact ⟨_, by rw [constructIpv4_ok layers lower, if_pos short], rfl⟩

end Construct

def oneNic : NetState where
  netInitialized := true
  tables := ((emptyTables.registerNic ownMac ⟨7, .ethernet⟩).updateArpEntry (.ethernet ⟨[2, 0, 0, 0, 0, 9], rfl⟩)
    (.ethernet ownMac) (.ipv4 RoutingTables.defaultRoute.firstHopIp)).updateArpEntry (.ethernet ⟨[2, 0, 0, 0, 0, 5], rfl⟩)
    (.ethernet ownMac) (.ipv4 neighbour)
  sockets := fun _ => []
  hashAddrSlice := fun _ => 0
  netQueue := .new 1
  sent := []

def eightBytesTo (target : Ipv4Address) : NetPacket where
  chunks := [[1, 2, 3, 4, 5, 6, 7, 8]]
  parsedLayers := []
  length := 8
  source := .other
  layersToConstruct := [.ipv4 ⟨⟨RoutingTables.defaultIp, target⟩, 17, 0, 64, ⟨0, 0, 0⟩⟩]
  upperLayerSize := none
  addresses := []

theorem outgoing_takes_route_iff_neighbour : ∃ out,
    constructIpv4 (eightBytesTo ⟨[10, 0, 0, 5], rfl⟩) oneNic = some ((.layerDown (.normal .ethernet), out), oneNic) ∧
      out.layersToConstruct = [.ethernet ⟨⟨ownMac, ⟨[2, 0, 0, 0, 0, 5], rfl⟩⟩, 0x0800, none⟩] :=
  (outgoing_takes_route_iff oneNic _ _ _ ownMac ⟨[2, 0, 0, 0, 0, 5], rfl⟩ rfl
    (show oneNic.tables.getIpv4Route ⟨[10, 0, 0, 5], rfl⟩ = some ⟨RoutingTables.interfaceNetwork, ⟨[10, 0, 0, 5], rfl⟩,
      RoutingTables.defaultIp, 0⟩ by decide) (by decide) (by decide)).mpr ⟨by decide, ⟨_, rfl, rfl⟩, by decide⟩

/-- A packet for the default route is a panic, although the gateway is known. -/
theorem default_route_panics : oneNic.tables.getIpv4Route ⟨[8, 8, 8, 8], rfl⟩ = some RoutingTables.defaultRoute ∧
      oneNic.tables.getOwnIpv4Mac RoutingTables.defaultRoute.localInterfaceIp = some ownMac ∧
      oneNic.tables.getArpEntry (.ipv4 RoutingTables.defaultRoute.firstHopIp) (.ethernet ownMac) =
        some (.ethernet ⟨[2, 0, 0, 0, 0, 9], rfl⟩) ∧ constructIpv4 (eightBytesTo ⟨[8, 8, 8, 8], rfl⟩) oneNic = none :=
  ⟨by decide, by decide, by decide, rfl⟩

/-! ## ICMP errors -/

/-- A received packet about which an ICMP error may be sent: its source has a route and is no broadcast or multicast
address, it is no ICMP error itself, and eight bytes follow its IPv4 header. -/
structure Answerable (net : NetState) (packet : NetPacket) (header : Ipv4Header) (route : Ipv4Route) : Prop where
  received : packet.getHighestLayer = some (some (.ipv4 header))
  notBroadcast : ∀ network ∈ header.inInterfaceNetworks, ¬ network.broadcastFor header.address.source
  notMulticast : ¬ header.address.source.isMulticast
  routable : net.tables.getIpv4Route header.address.source = some route
  notError : header.upperLayerType = .icmp →
    ∀ icmpType ∈ packet.bytes[header.upperLayerOffset]?, icmpType.toNat ∉ [3, 4, 5, 11, 12]
  long : header.upperLayerOffset + 8 ≤ packet.bytes.length

/-- The steps that drop a received packet: the type of the error that is then due, and the state after the step. -/
inductive Drops (net : NetState) (packet : NetPacket) (header : Ipv4Header) : Nat → Option NetState → Prop where
  | expired : header.ttl = 1 → Drops net packet header 11 ((ipv4BridgeHook packet net).map Prod.snd)
  | unreachable {out : NetPacket} {data : Ipv4FlowId} : out.source = .otherPacket packet →
      out.layersToConstruct = [.ipv4 data] → data.address = header.address →
      net.tables.getIpv4Route header.address.target = none →
      Drops net packet header 3 ((constructIpv4 out net).map Prod.snd)

def QueuesError (net : NetState) (packet : NetPacket) (header : Ipv4Header) (route : Ipv4Route) (icmpType : Nat)
    (after : Option NetState) : Prop :=
  ∃ next reply code, after = some next ∧ next.netQueue.nodes = net.netQueue.nodes ++ [⟨reply, .outgoing, .icmp⟩] ∧
    reply.layersToConstruct = [.icmp ⟨icmpType, code, ⟨route.localInterfaceIp, header.address.source⟩, 0,
      (packet.bytes.take (header.upperLayerOffset + 8)).drop header.offset⟩]

section Errors

variable {net : NetState} {packet : NetPacket} {header : Ipv4Header} {icmpType : Nat} {after : Option NetState}

theorem Drops.unchanged (drops : Drops net packet header icmpType after)
    (received : packet.getHighestLayer = some (some (.ipv4 header))) : after = some net := by
  cases drops with
  | expired last => simp [ipv4BridgeHook, received, last, sendIcmpError_eq, ofOption, bind_run, pure_run]
  | @unreachable _ data source layers address missing =>
    rw [← address] at missing
    have lower : lowerOfIpv4 net.tables data [] = .error .networkUnreachable := by
      simp [lowerOfIpv4, routeIpv4, missing]
    rw [constructIpv4_error layers lower, source]
    rfl

/-- An ICMP error is sent whenever one is due, exactly if none is due. -/
theorem icmp_errors_sent_iff (net : NetState) (packet : NetPacket) (header : Ipv4Header) (route : Ipv4Route) :
    (Answerable net packet header route → ∀ icmpType after, Drops net packet header icmpType after →
        QueuesError net packet header route icmpType after) ↔
      ¬ (Answerable net packet header route ∧ ∃ icmpType after, Drops net packet header icmpType after) := by
  constructor
  · rintro sent ⟨answerable, icmpType, after, drops⟩
    obtain ⟨next, reply, code, isNext, queued, -⟩ := sent answerable icmpType after drops
    obtain rfl := Option.some.inj ((drops.unchanged answerable.received).symm.trans isNext)
    simp at queued
  · intro none answerable icmpType after drops
    exact absurd ⟨answerable, icmpType, after, drops⟩ none

end Errors

def expiredHeader : Ipv4Header where
  offset := 14
  ihl := 5
  diffServices := 0
  totalLength := 28
  fragmentInfo := ⟨0, 0, 0⟩
  ttl := 1
  protocol := 17
  headerChecksum := 0
  address := ⟨neighbour, ⟨[8, 8, 8, 8], rfl⟩⟩
  inInterfaceNetworks := [RoutingTables.interfaceNetwork]

theorem expired_packet_unanswered : ∃ packet route, Answerable oneNic packet expiredHeader route ∧
    (ipv4BridgeHook packet oneNic).map (fun result => result.2.netQueue.nodes.length) = some 0 := by
  exact ⟨{ NetPacket.ofChunks [List.replicate 42 0] with parsedLayers := [.ipv4 expiredHeader] }, _,
    ⟨rfl, by decide, by decide, rfl, nofun, by decide⟩, rfl⟩

end MeowOs.Net
