import MeowOs.Machine.BinarySearch
import MeowOs.Net.Packet

/-! # Routing tables

The kernel's tables of network interfaces, of the stations behind them, of
bridges and of IPv4 routes.  A `BTreeMap` is the function of its lookups.
-/

namespace MeowOs.Net

open MeowOs.Machine

inductive NicType where
  | ethernet | ipv4
  deriving DecidableEq

/-- A `dyn NIC`, as far as the kernel asks it. -/
structure Nic where
  identifier : Nat
  nicType : NicType
  deriving DecidableEq

/-! ## IPv4 networks -/

namespace Ipv4Network

def contains (network : Ipv4Network) (ip : Ipv4Address) : Bool :=
  beNat ip.data &&& beNat network.mask.data == beNat network.address.data &&& beNat network.mask.data

/-- `mask_u32.count_ones()`. -/
def prefixLen (network : Ipv4Network) : Nat :=
  (List.range 32).countP fun i => (beNat network.mask.data).testBit i

/-- `Ord for Ipv4Network`: long prefixes first. -/
def cmp (network other : Ipv4Network) : Ordering := (compare network.prefixLen other.prefixLen).swap

end Ipv4Network

structure Ipv4Route where
  network : Ipv4Network
  firstHopIp : Ipv4Address
  localInterfaceIp : Ipv4Address
  priority : Nat
  deriving DecidableEq

/-- `Ord for Ipv4Route`. -/
def Ipv4Route.cmp (route other : Ipv4Route) : Ordering :=
  if route.network.cmp other.network ≠ .eq then route.network.cmp other.network
  else compare route.priority other.priority

/-! ## Tables -/

structure ArpKey where
  foreignProtocol : ProtocolAddr
  selfHardware : HardwareAddr
  deriving DecidableEq

structure NicInfo where
  id : Nat
  addresses : List NetAddress
  nicType : NicType

structure RoutingTables where
  nicStorage : Nat → Option Nic
  foreignMacNic : List (Nat × MacAddress)
  foreignArpTable : ArpKey → Option HardwareAddr
  interfaceNetworks : List Ipv4Network
  routes : List Ipv4Route
  macBridgeDomains : List (List (MacAddress × Bool))
  nicInfo : List NicInfo
  firstIpAdded : Bool

namespace RoutingTables

def registerForeignMacAddress (tables : RoutingTables) (macAddr : MacAddress) (nicId : Nat) : RoutingTables :=
  if (tables.foreignMacNic.find? fun element => macAddr == element.2).any fun element => element.1 == nicId then tables
  else { tables with
    foreignMacNic := (tables.foreignMacNic.filter fun element => element.1 != nicId && element.2 != macAddr) ++
      [(nicId, macAddr)] }

def defaultIp : Ipv4Address := ⟨[10, 0, 0, 2], rfl⟩

def interfaceNetwork : Ipv4Network := ⟨defaultIp, ⟨[255, 255, 255, 0], rfl⟩⟩

def defaultRoute : Ipv4Route where
  network := ⟨⟨[0, 0, 0, 0], rfl⟩, ⟨[0, 0, 0, 0], rfl⟩⟩
  firstHopIp := ⟨[10, 0, 0, 1], rfl⟩
  localInterfaceIp := defaultIp
  priority := 100

/-- The first interface brings a network and a default route, which are put last. -/
def registerNic (tables : RoutingTables) (macAddr : MacAddress) (nic : Nic) : RoutingTables :=
  let others := (tables.nicInfo.map fun info =>
    { info with addresses := info.addresses.filter fun addr => addr != .mac macAddr }).filter fun info =>
      info.id != nic.identifier
  let nicStorage := Function.update tables.nicStorage nic.identifier (some nic)
  if tables.firstIpAdded then
    { tables with
      nicStorage := nicStorage
      nicInfo := others ++ [⟨nic.identifier, [.mac macAddr], nic.nicType⟩] }
  else
    { tables with
      nicStorage := nicStorage
      firstIpAdded := true
      interfaceNetworks := tables.interfaceNetworks ++ [interfaceNetwork]
      routes := tables.routes ++ [defaultRoute]
      nicInfo := others ++ [⟨nic.identifier, [.mac macAddr, .ipv4Network interfaceNetwork], nic.nicType⟩] }

def addIpv4Route (tables : RoutingTables) (network : Ipv4Network) : RoutingTables :=
  { tables with interfaceNetworks := insertSearched Ipv4Network.cmp tables.interfaceNetworks network }

def addDefaultIpv4Route (tables : RoutingTables) (route : Ipv4Route) : RoutingTables :=
  { tables with routes := insertSearched Ipv4Route.cmp tables.routes route }

def getIpv4Route (tables : RoutingTables) (destination : Ipv4Address) : Option Ipv4Route :=
  match tables.interfaceNetworks.find? fun network => network.contains destination with
  | some network => some ⟨network, destination, network.address, 0⟩
  | none => tables.routes.find? fun route => route.network.contains destination

/-! ## Lookups -/

/-- `get_route_mac_nic`, which forgets a station whose interface is gone. -/
def getRouteMacNic (tables : RoutingTables) (macAddr : MacAddress) : Option Nic × RoutingTables :=
  if macAddr.isBroadcast then (none, tables)
  else match tables.foreignMacNic.find? fun element => macAddr == element.2 with
    | none => (none, tables)
    | some element =>
      match tables.nicStorage element.1 with
      | some nic => (some nic, tables)
      | none =>
        (none, { tables with foreignMacNic := tables.foreignMacNic.filter fun element => element.2 != macAddr })

def isOwnMac (tables : RoutingTables) (macAddr : MacAddress) : Bool :=
  tables.nicInfo.any fun info => info.addresses.any (· == .mac macAddr)

def firstMac (addresses : List NetAddress) : Option MacAddress :=
  addresses.findSome? fun addr => match addr with
    | .mac address => some address
    | _ => none

def getMacOfOwnNic (tables : RoutingTables) (nicId : Nat) : Option MacAddress :=
  tables.nicInfo.findSome? fun info => if info.id = nicId then firstMac info.addresses else none

def getNicOfOwnAddress (tables : RoutingTables) (netAddr : NetAddress) : Option Nic :=
  tables.nicInfo.findSome? fun info =>
    if info.addresses.any (· == netAddr) then tables.nicStorage info.id else none

def getNicInfoFromOwnAddr (tables : RoutingTables) (netAddr : NetAddress) : List NicInfo :=
  tables.nicInfo.filter fun info => info.addresses.any (· == netAddr)

def getNicAddressesFromId (tables : RoutingTables) (nicId : Nat) : Option (List NetAddress) :=
  (tables.nicInfo.find? fun info => info.id == nicId).map fun info => info.addresses

def updateArpEntry (tables : RoutingTables) (foreignHardware selfHardware : HardwareAddr) (protocolAddr : ProtocolAddr) :
    RoutingTables :=
  { tables with foreignArpTable :=
      Function.update tables.foreignArpTable ⟨protocolAddr, selfHardware⟩ (some foreignHardware) }

def getArpEntry (tables : RoutingTables) (protocolAddr : ProtocolAddr) (selfHardware : HardwareAddr) :
    Option HardwareAddr :=
  tables.foreignArpTable ⟨protocolAddr, selfHardware⟩

def getOwnIpv4Mac (tables : RoutingTables) (ownIpv4 : Ipv4Address) : Option MacAddress :=
  tables.nicInfo.findSome? fun info =>
    if info.addresses.any fun addr => addr.intoProtocol == some (.ipv4 ownIpv4) then firstMac info.addresses else none

def getMacBridges (tables : RoutingTables) (macAddr : MacAddress) : List MacAddress :=
  tables.macBridgeDomains.flatMap fun interfaces =>
    if interfaces.any fun m => m.1 == macAddr then
      (interfaces.filter fun m => m.1 != macAddr && m.2).map Prod.fst
    else []

end RoutingTables

end MeowOs.Net
