import MeowOs.Net.RoutingTables

/-! # Longest-prefix routing

What a router is to do is said over a `Registry`, the networks and routes that
were registered, in no order.  The kernel's tables refine it as long as they
are sorted: the lookup takes the first match, and the order of the tables puts
long prefixes first.
-/

namespace MeowOs.Net

open MeowOs.Machine

/-! ## Orders -/

def Ipv4Network.key (network : Ipv4Network) : ℕᵒᵈ := OrderDual.toDual network.prefixLen

def Ipv4Route.key (route : Ipv4Route) : ℕᵒᵈ ×ₗ ℕ := toLex (route.network.key, route.priority)

theorem Ipv4Network.cmp_eq (network other : Ipv4Network) : network.cmp other = compare network.key other.key :=
  Nat.compare_swap network.prefixLen other.prefixLen

theorem Ipv4Route.cmp_eq (route other : Ipv4Route) : route.cmp other = compare route.key other.key := by
  have lexicographic : compare route.key other.key =
      (compare route.network.key other.network.key).then (compare route.priority other.priority) := rfl
  rw [lexicographic, ← Ipv4Network.cmp_eq]
  unfold Ipv4Route.cmp
  cases route.network.cmp other.network with
  | lt => rfl
  | eq => rfl
  | gt => rfl

theorem Ipv4Network.key_le {network other : Ipv4Network} : network.key ≤ other.key ↔ other.prefixLen ≤ network.prefixLen :=
  Iff.rfl

theorem Ipv4Route.key_le {route other : Ipv4Route} : route.key ≤ other.key ↔
    other.network.prefixLen < route.network.prefixLen ∨
      other.network.prefixLen = route.network.prefixLen ∧ route.priority ≤ other.priority := by
  refine Prod.Lex.toLex_le_toLex.trans (or_congr Iff.rfl (and_congr ?_ Iff.rfl))
  exact OrderDual.toDual_inj.trans eq_comm

structure Registry where
  networks : Ipv4Network → Prop
  routes : Ipv4Route → Prop

/-- `network` is the interface network with the longest prefix for an address. -/
structure Registry.BestNetwork (reg : Registry) (destination : Ipv4Address) (network : Ipv4Network) : Prop where
  registered : reg.networks network
  contains : network.contains destination = true
  longest : ∀ other, reg.networks other → other.contains destination = true → other.prefixLen ≤ network.prefixLen

/-- `route` is the indirect route with the longest prefix for an address, and with the lowest priority value among
those. -/
structure Registry.BestRoute (reg : Registry) (destination : Ipv4Address) (route : Ipv4Route) : Prop where
  registered : reg.routes route
  contains : route.network.contains destination = true
  longest : ∀ other, reg.routes other → other.network.contains destination = true →
    other.network.prefixLen < route.network.prefixLen ∨
      other.network.prefixLen = route.network.prefixLen ∧ route.priority ≤ other.priority

/-- The answer to a lookup is right: a direct delivery over the best network, else the best route, else none. -/
def Registry.RightAnswer (reg : Registry) (destination : Ipv4Address) (answer : Option Ipv4Route) : Prop :=
  (∃ network, reg.BestNetwork destination network ∧ answer = some ⟨network, destination, network.address, 0⟩) ∨
  (∀ network, reg.networks network → network.contains destination = false) ∧
    ((∃ route, reg.BestRoute destination route ∧ answer = some route) ∨
      (∀ route, reg.routes route → route.network.contains destination = false) ∧ answer = none)

structure RoutingTables.Refines (tables : RoutingTables) (reg : Registry) : Prop where
  networks : ∀ network, network ∈ tables.interfaceNetworks ↔ reg.networks network
  routes : ∀ route, route ∈ tables.routes ↔ reg.routes route
  networksSorted : SortedBy Ipv4Network.key tables.interfaceNetworks
  routesSorted : SortedBy Ipv4Route.key tables.routes

variable {tables : RoutingTables} {reg : Registry}

theorem RoutingTables.Refines.rightAnswer (refines : tables.Refines reg)
    (destination : Ipv4Address) : reg.RightAnswer destination (tables.getIpv4Route destination) := by
  unfold RoutingTables.getIpv4Route
  cases direct : tables.interfaceNetworks.find? fun network => network.contains destination with
  | some network =>
    refine .inl ⟨network, ⟨(refines.networks network).mp (List.mem_of_find?_eq_some direct), ?_, ?_⟩, rfl⟩
    · have passes := List.find?_some direct
      exact passes
    · intro other registered contains
      exact Ipv4Network.key_le.mp
        (refines.networksSorted.le_of_find? direct ((refines.networks other).mpr registered) contains)
  | none =>
    have noNetwork : ∀ network, reg.networks network → network.contains destination = false := fun network registered =>
      Bool.eq_false_iff.mpr (List.find?_eq_none.mp direct network ((refines.networks network).mpr registered))
    refine .inr ⟨noNetwork, ?_⟩
    cases indirect : tables.routes.find? fun route => route.network.contains destination with
    | some route =>
      refine .inl ⟨route, ⟨(refines.routes route).mp (List.mem_of_find?_eq_some indirect), ?_, ?_⟩, rfl⟩
      · have passes := List.find?_some indirect
        exact passes
      · intro other registered contains
        exact Ipv4Route.key_le.mp
          (refines.routesSorted.le_of_find? indirect ((refines.routes other).mpr registered) contains)
    | none =>
      exact .inr ⟨fun route registered =>
        Bool.eq_false_iff.mpr (List.find?_eq_none.mp indirect route ((refines.routes route).mpr registered)), rfl⟩

/-! ## Registering -/

inductive RouteCall where
  | registerNic (macAddr : MacAddress) (nic : Nic)
  | addIpv4Route (network : Ipv4Network)
  | addDefaultIpv4Route (route : Ipv4Route)

def RouteCall.run (tables : RoutingTables) : RouteCall → RoutingTables
  | .registerNic macAddr nic => tables.registerNic macAddr nic
  | .addIpv4Route network => tables.addIpv4Route network
  | .addDefaultIpv4Route route => tables.addDefaultIpv4Route route

def RouteCall.register (firstIpAdded : Bool) (reg : Registry) : RouteCall → Registry
  | .registerNic _ _ =>
    if firstIpAdded then reg
    else ⟨fun network => network = RoutingTables.interfaceNetwork ∨ reg.networks network,
      fun route => route = RoutingTables.defaultRoute ∨ reg.routes route⟩
  | .addIpv4Route network => { reg with networks := fun other => other = network ∨ reg.networks other }
  | .addDefaultIpv4Route route => { reg with routes := fun other => other = route ∨ reg.routes other }

/-- The first interface is registered while what it brings belongs at the end of the tables: no network has a prefix
shorter than 24, and no route for all addresses a priority value over 100. -/
def RouteCall.InOrder (tables : RoutingTables) : RouteCall → Prop
  | .registerNic _ _ => tables.firstIpAdded = false → (∀ network ∈ tables.interfaceNetworks, 24 ≤ network.prefixLen) ∧
      ∀ route ∈ tables.routes, route.network.prefixLen = 0 → route.priority ≤ 100
  | _ => True

theorem RouteCall.run_refines {call : RouteCall} (refines : tables.Refines reg)
    (inOrder : call.InOrder tables) : (call.run tables).Refines (call.register tables.firstIpAdded reg) := by
  cases call with
  | registerNic macAddr nic =>
    simp only [RouteCall.run, RouteCall.register, RoutingTables.registerNic]
    cases first : tables.firstIpAdded with
    | true =>
      exact ⟨refines.networks, refines.routes, refines.networksSorted, refines.routesSorted⟩
    | false =>
      obtain ⟨networksLast, routesLast⟩ := inOrder first
      simp only [Bool.false_eq_true, if_false]
      refine ⟨fun network => ?_, fun route => ?_, refines.networksSorted.append_singleton fun network member => ?_,
        refines.routesSorted.append_singleton fun route member => ?_⟩
      · simp only [List.mem_append, List.mem_singleton, refines.networks, or_comm]
      · simp only [List.mem_append, List.mem_singleton, refines.routes, or_comm]
      · rw [Ipv4Network.key_le, show RoutingTables.interfaceNetwork.prefixLen = 24 by decide]
        exact networksLast network member
      rw [Ipv4Route.key_le, show RoutingTables.defaultRoute.network.prefixLen = 0 by decide]
      by_cases all : route.network.prefixLen = 0
      · exact .inr ⟨all.symm, routesLast route member all⟩
      · exact .inl (Nat.pos_of_ne_zero all)
  | addIpv4Route network =>
    exact ⟨fun other => mem_insertSearched.trans (or_congr Iff.rfl (refines.networks other)), refines.routes,
      insertSearched_sorted Ipv4Network.cmp_eq refines.networksSorted network, refines.routesSorted⟩
  | addDefaultIpv4Route route =>
    exact ⟨refines.networks, fun other => mem_insertSearched.trans (or_congr Iff.rfl (refines.routes other)),
      refines.networksSorted, insertSearched_sorted Ipv4Route.cmp_eq refines.routesSorted route⟩

inductive RouteRun (P : RoutingTables → RouteCall → Prop) : RoutingTables → Registry → Prop where
  | start {tables : RoutingTables} : tables.interfaceNetworks = [] → tables.routes = [] → tables.firstIpAdded = false →
      RouteRun P tables ⟨fun _ => False, fun _ => False⟩
  | step {tables : RoutingTables} {reg : Registry} (call : RouteCall) :
      RouteRun P tables reg → P tables call → RouteRun P (call.run tables) (call.register tables.firstIpAdded reg)

theorem RouteRun.refines (run : RouteRun (fun tables call => call.InOrder tables) tables reg) : tables.Refines reg := by
  induction run with
  | start networks routes _ =>
    refine ⟨fun network => ?_, fun route => ?_, ?_, ?_⟩
    · simp [networks]
    · simp [routes]
    · rw [networks]
      exact List.Pairwise.nil
    · rw [routes]
      exact List.Pairwise.nil
  | step call _ inOrder ih => exact RouteCall.run_refines ih inOrder

/-- After calls that find the tables in order, every lookup gives the right answer. -/
theorem lookup_longest_prefix {tables : RoutingTables} {reg : Registry}
    (run : RouteRun (fun tables call => call.InOrder tables) tables reg) (destination : Ipv4Address) :
    reg.RightAnswer destination (tables.getIpv4Route destination) :=
  run.refines.rightAnswer destination

def emptyTables : RoutingTables := ⟨fun _ => none, [], fun _ => none, [], [], [], [], false⟩

def ownMac : MacAddress := ⟨[2, 0, 0, 0, 0, 1], rfl⟩

def nicCall : RouteCall := .registerNic ownMac ⟨1, .ethernet⟩

def wideNetwork : Ipv4Network := ⟨⟨[10, 0, 0, 0], rfl⟩, ⟨[255, 0, 0, 0], rfl⟩⟩

def neighbour : Ipv4Address := ⟨[10, 0, 0, 5], rfl⟩

theorem lookup_longest_prefix_two : ∃ tables reg, RouteRun (fun tables call => call.InOrder tables) tables reg ∧
    reg.networks wideNetwork ∧
    tables.getIpv4Route neighbour = some ⟨RoutingTables.interfaceNetwork, neighbour, RoutingTables.defaultIp, 0⟩ ∧
    reg.RightAnswer neighbour (tables.getIpv4Route neighbour) := by
  have start : RouteRun (fun tables call => call.InOrder tables) emptyTables ⟨fun _ => False, fun _ => False⟩ :=
    .start rfl rfl rfl
  have first : nicCall.InOrder emptyTables := by
    intro _
    exact ⟨nofun, nofun⟩
  have run := (start.step nicCall first).step (.addIpv4Route wideNetwork) trivial
  exact ⟨_, _, run, .inl rfl, by decide +kernel, lookup_longest_prefix run neighbour⟩

/-- The network of the first interface is put behind one with a shorter prefix, which then answers for it. -/
theorem short_prefix_wins : ∃ tables reg, RouteRun (fun _ _ => True) tables reg ∧
    ¬ reg.RightAnswer neighbour (tables.getIpv4Route neighbour) := by
  have start : RouteRun (fun _ _ => True) emptyTables ⟨fun _ => False, fun _ => False⟩ := .start rfl rfl rfl
  have run := (start.step (.addIpv4Route wideNetwork) trivial).step nicCall trivial
  refine ⟨_, _, run, fun right => ?_⟩
  obtain ⟨network, best, same⟩ | ⟨none, -⟩ := right
  · have shorter := best.longest RoutingTables.interfaceNetwork (.inl rfl) (by decide)
    rw [← (Ipv4Route.mk.inj (Option.some.inj same)).1] at shorter
    exact absurd shorter (by decide)
  · exact absurd (none RoutingTables.interfaceNetwork (.inl rfl)) (by decide)

end MeowOs.Net
