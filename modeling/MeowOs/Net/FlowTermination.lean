import MeowOs.Net.Flow
import MeowOs.Net.LongestPrefix

/-! # The end of the flow

Every round of `process_packet_flow` replaces the packet it takes from the queue
by packets that need fewer rounds together.  The loop therefore comes to its end
within `PacketInRouting.rounds` rounds, unless it comes to a round that does not
return: one that panics, or one that pushes to a queue that has counted as many
packets as it may hold.
-/

namespace MeowOs.Net

open MeowOs.Collections MeowOs.Machine Prog

/-! ## Rounds -/

/-- How many layers the parsers can still find above. -/
def NetLayerType.height : NetLayerType → Nat
  | .ethernet => 2
  | .ipv4 => 1
  | _ => 0

/-- A bound on the rounds that the loop takes for a packet, those for the packets made from it included. -/
def PacketInRouting.rounds (packet : PacketInRouting) : Nat :=
  let pending := packet.data.layersToConstruct.length
  match packet.routingStep, packet.layer with
  | .incoming, layer => (layer.height + 1) * (pending + 6)
  | .bridge, _ => pending + 5
  | .outgoing, .ethernet => 1
  | .outgoing, .icmp => pending + 3
  | .outgoing, _ => pending + 2

theorem PacketInRouting.rounds_outgoing (packet : NetPacket) (layer : NetLayerType) :
    rounds ⟨packet, .outgoing, layer⟩ ≤ packet.layersToConstruct.length + 3 := by
  cases layer <;> simp [rounds]

theorem PacketInRouting.rounds_le (packet : PacketInRouting) :
    packet.rounds ≤ 3 * (packet.data.layersToConstruct.length + 6) := by
  obtain ⟨data, step, layer⟩ := packet
  cases step <;> cases layer <;> simp [rounds, NetLayerType.height] <;> omega

theorem PacketInRouting.rounds_pos (packet : PacketInRouting) : 0 < packet.rounds := by
  unfold rounds
  split <;> simp

/-- A hook leaves the pending layers alone, and the parsed ones while the packet comes in. -/
structure LayersKept (stage : HookStage) (packet next : NetPacket) : Prop where
  pending : next.layersToConstruct = packet.layersToConstruct
  parsed : ∀ layer, stage = .inbound layer → next.parsedLayers = packet.parsedLayers

def KeepLayers (registered : HookStage → List NetHookFunction) : Prop :=
  ∀ stage, ∀ hook ∈ registered stage, ∀ packet, Yields (hook packet) fun r => LayersKept stage packet r.2

theorem initHooks_keep : KeepLayers initHooks := by
  intro stage hook member packet
  unfold initHooks at member
  split at member
  all_goals simp only [List.mem_singleton, List.not_mem_nil] at member
  all_goals subst member
  · unfold processArp
    repeat' first
      | exact yields_pure ⟨rfl, nofun⟩
      | refine yields_bind fun _ => ?_
      | split
      | dsimp only
  · unfold ethernetBridgeHook
    repeat' first
      | exact yields_pure ⟨rfl, nofun⟩
      | refine yields_bind fun _ => ?_
      | split
  · unfold ipv4BridgeHook
    repeat' first
      | exact yields_pure ⟨rfl, nofun⟩
      | refine yields_bind fun _ => ?_
      | split
  · unfold icmpInHook
    repeat' first
      | exact yields_pure ⟨rfl, fun _ _ => rfl⟩
      | refine yields_bind fun _ => ?_
      | split
  · exact yields_pure ⟨rfl, nofun⟩

variable {registered : HookStage → List NetHookFunction} {packet : NetPacket} {offset : Nat}

section Keep

variable (keep : KeepLayers registered)
include keep

theorem runHooks_keep {stage : HookStage} {hooks : List NetHookFunction} (all : hooks ⊆ registered stage)
    (packet : NetPacket) (result : HookResult) :
    Yields (runHooks hooks packet result) fun r => LayersKept stage packet r.2 := by
  induction hooks generalizing packet result with
  | nil => exact yields_pure ⟨rfl, fun _ _ => rfl⟩
  | cons hook rest ih =>
    refine .bind (keep stage hook (all (.head _)) packet) ?_
    rintro ⟨res, next⟩ kept
    have others : ∀ result, Yields (runHooks rest next result) fun r => LayersKept stage packet r.2 :=
      fun result s r s' run =>
        have still := ih (fun _ member => all (.tail _ member)) next result s r s' run
        ⟨still.pending.trans kept.pending, fun layer here => (still.parsed layer here).trans (kept.parsed layer here)⟩
    cases res with
    | nothing => exact others _
    | layerModified => exact others _
    | drop => exact yields_pure kept

theorem callHooks_keep (packet : NetPacket) (stage : HookStage) :
    Yields (callHooks registered packet stage) fun r => LayersKept stage packet r.2 := by
  refine .bind (runHooks_keep keep (fun _ => id) packet .nothing) ?_
  rintro ⟨res, next⟩ kept
  cases res with
  | nothing =>
    cases stage with
    | inbound => exact yields_bind fun _ => yields_pure kept
    | _ => exact yields_pure kept
  | layerModified => exact yields_panic
  | drop => exact yields_pure kept

end Keep

def SamePending {α : Type} (packet : NetPacket) (r : α × NetPacket) : Prop :=
  r.2.layersToConstruct = packet.layersToConstruct

theorem yields_ensureLength {α : Type} {n : Nat} {g : NetPacket → Option (α × NetPacket)}
    (rest : ∀ next, Yields (ofOption (g next) : Prog NetState _) (SamePending next)) :
    Yields (ofOption (packet.ensureLength n >>= g) : Prog NetState _) (SamePending packet) := by
  refine yields_ofOption_bind fun next run => ?_
  have same : next.layersToConstruct = packet.layersToConstruct := by
    unfold NetPacket.ensureLength NetPacket.linearize at run
    grind
  exact fun s r s' run => (rest next s r s' run).trans same

theorem parsers_keep (tables : RoutingTables) (packet : NetPacket) (offset : Nat) :
    Yields (ofOption (parseEthernetFrame packet) : Prog NetState _) (SamePending packet) ∧
    Yields (ofOption (parseArp packet offset) : Prog NetState _) (SamePending packet) ∧
    Yields (ofOption (parseIpv4Packet tables packet offset) : Prog NetState _) (SamePending packet) ∧
    Yields (ofOption (parseIcmp packet offset) : Prog NetState _) (SamePending packet) ∧
    Yields (ofOption (parseUdp packet offset) : Prog NetState _) (SamePending packet) := by
  unfold parseEthernetFrame parseArp parseIpv4Packet parseIcmp parseUdp
  refine ⟨?_, ?_, ?_, ?_, ?_⟩
  all_goals repeat' first
    | exact yields_pure rfl
    | refine yields_ensureLength fun _ => ?_
    | refine yields_ofOption_bind fun _ _ => ?_
    | exact yields_panic
    | split
    | dsimp only

def Climbs (layerType : NetLayerType) (parsed : NetLayerData) : Prop :=
  ∀ tables upper offset, parsed.incomingFlowDirection tables = some (.layerUp upper offset) ∨
    parsed.incomingFlowDirection tables = some (.both upper offset) → upper.height < layerType.height

theorem ethernet_climbs (header : EthernetHeader) : Climbs .ethernet (.ethernet header) := by
  intro tables upper offset
  simp only [NetLayerData.incomingFlowDirection, EthernetHeader.upperLayerType]
  grind [NetLayerType.height]

theorem ipv4_climbs (header : Ipv4Header) : Climbs .ipv4 (.ipv4 header) := by
  intro tables upper offset
  simp only [NetLayerData.incomingFlowDirection, Ipv4Header.upperLayerType]
  grind [NetLayerType.height]

theorem arp_climbs (header : ArpHeader) : Climbs .arp (.arp header) := by
  simp [Climbs, NetLayerData.incomingFlowDirection]

theorem icmp_climbs (header : IcmpHeader) : Climbs .icmp (.icmp header) := by
  simp [Climbs, NetLayerData.incomingFlowDirection]

theorem udp_climbs (header : UdpHeader) : Climbs .udp (.udp header) := by
  simp [Climbs, NetLayerData.incomingFlowDirection]

theorem climbs_map {α : Type} {layerType : NetLayerType} {layer : α → NetLayerData} {header : Option α}
    (climbs : ∀ h, Climbs layerType (layer h)) (parsed : NetLayerData) (found : header.map layer = some parsed) :
    Climbs layerType parsed := by
  obtain ⟨h, -, rfl⟩ := Option.map_eq_some_iff.mp found
  exact climbs h

theorem parseLayer_spec (packet : NetPacket) (layerType : NetLayerType) (offset : Nat) :
    Yields (parseLayer packet layerType offset) fun r =>
      SamePending packet r ∧ ∀ parsed, r.1 = some parsed → Climbs layerType parsed := by
  refine yields_bind fun tables => ?_
  obtain ⟨ethernet, arp, ipv4, icmp, udp⟩ := parsers_keep tables packet offset
  cases layerType with
  | ethernet =>
    refine ethernet.bind fun ⟨header, next⟩ same => ?_
    have climbs : ∀ parsed, header.map .ethernet = some parsed → Climbs .ethernet parsed := climbs_map ethernet_climbs
    dsimp only
    split
    · exact yields_bind fun _ => yields_pure ⟨same, climbs⟩
    · exact yields_pure ⟨same, climbs⟩
  | ipv4 => exact ipv4.bind fun _ same => yields_pure ⟨same, climbs_map ipv4_climbs⟩
  | arp => exact arp.bind fun _ same => yields_pure ⟨same, climbs_map arp_climbs⟩
  | icmp => exact icmp.bind fun _ same => yields_pure ⟨same, climbs_map icmp_climbs⟩
  | udp => exact udp.bind fun _ same => yields_pure ⟨same, climbs_map udp_climbs⟩
  | _ => exact yields_pure ⟨rfl, by simp [Climbs, NetLayerData.incomingFlowDirection]⟩

variable {layer : NetLayerType}

theorem processInboundPacket_spec (keep : KeepLayers registered) :
    Yields (processInboundPacket registered packet layer offset) fun r => SamePending packet r ∧
      ∀ upper offset, r.1 = .layerUp upper offset ∨ r.1 = .both upper offset → upper.height < layer.height := by
  unfold processInboundPacket
  split
  · exact yields_pure ⟨rfl, by simp⟩
  refine (parseLayer_spec packet layer offset).bind fun ⟨parsed, next⟩ ⟨same, climbs⟩ => ?_
  cases parsed with
  | none =>
    exact (callHooks_keep keep next _).bind fun _ kept => yields_pure ⟨kept.pending.trans same, by simp⟩
  | some parsed =>
    refine yields_bind fun isKnown => (callHooks_keep keep _ _).bind fun ⟨goesOn, last⟩ kept => ?_
    have pending := kept.pending.trans same
    dsimp only
    split
    · exact yields_pure ⟨pending, by simp⟩
    -- the layer on top is still the parsed one
    have top := kept.parsed layer rfl
    refine yields_ofOption.bind fun highest isHighest => yields_ofOption.bind fun found isFound => yields_bind fun tables =>
      yields_ofOption.bind fun direction directed => yields_pure ⟨pending, ?_⟩
    have same : found = parsed := by
      subst isFound
      unfold NetPacket.getHighestLayer at isHighest
      dsimp only at top isHighest
      rw [top, List.getLast?_concat] at isHighest
      dsimp only at isHighest
      grind
    subst same
    intro upper offset up
    refine climbs _ rfl tables upper offset ?_
    grind

def Descends (packet : NetPacket) (layer : NetLayerType) (r : OutgoingFlowDirection × NetPacket) : Prop :=
  ∀ lower, r.1 = .layerDown (.normal lower) →
    PacketInRouting.rounds ⟨r.2, .outgoing, lower⟩ < PacketInRouting.rounds ⟨packet, .outgoing, layer⟩

theorem yields_insertChunkFront {α : Type} {data : List UInt8} {P : α → Prop} {f : NetPacket → Prog NetState α}
    (rest : ∀ next, next.layersToConstruct = packet.layersToConstruct → Yields (f next) P) :
    Yields (ofOption (packet.insertChunkFront data) >>= f) P := by
  refine yields_ofOption.bind fun next run => rest next ?_
  unfold NetPacket.insertChunkFront at run
  grind

theorem lowerOfIpv4_normal {tables : RoutingTables} {data : Ipv4FlowId} {layers pushed : List NetLayerFlowId}
    {lower : NetLayerType} (run : lowerOfIpv4 tables data layers = .ok (pushed, .normal lower)) :
    lower = .ethernet ∨ lower = .ipv4 ∧ pushed = [] := by
  unfold lowerOfIpv4 routeIpv4 at run
  repeat' split at run
  all_goals cases run
  all_goals simp

theorem pending_pos {flow : NetLayerFlowId} (found : packet.layersToConstruct.getLast? = some flow) :
    0 < packet.layersToConstruct.length :=
  List.length_pos_of_ne_nil (List.getLast?_isSome.mp (found ▸ rfl))

theorem constructEthernet_spec : Yields (constructEthernet packet) (Descends packet .ethernet) := by
  unfold constructEthernet
  repeat' first
    | exact yields_pure nofun
    | refine yields_bind fun _ => ?_
    | split

theorem constructArp_spec : Yields (constructArp packet) (Descends packet .arp) := by
  unfold constructArp
  split
  · refine yields_bind fun _ => yields_insertChunkFront fun next _ => yields_pure ?_
    rintro _ ⟨⟩
    simp [PacketInRouting.rounds]
  · exact yields_pure nofun

theorem constructIcmp_spec : Yields (constructIcmp packet) (Descends packet .icmp) := by
  unfold constructIcmp
  split
  next data found =>
    refine yields_bind fun _ => yields_insertChunkFront fun next same => yields_pure ?_
    rintro _ ⟨⟩
    have pos := pending_pos found
    simp [PacketInRouting.rounds, same]
    omega
  · exact yields_pure nofun

theorem constructUdp_spec : Yields (constructUdp packet) (Descends packet .udp) := by
  unfold constructUdp
  dsimp only
  split
  next data flow found _ =>
    have pos := pending_pos found
    refine yields_bind fun _ => ?_
    split
    · refine yields_bind fun _ => yields_insertChunkFront fun next same => yields_pure ?_
      rintro _ ⟨⟩
      simp [PacketInRouting.rounds, same]
      omega
    · exact yields_panic
    · exact yields_pure nofun
  · exact yields_pure nofun

theorem constructIpv4_spec : Yields (constructIpv4 packet) (Descends packet .ipv4) := by
  unfold constructIpv4
  split
  next data found =>
    have pos := pending_pos found
    refine yields_bind fun tables => ?_
    split
    next pushed down run =>
      refine yields_bind fun _ => yields_insertChunkFront fun next same => yields_pure ?_
      rintro lower ⟨⟩
      rcases lowerOfIpv4_normal run with rfl | ⟨rfl, rfl⟩
      · simp [PacketInRouting.rounds]
      · simp [PacketInRouting.rounds, same]
        omega
    all_goals repeat' first
      | exact yields_pure nofun
      | exact yields_panic
      | refine yields_bind fun _ => ?_
      | split
  · exact yields_pure nofun

theorem constructLayer_spec : Yields (constructLayer packet layer) (Descends packet layer) := by
  cases layer with
  | ethernet => exact constructEthernet_spec
  | arp => exact constructArp_spec
  | icmp => exact constructIcmp_spec
  | udp => exact constructUdp_spec
  | ipv4 => exact constructIpv4_spec
  | _ => exact yields_panic

theorem processBridge_spec (keep : KeepLayers registered) : Yields (processBridge registered packet layer) fun r =>
      r.2.layersToConstruct.length ≤ packet.layersToConstruct.length + 1 := by
  refine (callHooks_keep keep packet _).bind fun ⟨goesOn, next⟩ kept => ?_
  have same : next.layersToConstruct = packet.layersToConstruct := kept.pending
  dsimp only
  split
  · refine yields_ofOption.bind fun out set => yields_bind fun _ => yields_bind fun _ => yields_bind fun _ =>
      yields_ofOption.bind fun last cut => yields_pure ?_
    have added : out.layersToConstruct.length ≤ next.layersToConstruct.length + 1 := by
      unfold NetPacket.bridgeToOutSetLayers at set
      split at set
      · cases set
        omega
      · obtain ⟨pushed, one, set⟩ := Option.bind_eq_some_iff.mp set
        cases set
        have : pushed.length ≤ 1 := by
          unfold NetLayerData.bridgeToOutSetLayers at one
          grind
        simp only [List.length_append]
        omega
    have cut : last.layersToConstruct = out.layersToConstruct := by
      unfold NetPacket.nukeLowerLayers at cut
      grind
    rw [← same]
    exact cut ▸ added
  · refine yields_pure ?_
    rw [← same]
    exact Nat.le_succ _

theorem flowStep_rounds (keep : KeepLayers registered) (offset : Nat) (packet : PacketInRouting) :
    Yields (flowStep registered offset packet) fun pushed => (pushed.map fun e => e.2.rounds).sum < packet.rounds := by
  obtain ⟨data, routingStep, layer⟩ := packet
  unfold flowStep
  cases routingStep with
  | incoming =>
    refine (processInboundPacket_spec keep).bind fun ⟨direction, next⟩ ⟨same, climbs⟩ => ?_
    have pending : next.layersToConstruct = data.layersToConstruct := same
    cases direction with
    | layerUp upper offset =>
      have lower := climbs upper offset (.inl rfl)
      refine yields_pure ?_
      simp [PacketInRouting.rounds, pending]
      nlinarith
    | bridge =>
      refine yields_pure ?_
      simp [PacketInRouting.rounds, pending]
      nlinarith
    | both upper offset =>
      have lower := climbs upper offset (.inr rfl)
      refine yields_pure ?_
      simp [PacketInRouting.rounds, pending]
      nlinarith
    | drop =>
      refine yields_pure ?_
      simp [PacketInRouting.rounds]
  | bridge =>
    refine (processBridge_spec keep).bind fun ⟨goesOn, next⟩ few => yields_pure ?_
    have bound := PacketInRouting.rounds_outgoing next layer
    have own : PacketInRouting.rounds ⟨data, .bridge, layer⟩ = data.layersToConstruct.length + 5 := rfl
    dsimp only at few ⊢
    split
    · simp only [List.map_cons, List.map_nil, List.sum_cons, List.sum_nil]
      omega
    · exact PacketInRouting.rounds_pos _
  | outgoing =>
    refine .bind (Q := Descends data layer) ?_ fun ⟨direction, next⟩ descends => ?_
    · refine (callHooks_keep keep data _).bind fun ⟨goesOn, out⟩ kept => ?_
      have same : PacketInRouting.rounds ⟨out, .outgoing, layer⟩ = PacketInRouting.rounds ⟨data, .outgoing, layer⟩ := by
        simp [PacketInRouting.rounds, show out.layersToConstruct = _ from kept.pending]
      dsimp only
      split
      · unfold Descends
        rw [← same]
        exact constructLayer_spec
      · exact yields_pure nofun
    · match direction with
      | .layerDown (.normal lower) => exact yields_pure (by simpa using descends lower rfl)
      | .layerDown (.nic _) => exact yields_bind fun _ => yields_pure (PacketInRouting.rounds_pos _)
      | .drop => exact yields_pure (PacketInRouting.rounds_pos _)

def queueRounds (queue : List (Nat × PacketInRouting)) : Nat := (queue.map fun e => e.2.rounds).sum

/-- The loop comes to a round that does not return. -/
inductive FlowStuck (registered : HookStage → List NetHookFunction) : List (Nat × PacketInRouting) → NetState → Prop
  | now {offset packet queue net} (stuck : flowStep registered offset packet net = none) :
      FlowStuck registered ((offset, packet) :: queue) net
  | later {offset packet queue net pushed next} (ran : flowStep registered offset packet net = some (pushed, next))
      (stuck : FlowStuck registered (pushed.reverse ++ queue) next) : FlowStuck registered ((offset, packet) :: queue) net

theorem flowLoop_isSome_iff (keep : KeepLayers registered) {fuel : Nat} {queue : List (Nat × PacketInRouting)}
    {net : NetState} (enough : queueRounds queue < fuel) :
    (flowLoop registered fuel queue net).isSome = true ↔ ¬ FlowStuck registered queue net := by
  induction fuel generalizing queue net with
  | zero => omega
  | succ fuel ih =>
    match queue with
    | [] => exact iff_of_true rfl (by rintro ⟨⟩)
    | (offset, packet) :: queue =>
      rw [flowLoop]
      cases ran : flowStep registered offset packet net with
      | none => exact iff_of_false (by simp [ran]) (not_not_intro (.now ran))
      | some r =>
        obtain ⟨pushed, next⟩ := r
        have less := flowStep_rounds keep _ _ _ _ _ ran
        have small : queueRounds (pushed.reverse ++ queue) < fuel := by
          simp only [queueRounds, List.map_append, List.map_reverse, List.sum_append, List.sum_reverse, List.map_cons,
            List.sum_cons] at enough ⊢
          omega
        rw [bind_of_eq_some ran, ih small, not_iff_not]
        refine ⟨.later ran, fun stuck => ?_⟩
        cases stuck with
        | now stuck => cases ran.symm.trans stuck
        | later ran' stuck =>
          cases ran.symm.trans ran'
          exact stuck

def neighbourMac : MacAddress := ⟨[2, 0, 0, 0, 0, 6], rfl⟩

def listening (queue : DataQueueHead ProcessedPacket) : NetState where
  netInitialized := true
  tables := emptyTables.registerNic ownMac ⟨7, .ethernet⟩
  sockets := fun _ => [⟨1, [⟨.mac ownMac, .mac neighbourMac⟩], queue⟩]
  hashAddrSlice := fun _ => 0
  netQueue := .new 512
  sent := []

def ownFrame : List UInt8 := [2, 0, 0, 0, 0, 1] ++ [2, 0, 0, 0, 0, 6] ++ [8, 0] ++ List.replicate 46 0

/-- `get_first` leaves the count alone, so that a socket from which 1024 packets were read is full for ever. -/
def readQueue : DataQueueHead ProcessedPacket where
  nodes := []
  hasLast := false
  maxNodes := 1024
  currNodes := 1024
  last_of_empty _ := rfl
  counted := Nat.zero_le _
  overcounted filled := absurd rfl filled

end MeowOs.Net
