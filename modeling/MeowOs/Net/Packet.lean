import Mathlib

/-! # Packets

A packet is a list of chunks of bytes together with what has been parsed of it.
`none` stands for a panic: an index or slice out of range, an arithmetic
overflow, a failed `unwrap` or `expect`.  The page allocator behind the chunks
is taken to have pages left, so that a chunk is just its bytes.
-/

namespace MeowOs.Net

/-! ## Bytes -/

def slice (data : List UInt8) (lo hi : Nat) : Option (List UInt8) :=
  if lo ≤ hi ∧ hi ≤ data.length then some ((data.take hi).drop lo) else none

/-- `u16::from_be_bytes([data[i], data[i + 1]])`. -/
def u16At (data : List UInt8) (i : Nat) : Option Nat := do
  let high ← data[i]?
  let low ← data[i + 1]?
  pure (high.toNat * 256 + low.toNat)

def u16Bytes (n : Nat) : List UInt8 := [UInt8.ofNat (n / 256), UInt8.ofNat n]

/-- `u32::from_be_bytes`. -/
def beNat (bytes : List UInt8) : Nat := bytes.foldl (fun acc b => acc * 256 + b.toNat) 0

structure Bytes (n : Nat) where
  data : List UInt8
  size : data.length = n
  deriving DecidableEq

/-- `copy_from_slice` into a `[u8; n]`. -/
def Bytes.ofSlice (n : Nat) (data : List UInt8) : Option (Bytes n) :=
  if h : data.length = n then some ⟨data, h⟩ else none

/-! ## Addresses -/

abbrev MacAddress := Bytes 6

def MacAddress.isBroadcast (mac : MacAddress) : Bool := mac.data.all (· == 0xFF)

abbrev Ipv4Address := Bytes 4

structure Ipv4Network where
  address : Ipv4Address
  mask : Ipv4Address
  deriving DecidableEq

structure AddressPair (α : Type) where
  source : α
  target : α
  deriving DecidableEq

def AddressPair.reverse {α : Type} (pair : AddressPair α) : AddressPair α := ⟨pair.target, pair.source⟩

inductive NetAddress where
  | ipv4Network (network : Ipv4Network)
  | ipv4Address (address : Ipv4Address)
  | mac (address : MacAddress)
  | udpPort (port : Nat)
  deriving DecidableEq

inductive HardwareAddr where
  | ethernet (mac : MacAddress)
  deriving DecidableEq

inductive ProtocolAddr where
  | ipv4 (address : Ipv4Address)
  | ipv6 (address : Bytes 16)
  deriving DecidableEq

def NetAddress.intoHardware : NetAddress → Option HardwareAddr
  | .mac address => some (.ethernet address)
  | _ => none

def NetAddress.intoProtocol : NetAddress → Option ProtocolAddr
  | .ipv4Network network => some (.ipv4 network.address)
  | .ipv4Address address => some (.ipv4 address)
  | _ => none

/-! ## Layers -/

inductive NetLayerType where
  | unparsed | unknown | none | ethernet | ipv4 | icmp | ipv6 | arp | tcp | udp
  deriving DecidableEq

inductive RoutingStep where
  | incoming | bridge | outgoing
  deriving DecidableEq

structure EthernetHeader where
  offset : Nat
  crcOffset : Nat
  source : MacAddress
  destination : MacAddress
  upperType : Nat

structure EthernetFlowId where
  macAddr : AddressPair MacAddress
  etherType : Nat
  outInterface : Option MacAddress

structure ArpFlowId where
  operation : Nat
  protocol : AddressPair ProtocolAddr
  hardware : AddressPair HardwareAddr

structure ArpHeader where
  offset : Nat
  flowId : ArpFlowId
  size : Nat

structure Ipv4FragmentInfo where
  identification : Nat
  flags : Nat
  fragmentOffset : Nat

structure Ipv4Header where
  offset : Nat
  ihl : Nat
  diffServices : Nat
  totalLength : Nat
  fragmentInfo : Ipv4FragmentInfo
  ttl : Nat
  protocol : Nat
  headerChecksum : Nat
  address : AddressPair Ipv4Address
  inInterfaceNetworks : List Ipv4Network

structure Ipv4FlowId where
  address : AddressPair Ipv4Address
  protocol : Nat
  diffServices : Nat
  ttl : Nat
  fragmentInfo : Ipv4FragmentInfo

structure IcmpHeader where
  offset : Nat
  icmpType : Nat
  code : Nat
  checksum : Nat
  data : Nat
  payload : List UInt8

structure IcmpFlowId where
  icmpType : Nat
  code : Nat
  address : AddressPair Ipv4Address
  data : Nat
  payload : List UInt8

structure UdpHeader where
  offset : Nat
  ports : AddressPair Nat
  length : Nat
  checksum : Nat

structure UdpFlowId where
  sourcePort : Nat
  destPort : Nat

inductive NetLayerData where
  | unparsed
  | unknown (offset : Nat)
  | none
  | ethernet (header : EthernetHeader)
  | ipv4 (header : Ipv4Header)
  | icmp (header : IcmpHeader)
  | ipv6
  | arp (header : ArpHeader)
  | tcp
  | udp (header : UdpHeader)

inductive NetLayerFlowId where
  | ethernet (flow : EthernetFlowId)
  | arp (flow : ArpFlowId)
  | ipv4 (flow : Ipv4FlowId)
  | icmp (flow : IcmpFlowId)
  | ipv6
  | tcp
  | udp (flow : UdpFlowId)

/-! ## Packets -/

inductive NetPacketSource (P : Type) where
  | nic (id : Nat)
  | proc (pid : Nat)
  | otherPacket (packet : P)
  | other

structure NetPacket where
  chunks : List (List UInt8)
  parsedLayers : List NetLayerData
  length : Nat
  source : NetPacketSource NetPacket
  /-- The last element is the layer that is constructed next. -/
  layersToConstruct : List NetLayerFlowId
  upperLayerSize : Option Nat
  addresses : List (AddressPair NetAddress)

namespace NetPacket

def bytes (packet : NetPacket) : List UInt8 := packet.chunks.flatten

/-- `NetPacket::new`, which adds the lengths up in a `u32`. -/
def new (data : List (List UInt8)) (source : NetPacketSource NetPacket) : Option NetPacket :=
  if data.flatten.length < 2 ^ 32 then
    some { chunks := data, parsedLayers := [], length := data.flatten.length, source := source,
           layersToConstruct := [], upperLayerSize := none, addresses := [] }
  else none

def appendAddress (packet : NetPacket) (addr : AddressPair NetAddress) : NetPacket :=
  { packet with addresses := packet.addresses ++ [addr] }

def linearize (packet : NetPacket) : Option NetPacket :=
  if packet.chunks.length ≤ 1 then some packet
  else if packet.bytes.length < 2 ^ 32 then some { packet with chunks := [packet.bytes] }
  else none

def ensureLength (packet : NetPacket) (len : Nat) : Option NetPacket := do
  let first ← packet.chunks[0]?
  if first.length < len then packet.linearize else pure packet

/-- The loop of `nuke_lower_layers`: the offset that is reached, and the chunks left over. -/
def skipChunks (offsetToKeep : Nat) : Nat → List (List UInt8) → Nat × List (List UInt8)
  | currOff, [] => (currOff, [])
  | currOff, chunk :: rest =>
    if currOff + chunk.length ≤ offsetToKeep then skipChunks offsetToKeep (currOff + chunk.length) rest
    else (currOff, chunk :: rest)

/-- The bytes of the first chunk are moved up, not down, before the chunk is cut. When no chunk is
left the length stays as it was. -/
def nukeLowerLayers (packet : NetPacket) (offsetToKeep : Nat) : Option NetPacket :=
  match skipChunks offsetToKeep 0 packet.chunks with
  | (_, []) => some { packet with chunks := [] }
  | (currOff, first :: rest) =>
    let toShift := offsetToKeep - currOff
    let moved := first.take toShift ++ first.take (first.length - toShift)
    if currOff + toShift ≤ packet.length then
      some { packet with
        chunks := moved.take (first.length - toShift) :: rest
        length := packet.length - currOff - toShift }
    else none

/-- The loop of `truncate` over the chunks from the last one on, with the bytes still to be deleted. -/
def cutChunks : Nat → List (List UInt8) → List (List UInt8)
  | 0, chunks => chunks
  | _, [] => []
  | left + 1, chunk :: rest =>
    if chunk.length ≤ left + 1 then cutChunks (left + 1 - chunk.length) rest
    else chunk.take (chunk.length - (left + 1)) :: rest

def truncate (packet : NetPacket) (newLen : Nat) : NetPacket :=
  if packet.length ≤ newLen then packet
  else { packet with
    chunks := (cutChunks (packet.length - newLen) packet.chunks.reverse).reverse
    length := newLen }

/-- `insert_chunk_front` and the bytes that are then written to the chunk. -/
def insertChunkFront (packet : NetPacket) (data : List UInt8) : Option NetPacket :=
  if packet.length + data.length < 2 ^ 32 then
    some { packet with chunks := data :: packet.chunks, length := packet.length + data.length }
  else none

/-! ## The bytes of a packet -/

def Counted (packet : NetPacket) : Prop := packet.length = packet.bytes.length

def Gives (result : Option NetPacket) (bytes : List UInt8) : Prop :=
  ∃ next, result = some next ∧ next.bytes = bytes ∧ next.Counted

/-- What the operations are to do to the bytes. -/
structure Lawful (packet : NetPacket) (n : Nat) : Prop where
  linearize : Gives packet.linearize packet.bytes ∧ ∀ next, packet.linearize = some next → next.chunks.length ≤ 1
  truncate : Gives (some (packet.truncate n)) (packet.bytes.take n)
  insert : ∀ data, data.length = n → Gives (packet.insertChunkFront data) (data ++ packet.bytes)
  nuke : n ≤ packet.length → Gives (packet.nukeLowerLayers n) (packet.bytes.drop n)

def ofChunks (chunks : List (List UInt8)) : NetPacket := ⟨chunks, [], chunks.flatten.length, .other, [], none, []⟩

variable {gone rest : List (List UInt8)} {first : List UInt8} {n : Nat}

theorem cutChunks_bytes (left : Nat) (chunks : List (List UInt8)) : (cutChunks left chunks).reverse.flatten =
    chunks.reverse.flatten.take (chunks.reverse.flatten.length - left) := by
  induction chunks generalizing left with
  | nil => cases left <;> simp [cutChunks]
  | cons chunk rest ih =>
    cases left with
    | zero => rw [cutChunks, Nat.sub_zero, List.take_length]
    | succ left =>
      unfold cutChunks
      split
      · rw [ih, List.reverse_cons, List.flatten_concat, List.length_append, List.take_append_of_le_length (by omega)]
        congr 1
        omega
      · rw [List.reverse_cons, List.flatten_concat, List.reverse_cons, List.flatten_concat, List.length_append,
          Nat.add_sub_assoc (by omega), List.take_length_add_append]

theorem skipChunks_append (off : Nat) (rest : List (List UInt8)) (before : off + gone.flatten.length ≤ n) :
    skipChunks n off (gone ++ rest) = skipChunks n (off + gone.flatten.length) rest := by
  induction gone generalizing off with
  | nil => rfl
  | cons chunk gone ih =>
    rw [List.flatten_cons, List.length_append] at before ⊢
    rw [List.cons_append, skipChunks, if_pos (by omega), ih _ (by omega), Nat.add_assoc]

theorem nukeLowerLayers_all {packet : NetPacket} (all : packet.bytes.length ≤ n) :
    packet.nukeLowerLayers n = some { packet with chunks := [] } := by
  have skipped := skipChunks_append 0 [] (Nat.zero_add packet.chunks.flatten.length ▸ all)
  rw [List.append_nil] at skipped
  rw [nukeLowerLayers, skipped]
  rfl

/-- The chunk in which the rest begins keeps its first bytes. -/
theorem nukeLowerLayers_eq (packet : NetPacket) (isChunks : packet.chunks = gone ++ first :: rest) {s : Nat}
    (inside : s < first.length) (le : gone.flatten.length + s ≤ packet.length) :
    ∃ next, packet.nukeLowerLayers (gone.flatten.length + s) = some next ∧
      next.length = packet.length - (gone.flatten.length + s) ∧
      next.bytes = (first.take s ++ first.take (first.length - s)).take (first.length - s) ++ rest.flatten := by
  have skipped := skipChunks_append 0 (first :: rest) (show 0 + gone.flatten.length ≤ gone.flatten.length + s by omega)
  rw [nukeLowerLayers, isChunks, skipped, skipChunks, if_neg (by omega), Nat.zero_add]
  simp only [Nat.add_sub_cancel_left]
  exact ⟨_, if_pos le, Nat.sub_sub .., List.flatten_cons⟩

theorem exists_chunk_at {lengths : List Nat} (inside : n < lengths.sum) :
    ∃ front length back, lengths = front ++ length :: back ∧ front.sum ≤ n ∧ n < front.sum + length := by
  induction lengths generalizing n with
  | nil => cases inside
  | cons length rest ih =>
    by_cases here : n < length
    · exact ⟨[], length, rest, rfl, Nat.zero_le n, by simpa using here⟩
    rw [List.sum_cons] at inside
    obtain ⟨front, other, back, rfl, low, high⟩ := ih (n := n - length) (by omega)
    exact ⟨length :: front, other, back, rfl, by rw [List.sum_cons]; omega, by rw [List.sum_cons]; omega⟩

/-- The laws hold for all packets with these chunks exactly if the length that `insert_chunk_front` computes fits, the
bytes to drop are not all there are, and they end where a chunk ends. -/
theorem lawful_iff (lengths : List Nat) (n : Nat) (small : lengths.sum < 2 ^ 32) :
    (∀ packet : NetPacket, packet.Counted → packet.chunks.map List.length = lengths → packet.Lawful n) ↔
      lengths.sum + n < 2 ^ 32 ∧ (n = lengths.sum → n = 0) ∧
        ∀ front length back, lengths = front ++ length :: back → front.sum < n → front.sum + length ≤ n := by
  constructor
  · intro lawful
    have shapes : ∀ lengths : List Nat, ∃ chunks : List (List UInt8), chunks.map List.length = lengths :=
      fun lengths => ⟨lengths.map (List.replicate · 0), by simp [Function.comp_def]⟩
    obtain ⟨chunks, rfl⟩ := shapes lengths
    have onChunks := lawful (ofChunks chunks) rfl rfl
    rw [← List.length_flatten] at *
    refine ⟨?_, ?_, ?_⟩
    · obtain ⟨next, run, -⟩ := onChunks.insert (List.replicate n 0) List.length_replicate
      have room := (Option.ite_none_right_eq_some.mp run).1
      rwa [List.length_replicate] at room
    · rintro rfl
      obtain ⟨next, run, -, counted⟩ := onChunks.nuke (Nat.le_refl _)
      cases (nukeLowerLayers_all (Nat.le_refl _)).symm.trans run
      exact counted
    · intro front length back isSplit before
      by_contra after
      -- the first byte that stays is a zero, where it should be a one
      obtain ⟨gone, rfl⟩ := shapes front
      obtain ⟨rest, rfl⟩ := shapes back
      rw [← List.length_flatten] at before after
      obtain ⟨s, rfl⟩ : ∃ s, n = gone.flatten.length + (s + 1) := ⟨n - gone.flatten.length - 1, by omega⟩
      obtain ⟨t, rfl⟩ : ∃ t, length = s + 1 + (t + 1) := ⟨length - s - 2, by omega⟩
      let packet := ofChunks (gone ++ (List.replicate (s + 1) 0 ++ List.replicate (t + 1) 1) :: rest)
      have le : gone.flatten.length + (s + 1) ≤ packet.length := by simp [packet, ofChunks]
      obtain ⟨next, run, isBytes, -⟩ := (lawful packet rfl (by simp [packet, ofChunks, isSplit])).nuke le
      obtain ⟨_, again, -, keeps⟩ := nukeLowerLayers_eq packet rfl (by simp) le
      cases run.symm.trans again
      have heads := congrArg List.head? (keeps.symm.trans isBytes)
      simp [packet, ofChunks, bytes, List.drop_append, List.replicate_succ] at heads
  · rintro ⟨room, notAll, uncut⟩ packet counted shape
    have total : packet.bytes.length = lengths.sum := by rw [← shape, bytes, List.length_flatten]
    have length : packet.length = lengths.sum := counted.trans total
    refine ⟨?_, ?_, fun data size => ?_, fun le => ?_⟩
    · unfold linearize
      split
      next short => exact ⟨⟨packet, rfl, rfl, counted⟩, by rintro _ ⟨⟩; exact short⟩
      · rw [if_pos (by omega)]
        have same : [packet.bytes].flatten = packet.bytes := List.flatten_singleton
        exact ⟨⟨_, rfl, same, counted.trans (congrArg List.length same).symm⟩, by rintro _ ⟨⟩; exact Nat.le_refl 1⟩
    · refine ⟨_, rfl, ?_⟩
      unfold truncate
      split
      next long => exact ⟨(List.take_of_length_le (by omega)).symm, counted⟩
      next short =>
        have cut : (cutChunks (packet.length - n) packet.chunks.reverse).reverse.flatten = packet.bytes.take n := by
          rw [cutChunks_bytes, List.reverse_reverse, ← bytes, ← counted, Nat.sub_sub_self (by omega)]
        refine ⟨cut, ?_⟩
        rw [Counted, bytes, cut, List.length_take, Nat.min_eq_left (by omega)]
    · refine ⟨_, if_pos (by omega), rfl, ?_⟩
      rw [Counted, bytes, List.flatten_cons, List.length_append, Nat.add_comm, ← bytes, ← counted]
    by_cases inside : n < lengths.sum
    · obtain ⟨front, size, back, isSplit, low, high⟩ := exists_chunk_at inside
      obtain rfl : front.sum = n := by
        have := uncut front size back isSplit
        omega
      obtain ⟨gone, others, isChunks, rfl, isRest⟩ := List.map_eq_append_iff.mp (shape.trans isSplit)
      obtain ⟨first, rest, rfl, rfl, -⟩ := List.map_eq_cons_iff.mp isRest
      rw [← List.length_flatten] at *
      obtain ⟨next, run, isLength, isBytes⟩ := nukeLowerLayers_eq (s := 0) packet isChunks (by omega) le
      have kept : next.bytes = packet.bytes.drop gone.flatten.length := by
        rw [isBytes, bytes, isChunks]
        simp
      exact ⟨next, run, kept, by rw [Counted, isLength, kept, List.length_drop, counted]; rfl⟩
    · obtain rfl := notAll (by omega)
      have empty : packet.bytes = [] := List.eq_nil_of_length_eq_zero (by omega)
      exact ⟨_, nukeLowerLayers_all (by omega), by rw [empty]; rfl, counted.trans (by rw [empty]; rfl)⟩

theorem lawful_iff_boundary : (ofChunks [[1, 2], [3]]).Lawful 2 := by
  refine (lawful_iff [2, 1] 2 (by decide)).mpr ⟨by decide, by decide, fun front length back isSplit before => ?_⟩ _ rfl rfl
  cases front <;> simp at isSplit before ⊢ <;> omega

/-- The first byte is to go, and is there twice. -/
theorem nuke_doubles_first : (ofChunks [[1, 2, 3]]).Counted ∧ ¬ (ofChunks [[1, 2, 3]]).Lawful 1 := by
  refine ⟨rfl, fun lawful => ?_⟩
  obtain ⟨next, run, bytes, -⟩ := lawful.nuke (by decide)
  cases run
  revert bytes
  decide

end NetPacket

structure PacketInRouting where
  data : NetPacket
  routingStep : RoutingStep
  layer : NetLayerType

structure ProcessedPacket where
  data : NetPacket
  userDataStart : Nat

/-! ## Checksums -/

/-- The `while` loop of `compute_internet_checksum`; three rounds are enough for a `u32`. -/
def foldCarries : Nat → Nat → Nat
  | 0, sum => sum
  | fuel + 1, sum => if sum / 65536 = 0 then sum else foldCarries fuel (sum % 65536 + sum / 65536)

/-- The sum of the 16-bit words of a header, which panics on a lonely last byte. -/
def wordSum : List UInt8 → Nat → Option Nat
  | [], sum => some sum
  | [_], _ => none
  | high :: low :: rest, sum => wordSum rest ((sum + (high.toNat * 256 + low.toNat)) % 2 ^ 32)

def computeInternetChecksum (header : List UInt8) : Option Nat :=
  (wordSum header 0).map fun sum => 65535 - foldCarries 3 sum % 65536

end MeowOs.Net
