import MeowOs.Memory.BuddyAllocator

/-! # The transmit ring of the e1000e driver

`send_packet` writes the descriptors of a packet behind the tail of a ring whose
slots from the head up to the tail belong to the hardware.  The number of free
slots it computes is too large by a whole ring when the tail has wrapped and the
head has not (`send_packet_safe_iff`).
-/

namespace MeowOs.Drivers.E1000e

open MeowOs.Machine MeowOs.Memory.PhysicalAllocator

def txDescCount : Nat := 256

structure RawNetDataChunk where
  buffer : PhysRange
  len : Nat
  deriving DecidableEq

structure TransmitDescriptor where
  buffer : PhysRange := ⟨0, 0⟩
  length : Nat := 0
  checksumOffset : Nat := 0
  insertFcs : Bool := false
  endOfPacket : Bool := false
  statusExtcmd : Nat := 0
  checksumStart : Nat := 0
  vlan : Nat := 0
  deriving DecidableEq

structure TransmitRing where
  queue : Nat → TransmitDescriptor
  tdh : Nat
  tdt : Nat

def RawNetDataChunk.descriptor (chunk : RawNetDataChunk) : TransmitDescriptor :=
  { buffer := chunk.buffer, length := chunk.len % 2 ^ 16, insertFcs := true }

/-- The descriptors of a packet, the last of which ends it. -/
def txDescriptors (rawChunks : List RawNetDataChunk) : List TransmitDescriptor :=
  (rawChunks.map (·.descriptor)).modify (rawChunks.length - 1) ({ · with endOfPacket := true })

namespace TransmitRing

def init (queue : Nat → TransmitDescriptor) : TransmitRing := ⟨queue, 0, 0⟩

def availableSlots (ring : TransmitRing) : Nat := ring.tdh + txDescCount - 1 - ring.tdt

def slot (ring : TransmitRing) (i : Nat) : Nat := (ring.tdt + i) % txDescCount

def sendPacket (ring : TransmitRing) (rawChunks : List RawNetDataChunk) : TransmitRing :=
  let descriptors := txDescriptors rawChunks
  if descriptors = [] ∨ ring.availableSlots < descriptors.length then ring
  else
    { ring with
      queue := descriptors.zipIdx.foldl (fun queue entry => Function.update queue (ring.slot entry.2) entry.1) ring.queue
      tdt := ring.slot descriptors.length }

def pending (ring : TransmitRing) : Nat := (ring.tdt + txDescCount - ring.tdh) % txDescCount

inductive Move where
  | send (rawChunks : List RawNetDataChunk)
  | advance (count : Nat)

def step (ring : TransmitRing) : Move → Option TransmitRing
  | .send rawChunks => some (ring.sendPacket rawChunks)
  | .advance count => if count ≤ ring.pending then some { ring with tdh := (ring.tdh + count) % txDescCount } else none

/-- An accepted packet takes slots of the ring that the hardware does not own, in order, and its last descriptor alone
ends it. -/
def Safe (ring : TransmitRing) (rawChunks : List RawNetDataChunk) : Prop :=
  rawChunks.length ≤ ring.availableSlots → ∀ i chunk, rawChunks[i]? = some chunk →
    ring.slot i < txDescCount ∧ (∀ k, k < ring.pending → ring.slot i ≠ (ring.tdh + k) % txDescCount) ∧
      (ring.sendPacket rawChunks).queue (ring.slot i) =
        { chunk.descriptor with endOfPacket := decide (i + 1 = rawChunks.length) }

/-- The packet needs no slot that the hardware owns, or it is rejected. -/
def Fits (ring : TransmitRing) (rawChunks : List RawNetDataChunk) : Prop :=
  ring.pending + rawChunks.length ≤ txDescCount ∨ ring.tdh + txDescCount ≤ ring.tdt + rawChunks.length

variable {ring : TransmitRing} {rawChunks : List RawNetDataChunk}

theorem getElem?_txDescriptors {i : Nat} {chunk : RawNetDataChunk} (found : rawChunks[i]? = some chunk) :
    (txDescriptors rawChunks)[i]? =
      some { chunk.descriptor with endOfPacket := decide (i + 1 = rawChunks.length) } := by
  have inside := (List.getElem?_eq_some_iff.mp found).1
  rw [txDescriptors, List.getElem?_modify, List.getElem?_map, found]
  by_cases last : i + 1 = rawChunks.length
  · simp [show rawChunks.length - 1 = i by omega, last]
  · simp [show rawChunks.length - 1 ≠ i by omega, last, RawNetDataChunk.descriptor]

theorem foldl_update {descriptors : List TransmitDescriptor} (few : descriptors.length ≤ 256) {i : Nat}
    {descriptor : TransmitDescriptor} (found : descriptors[i]? = some descriptor) :
    descriptors.zipIdx.foldl (fun queue entry => Function.update queue (ring.slot entry.2) entry.1) ring.queue
      (ring.slot i) = descriptor := by
  induction descriptors using List.reverseRecOn with
  | nil => simp at found
  | append_singleton rest last ih =>
    rw [List.zipIdx_append, List.foldl_append]
    simp only [List.zipIdx_cons, List.zipIdx_nil, List.foldl_cons, List.foldl_nil, Nat.zero_add]
    simp only [List.length_append, List.length_singleton] at few
    have inside := (List.getElem?_eq_some_iff.mp found).1
    simp only [List.length_append, List.length_singleton] at inside
    by_cases isLast : i = rest.length
    · subst isLast
      simpa using found
    · rw [Function.update_of_ne fun same => isLast (by unfold slot txDescCount at same; omega)]
      rw [List.getElem?_append_left (by omega)] at found
      exact ih (by omega) found

theorem step_registers {move : Move} {next : TransmitRing} (inside : ring.tdh < 256 ∧ ring.tdt < 256)
    (stepped : ring.step move = some next) : next.tdh < 256 ∧ next.tdt < 256 := by
  cases move with
  | send rawChunks =>
    cases stepped
    simp only [sendPacket]
    split
    · exact inside
    · exact ⟨inside.1, Nat.mod_lt _ (by decide)⟩
  | advance count =>
    simp only [step, Option.ite_none_right_eq_some, Option.some.injEq] at stepped
    obtain ⟨-, rfl⟩ := stepped
    exact ⟨Nat.mod_lt _ (by decide), inside.2⟩

theorem safe_iff (inside : ring.tdh < 256 ∧ ring.tdt < 256) : ring.Safe rawChunks ↔ ring.Fits rawChunks := by
  unfold Safe Fits availableSlots
  constructor
  · intro safe
    by_contra unfit
    have many : 256 - ring.pending < rawChunks.length := by
      unfold pending txDescCount at *
      omega
    -- the slot at the head is written
    obtain ⟨-, free, -⟩ := safe (by unfold txDescCount at *; omega) _ _ (List.getElem?_eq_getElem many)
    refine free 0 ?_ ?_
    · unfold pending txDescCount at *
      omega
    · unfold slot pending txDescCount
      omega
  · intro fits accepted i chunk found
    have small := (List.getElem?_eq_some_iff.mp found).1
    have few : ring.pending + rawChunks.length ≤ 256 := by
      unfold txDescCount at fits accepted
      omega
    refine ⟨Nat.mod_lt _ (by decide), fun k owned => ?_, ?_⟩
    · unfold slot pending txDescCount at *
      omega
    have length : (txDescriptors rawChunks).length = rawChunks.length := by simp [txDescriptors]
    rw [sendPacket, if_neg]
    · exact foldl_update (by omega) (getElem?_txDescriptors found)
    rintro (noChunk | many)
    · rw [noChunk, List.length_nil] at length
      omega
    · unfold availableSlots at many
      omega

end TransmitRing

/-- In every run of packets sent and descriptors consumed, a packet goes to free slots in order if and only if it needs at
most as many slots as the hardware does not own, or is rejected. -/
theorem send_packet_safe_iff (queue : Nat → TransmitDescriptor) (moves : List TransmitRing.Move) (ring : TransmitRing)
    (run : runs TransmitRing.step (.init queue) moves = some ring) (rawChunks : List RawNetDataChunk) :
    ring.Safe rawChunks ↔ ring.Fits rawChunks :=
  TransmitRing.safe_iff (runs_keeps (fun ring => ring.tdh < 256 ∧ ring.tdt < 256) TransmitRing.step_registers run
    ⟨show 0 < 256 by decide, show 0 < 256 by decide⟩)

def emptyChunk : RawNetDataChunk := ⟨⟨4096, 1⟩, 0⟩

theorem send_packet_safe_iff_two : ∃ ring, runs TransmitRing.step (.init fun _ => {}) [.send [emptyChunk, emptyChunk]] =
    some ring ∧ (ring.Safe [emptyChunk] ↔ ring.Fits [emptyChunk]) :=
  ⟨_, rfl, send_packet_safe_iff (fun _ => {}) [.send [emptyChunk, emptyChunk]] _ rfl _⟩

theorem wrapped_tail_overwrites : ¬ ∀ (queue : Nat → TransmitDescriptor) (moves : List TransmitRing.Move)
    (ring : TransmitRing), runs TransmitRing.step (.init queue) moves = some ring → ∀ rawChunks, ring.Safe rawChunks := by
  intro always
  have reached : (runs TransmitRing.step (.init fun _ => {}) [.send (.replicate 200 emptyChunk), .advance 200,
      .send (.replicate 100 emptyChunk)]).map (fun ring => (ring.tdh, ring.tdt)) = some (200, 44) := by
    decide +kernel
  obtain ⟨ring, run, registers⟩ := Option.map_eq_some_iff.mp reached
  obtain ⟨head, tail⟩ := Prod.mk.inj registers
  have fits := (TransmitRing.safe_iff ⟨by omega, by omega⟩).mp (always _ _ ring run (.replicate 200 emptyChunk))
  rw [TransmitRing.Fits, TransmitRing.pending, head, tail, List.length_replicate] at fits
  exact absurd fits (by decide)

end MeowOs.Drivers.E1000e
