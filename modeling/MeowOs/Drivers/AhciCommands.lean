import Mathlib.Data.List.Induction
import Mathlib.Tactic.NormNum

/-! # Commands for an AHCI disk

`read` and `write` describe a transfer to the controller: a FIS with the sectors, a
header with the direction, and a list of descriptors for the memory.  Both set the
direction of a read, and a buffer longer than needed is described to its end
(`command_encoded_iff`).
-/

namespace MeowOs.Drivers.Ahci

def bits (hi lo x : Nat) : Nat := x / 2 ^ lo % 2 ^ (hi + 1 - lo)

def setBits (hi lo value x : Nat) : Nat := x - bits hi lo x * 2 ^ lo + value % 2 ^ (hi + 1 - lo) * 2 ^ lo

inductive Operation
  | read
  | write
  deriving DecidableEq

def Operation.dma : Operation → Nat
  | .read => 0x25
  | .write => 0x35

structure H2DRegisterFis where
  fisType : Nat := 0x27
  pmport : Nat := 0
  command : Nat := 0
  featurel : Nat := 0
  lba0 : Nat := 0
  lba1 : Nat := 0
  lba2 : Nat := 0
  device : Nat := 0
  lba3 : Nat := 0
  lba4 : Nat := 0
  lba5 : Nat := 0
  featureh : Nat := 0
  countl : Nat := 0
  counth : Nat := 0
  icc : Nat := 0
  control : Nat := 0

def H2DRegisterFis.bytes (fis : H2DRegisterFis) : List Nat :=
  [fis.fisType, fis.pmport, fis.command, fis.featurel, fis.lba0, fis.lba1, fis.lba2, fis.device, fis.lba3, fis.lba4,
    fis.lba5, fis.featureh, fis.countl, fis.counth, fis.icc, fis.control, 0, 0, 0, 0]

structure PrdtDescriptor where
  base : Nat
  count : Nat

def PrdtDescriptor.entry (d : PrdtDescriptor) : Nat :=
  setBits 117 96 (d.count - 1) (setBits 63 0 d.base (setBits 127 127 1 0))

/-- A slot of the command list: the `CmdHeader`, and from its table the FIS and the entries behind it. -/
structure Command where
  header : Nat
  cfis : List Nat
  prdt : List Nat

def cmdHeader (write : Bool) (cfl prdtl ctba : Nat) : Nat :=
  setBits 127 64 ctba (setBits 31 16 prdtl (setBits 10 10 1 (setBits 4 0 cfl (setBits 6 6 write.toNat 0))))

structure VirtualPort where
  device : Nat
  sectors : Nat
  is64Bit : Bool

/-- The descriptors of a buffer, 8 sectors for each page but the last one needed. -/
def prdtOf (secCount : Nat) (buffer : List Nat) : List PrdtDescriptor :=
  buffer.zipIdx.map fun (addr, i) => ⟨addr, if i = (secCount + 7) / 8 - 1 then ((secCount - 1) % 8 + 1) * 512 else 8 * 512⟩

namespace VirtualPort

/-- `build_command` with the frame that it allocates for the table. -/
def buildCommand (port : VirtualPort) (write : Bool) (cfis : List Nat) (prdt : List PrdtDescriptor)
    (cmdTableFrame : Nat) : Option Command :=
  if 248 < prdt.length ∨ port.is64Bit = false ∨ cmdTableFrame % 128 ≠ 0 then none
  else some ⟨cmdHeader write (cfis.length / 4) prdt.length cmdTableFrame, cfis, prdt.map (·.entry)⟩

def cfis (port : VirtualPort) (command startSecIndex secCount : Nat) : H2DRegisterFis where
  pmport := setBits 7 7 1 0
  command := command
  device := port.device ||| 2 ^ 6
  countl := secCount % 2 ^ 8
  counth := secCount / 2 ^ 8 % 2 ^ 8
  lba0 := startSecIndex % 2 ^ 8
  lba1 := startSecIndex / 2 ^ 8 % 2 ^ 8
  lba2 := startSecIndex / 2 ^ 16 % 2 ^ 8
  lba3 := startSecIndex / 2 ^ 24 % 2 ^ 8
  lba4 := startSecIndex / 2 ^ 32 % 2 ^ 8
  lba5 := startSecIndex / 2 ^ 40 % 2 ^ 8

def transfer (port : VirtualPort) (op : Operation) (startSecIndex secCount : Nat) (buffer : List Nat)
    (cmdTableFrame : Nat) : Option Command :=
  if port.sectors < secCount then none
  else
    -- both pass the flag of a read
    port.buildCommand false (port.cfis op.dma startSecIndex secCount).bytes (prdtOf secCount buffer) cmdTableFrame

end VirtualPort

/-- The command describes the transfer, by the layout that the controller reads. -/
structure Command.Carries (c : Command) (op : Operation) (start count : Nat) (buffer : List Nat) : Prop where
  fis : ∃ a b d e f g h i l0 l1 l2 l3 l4 l5 n0 n1, c.cfis = a :: b :: op.dma :: d :: l0 :: l1 :: l2 :: e :: l3 :: l4 ::
    l5 :: f :: n0 :: n1 :: g :: h :: i ∧ n0 + 2 ^ 8 * n1 = count ∧
      l0 + 2 ^ 8 * l1 + 2 ^ 16 * l2 + 2 ^ 24 * l3 + 2 ^ 32 * l4 + 2 ^ 40 * l5 = start
  direction : bits 6 6 c.header = if op = .write then 1 else 0
  entries : bits 31 16 c.header = c.prdt.length
  addresses : c.prdt.map (bits 63 0) = buffer
  bytes : (c.prdt.map (bits 117 96 · + 1)).sum = 512 * count

section Encoding

variable {port : VirtualPort} {op : Operation} {start count frame : Nat} {buffer : List Nat}

theorem header_bits {n : Nat} (small : n ≤ 248) (inside : frame < 2 ^ 64) :
    bits 6 6 (cmdHeader false 5 n frame) = 0 ∧ bits 31 16 (cmdHeader false 5 n frame) = n := by
  have closed : cmdHeader false 5 n frame = 1029 + 65536 * n + 2 ^ 64 * frame := by
    norm_num [cmdHeader, setBits, bits]
    omega
  rw [closed, bits, bits]
  omega

theorem entry_bits {d : PrdtDescriptor} (inside : d.base < 2 ^ 64) (positive : 0 < d.count) (page : d.count ≤ 4096) :
    bits 63 0 d.entry = d.base ∧ bits 117 96 d.entry + 1 = d.count := by
  have closed : d.entry = d.base + 2 ^ 96 * (d.count - 1) + 2 ^ 127 := by
    norm_num [PrdtDescriptor.entry, setBits, bits]
    omega
  rw [closed, bits, bits]
  omega

theorem sum_zipIdx (m a b : Nat) (l : List Nat) : (l.zipIdx.map fun x => if x.2 = m then a else b).sum =
    if m < l.length then (l.length - 1) * b + a else l.length * b := by
  induction l using List.reverseRecOn with
  | nil => simp
  | append_singleton l x ih =>
    rw [List.zipIdx_append, List.map_append, List.sum_append, ih, List.length_append, List.length_singleton,
      Nat.add_sub_cancel, List.zipIdx_singleton, List.map_singleton, List.sum_singleton, Nat.zero_add]
    obtain lt | rfl | gt := Nat.lt_trichotomy m l.length
    · obtain ⟨k, len⟩ : ∃ k, l.length = k + 1 := ⟨l.length - 1, by omega⟩
      rw [if_pos lt, if_neg (by omega), if_pos (by omega), len, Nat.add_sub_cancel, Nat.succ_mul]
      omega
    · rw [if_neg (lt_irrefl _), if_pos rfl, if_pos (Nat.lt_succ_self _)]
    · rw [if_neg (by omega), if_neg (by omega), if_neg (by omega), Nat.succ_mul]

/-- In the domain of the drivers the command describes the transfer if it is a read of no more sectors than there are
into a buffer of just as many pages as needed, on a controller with 64-bit addresses. -/
theorem command_encoded_iff (port : VirtualPort) (op : Operation) (low : start < 2 ^ 48) (least : 0 < count)
    (most : count ≤ 65535) (covers : count ≤ 8 * buffer.length) (addresses : ∀ a ∈ buffer, a < 2 ^ 64)
    (aligned : frame % 4096 = 0) (inside : frame < 2 ^ 64) :
    (∃ c, port.transfer op start count buffer frame = some c ∧ c.Carries op start count buffer) ↔
      op = .read ∧ port.is64Bit = true ∧ count ≤ port.sectors ∧ buffer.length = (count + 7) / 8 ∧
        buffer.length ≤ 248 := by
  have length : (prdtOf count buffer).length = buffer.length := by simp [prdtOf]
  have cfl : (port.cfis op.dma start count).bytes.length / 4 = 5 := by simp [H2DRegisterFis.bytes]
  have sizes : ∀ d ∈ prdtOf count buffer, bits 63 0 d.entry = d.base ∧ bits 117 96 d.entry + 1 = d.count := by
    intro d member
    obtain ⟨⟨addr, i⟩, inBuffer, rfl⟩ := List.mem_map.mp member
    refine entry_bits (addresses _ (List.fst_mem_of_mem_zipIdx inBuffer)) ?_ ?_
    · dsimp only
      split <;> omega
    · dsimp only
      split <;> omega
  have bases : ((prdtOf count buffer).map (·.entry)).map (bits 63 0) = buffer := by
    rw [List.map_map]
    refine (List.map_congr_left fun d member => (sizes d member).1).trans ?_
    rw [prdtOf, List.map_map]
    exact List.zipIdx_map_fst 0 buffer
  have total : (((prdtOf count buffer).map (·.entry)).map (bits 117 96 · + 1)).sum =
      (buffer.length - 1) * 4096 + ((count - 1) % 8 + 1) * 512 := by
    rw [List.map_map]
    refine (congrArg List.sum (List.map_congr_left fun d member => (sizes d member).2)).trans ?_
    rw [prdtOf, List.map_map]
    exact (sum_zipIdx _ _ _ buffer).trans (if_pos (by omega))
  rw [VirtualPort.transfer, VirtualPort.buildCommand, length, cfl]
  constructor
  · rintro ⟨c, built, carries⟩
    split at built
    · cases built
    split at built
    · cases built
    next fits =>
    obtain ⟨few, wide, -⟩ : ¬ 248 < buffer.length ∧ ¬ port.is64Bit = false ∧ _ := by simpa [not_or] using fits
    cases built
    have sum := carries.bytes
    have direction := carries.direction
    rw [total] at sum
    replace direction := (header_bits (Nat.le_of_not_lt few) inside).1.symm.trans direction
    refine ⟨?_, by simpa using wide, by omega, by omega, by omega⟩
    cases op with
    | read => rfl
    | write => cases direction
  · rintro ⟨rfl, wide, enough, whole, few⟩
    rw [if_neg (by omega), if_neg (by simp [wide]; omega)]
    obtain ⟨direction, entries⟩ := header_bits few inside
    refine ⟨_, rfl, ⟨_, _, _, _, _, _, _, _, _, _, _, _, _, _, _, _, rfl, ?_, ?_⟩, direction, ?_, bases, ?_⟩
    · dsimp only [VirtualPort.cfis]
      omega
    · dsimp only [VirtualPort.cfis]
      omega
    · rw [List.length_map, length]
      exact entries
    · rw [total]
      omega

theorem command_encoded_iff_nine : (∃ c, (⟨0, 100, true⟩ : VirtualPort).transfer .read 5 9 [4096, 8192] 0 = some c ∧
      c.Carries .read 5 9 [4096, 8192]) :=
  (command_encoded_iff _ _ (by decide) (by decide) (by decide) (by decide) (by decide) (by decide) (by decide)).mpr
    (by decide)

/-- A write of one sector has the direction of a read in its header. -/
theorem write_built_as_read : ¬ ∀ (port : VirtualPort) (op : Operation) (start count frame : Nat) (buffer : List Nat),
    start < 2 ^ 48 → 0 < count → count ≤ 65535 → count ≤ 8 * buffer.length → (∀ a ∈ buffer, a < 2 ^ 64) →
      frame % 4096 = 0 → frame < 2 ^ 64 →
        ∃ c, port.transfer op start count buffer frame = some c ∧ c.Carries op start count buffer := by
  intro always
  obtain ⟨c, built, carries⟩ := always ⟨0, 100, true⟩ .write 0 1 0 [4096] (by decide) (by decide) (by decide) (by decide)
    (by decide) rfl (by decide)
  cases built
  exact absurd carries.direction (by decide)

end Encoding

end MeowOs.Drivers.Ahci
