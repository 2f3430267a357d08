import MeowOs.Machine.Bytes

/-! # Sector stores

What a partition is for: an array of 512-byte sectors of a fixed length that
gives back what was written to it last, and refuses an access that leaves it.
File systems are verified against this store.  A read fills the front of a
buffer and leaves the rest of the buffer as it was.
-/

namespace MeowOs.Machine

/-- A store of `sizeSectors` sectors, held as one string of bytes. -/
structure SectorStore where
  bytes : Bytes
  sizeSectors : Nat

namespace SectorStore

/-- Read `count` sectors from `sector` on into the front of `buffer`. -/
def read (p : SectorStore) (sector count : Nat) (buffer : Bytes) : Option Bytes :=
  if sector + count ≤ p.sizeSectors then
    some (buffer.blit 0 (count * 512) (p.bytes.shift (sector * 512)))
  else none

/-- Write the front of `buffer` to the `count` sectors from `sector` on. -/
def write (p : SectorStore) (sector count : Nat) (buffer : Bytes) : Option SectorStore :=
  if sector + count ≤ p.sizeSectors then
    some { p with bytes := p.bytes.blit (sector * 512) (count * 512) buffer }
  else none

variable {p p' : SectorStore} {sector count : Nat} {buffer : Bytes}

theorem read_eq_some {out : Bytes} : p.read sector count buffer = some out ↔ sector + count ≤ p.sizeSectors ∧
      out = buffer.blit 0 (count * 512) (p.bytes.shift (sector * 512)) := by
  unfold read
  split <;> simp_all [eq_comm]

theorem write_eq_some : p.write sector count buffer = some p' ↔ sector + count ≤ p.sizeSectors ∧
      p' = { p with bytes := p.bytes.blit (sector * 512) (count * 512) buffer } := by
  unfold write
  split <;> simp_all [eq_comm]

end SectorStore

/-! ## Blocks of eight sectors -/

namespace Bytes

def block (d : Bytes) (n : Nat) : Bytes := d.shift (n * 4096)

@[simp] theorem block_apply (d : Bytes) (n a : Nat) : d.block n a = d (n * 4096 + a) := rfl

def setBlock (d : Bytes) (n : Nat) (b : Bytes) : Bytes := d.blit (n * 4096) 4096 b

variable {d b d' : Bytes} {n : Nat}

theorem setBlock_same {a : Nat} (aLt : a < 4096) : (d.setBlock n b).block n a = b a := by
  simp only [block_apply, setBlock]
  rw [blit_inside (by omega) (by omega)]
  congr 1
  omega

theorem setBlock_other {m a : Nat} (aLt : a < 4096) (ne : m ≠ n) : (d.setBlock n b).block m a = d.block m a := by
  exact blit_outside (by omega)

def SameBlock (d d' : Bytes) (n : Nat) : Prop := ∀ a, a < 4096 → d'.block n a = d.block n a

theorem SameBlock.refl (d : Bytes) (n : Nat) : SameBlock d d n := fun _ _ => rfl

theorem SameBlock.trans {d'' : Bytes} (h : SameBlock d d' n) (h' : SameBlock d' d'' n) :
    SameBlock d d'' n := fun a aLt => (h' a aLt).trans (h a aLt)

/-- Block `n` of the disk holds the first 4096 bytes of `b`. -/
def BlockIs (d : Bytes) (n : Nat) (b : Bytes) : Prop := ∀ a, a < 4096 → d.block n a = b a

theorem BlockIs.of_same (h : BlockIs d n b) (same : SameBlock d d' n) :
    BlockIs d' n b := fun a aLt => (same a aLt).trans (h a aLt)

theorem setBlock_sameBlock {m : Nat} (ne : m ≠ n) : SameBlock d (d.setBlock n b) m :=
  fun _ aLt => setBlock_other aLt ne

end Bytes

end MeowOs.Machine
