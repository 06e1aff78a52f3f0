import Mathlib.Algebra.Group.Nat.Defs

/-!
# Blocks — addresses of `w` bits that begin alike

A block is given by its first address and the number of leading bits its addresses share.
Membership is tested with a mask; `Block.contains_iff` reads the test as a range of numbers.
-/

namespace Reasoning

/-- The first `length` of `w` bits. -/
def netmask (w length : Nat) : BitVec w := BitVec.allOnes w ^^^ (BitVec.allOnes w >>> length)

/-- A block; its first address has no bit set behind the shared ones. -/
structure Block (w : Nat) where
  address : BitVec w
  length : Nat
  length_le : length ≤ w
  strict : address &&& netmask w length = address

namespace Block

variable {w : Nat} (b : Block w)

def contains (x : BitVec w) : Bool := x &&& netmask w b.length == b.address

/-- The number of its addresses. -/
def size : Nat := 2 ^ (w - b.length)

end Block

variable {w : Nat}

theorem and_netmask {length : Nat} (h : length ≤ w) (x : BitVec w) :
    x &&& netmask w length = (x >>> (w - length)) <<< (w - length) := by
  apply BitVec.eq_of_getLsbD_eq
  intro i hi
  rw [netmask, BitVec.getLsbD_and, BitVec.getLsbD_xor, BitVec.getLsbD_ushiftRight,
    BitVec.getLsbD_allOnes, BitVec.getLsbD_allOnes, BitVec.getLsbD_shiftLeft,
    BitVec.getLsbD_ushiftRight]
  by_cases hlow : i < w - length
  · have hshift : length + i < w := by omega
    simp [hi, hlow, hshift]
  · have hshift : ¬ length + i < w := by omega
    have hback : w - length + (i - (w - length)) = i := by omega
    simp [hi, hlow, hshift, hback]

theorem toNat_and_netmask {length : Nat} (h : length ≤ w) (x : BitVec w) :
    (x &&& netmask w length).toNat = x.toNat / 2 ^ (w - length) * 2 ^ (w - length) := by
  have hlt : x.toNat / 2 ^ (w - length) * 2 ^ (w - length) < 2 ^ w :=
    Nat.lt_of_le_of_lt (Nat.div_mul_le_self _ _) x.isLt
  rw [and_netmask h, BitVec.toNat_shiftLeft, BitVec.toNat_ushiftRight, Nat.shiftRight_eq_div_pow,
    Nat.shiftLeft_eq, Nat.mod_eq_of_lt hlt]

/-- The addresses of a block are those from its first one on. -/
theorem Block.contains_iff (b : Block w) (x : BitVec w) :
    b.contains x = true ↔ b.address.toNat ≤ x.toNat ∧ x.toNat < b.address.toNat + b.size := by
  have hstrict : b.address.toNat / b.size * b.size = b.address.toNat := by
    rw [Block.size, ← toNat_and_netmask b.length_le, b.strict]
  rw [Block.contains, beq_iff_eq, ← BitVec.toNat_inj, toNat_and_netmask b.length_le]
  change x.toNat / b.size * b.size = _ ↔ _
  have hpos : 0 < b.size := Nat.two_pow_pos _
  constructor
  · intro h
    rw [← h]
    exact ⟨Nat.div_mul_le_self _ _, Nat.lt_div_mul_add hpos⟩
  · rintro ⟨hge, hlt⟩
    rw [← hstrict] at hge hlt
    have hquot : x.toNat / b.size = b.address.toNat / b.size := by
      refine Nat.div_eq_of_lt_le hge ?_
      rw [Nat.add_mul, Nat.one_mul]
      exact hlt
    rw [hquot, hstrict]

end Reasoning
