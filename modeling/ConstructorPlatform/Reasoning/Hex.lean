import Mathlib.Algebra.Group.Nat.Defs
import Mathlib.Data.List.Basic

/-!
# Hex — numbers as hexadecimal digits

Written with a fixed number of lower-case digits, read in either case.
-/

namespace Reasoning.Hex

def digit (d : Nat) : Char := if d < 10 then Char.ofNat (48 + d) else Char.ofNat (87 + d)

def digitValue (c : Char) : Option Nat :=
  if 48 ≤ c.toNat ∧ c.toNat ≤ 57 then some (c.toNat - 48)
  else if 97 ≤ c.toNat ∧ c.toNat ≤ 102 then some (c.toNat - 87)
  else if 65 ≤ c.toNat ∧ c.toNat ≤ 70 then some (c.toNat - 55)
  else none

/-- The last `k` digits of a number. -/
def digits : Nat → Nat → List Char
  | 0, _ => []
  | k + 1, n => digits k (n / 16) ++ [digit (n % 16)]

/-- The number that `acc` and the digits after it denote. -/
def valueFrom (acc : Nat) : List Char → Option Nat
  | [] => some acc
  | c :: cs => (digitValue c).bind fun d => valueFrom (16 * acc + d) cs

def value (cs : List Char) : Option Nat := valueFrom 0 cs

theorem digitValue_digit {d : Nat} (h : d < 16) : digitValue (digit d) = some d := by
  have hall : ∀ d < 16, digitValue (digit d) = some d := by decide
  exact hall d h

theorem length_digits (k n : Nat) : (digits k n).length = k := by
  induction k generalizing n with
  | zero => rfl
  | succ k ih => rw [digits, List.length_append, ih]; rfl

theorem mem_digits {c : Char} {k n : Nat} (h : c ∈ digits k n) : ∃ d < 16, digit d = c := by
  induction k generalizing n with
  | zero => cases h
  | succ k ih =>
      rcases List.mem_append.mp h with hrest | hlast
      · exact ih hrest
      · exact ⟨n % 16, Nat.mod_lt n (by decide), (List.mem_singleton.mp hlast).symm⟩

-- A character that is no digit does not occur.
theorem not_mem_digits {c : Char} (hc : ∀ d < 16, digit d ≠ c) (k n : Nat) : c ∉ digits k n := by
  intro h
  obtain ⟨d, hd, hsame⟩ := mem_digits h
  exact hc d hd hsame

theorem valueFrom_append (acc : Nat) (cs ds : List Char) :
    valueFrom acc (cs ++ ds) = (valueFrom acc cs).bind fun acc => valueFrom acc ds := by
  induction cs generalizing acc with
  | nil => rfl
  | cons c cs ih =>
      rw [List.cons_append, valueFrom, valueFrom, Option.bind_assoc]
      exact Option.bind_congr fun d _ => ih _

theorem valueFrom_digits (acc k n : Nat) :
    valueFrom acc (digits k n) = some (16 ^ k * acc + n % 16 ^ k) := by
  induction k generalizing n with
  | zero => simp [digits, valueFrom, Nat.mod_one]
  | succ k ih =>
      have hsplit : n % 16 ^ (k + 1) = 16 * (n / 16 % 16 ^ k) + n % 16 := by
        rw [Nat.pow_succ, Nat.mul_comm, Nat.mod_mul]
        omega
      rw [digits, valueFrom_append, ih, Option.bind_some, valueFrom,
        digitValue_digit (Nat.mod_lt n (by decide)), Option.bind_some, valueFrom, hsplit,
        Nat.pow_succ]
      congr 1
      rw [Nat.mul_add, ← Nat.mul_assoc, Nat.mul_comm 16 (16 ^ k)]
      omega

/-- What is written with enough digits is read back. -/
theorem value_digits {k n : Nat} (h : n < 16 ^ k) : value (digits k n) = some n := by
  rw [value, valueFrom_digits, Nat.mul_zero, Nat.zero_add, Nat.mod_eq_of_lt h]

end Reasoning.Hex
