import ConstructorPlatform.Reasoning.Hex
import ConstructorPlatform.Value

/-!
# UuidText — the spellings of a UUID

`str` writes one spelling: lower case, with four hyphens.  The database driver reads any: 32
hexadecimal digits in either case with up to four hyphens among them.
-/

namespace ConstructorPlatform

open Reasoning

/-- A UUID has 128 bits. -/
def uuidBound : Nat := 2 ^ 128

/-- Groups of the given lengths with a hyphen after each, then the rest. -/
def hyphenate : List Nat → List Char → List Char
  | [], cs => cs
  | n :: ns, cs => cs.take n ++ '-' :: hyphenate ns (cs.drop n)

/-- `str(u)`. -/
def uuidStr (u : UUID) : String := String.ofList (hyphenate [8, 4, 4, 4] (Hex.digits 32 u))

/-- How the driver encodes a string for a column of type `uuid`. -/
def parseUuid (s : String) : Option UUID :=
  let ds := s.toList.filter fun c => c ≠ '-'
  if s.length ≤ 36 ∧ ds.length = 32 then Hex.value ds else none

theorem filter_hyphenate (ns : List Nat) {cs : List Char} (h : '-' ∉ cs) :
    (hyphenate ns cs).filter (fun c => c ≠ '-') = cs := by
  have hself : ∀ ds : List Char, '-' ∉ ds → ds.filter (fun c => c ≠ '-') = ds := by
    intro ds hds
    rw [List.filter_eq_self]
    exact fun c hc => decide_eq_true fun heq => hds (heq ▸ hc)
  induction ns generalizing cs with
  | nil => exact hself cs h
  | cons n ns ih =>
      rw [hyphenate, List.filter_append, hself _ fun hc => h (List.mem_of_mem_take hc),
        List.filter_cons_of_neg (by decide), ih fun hc => h (List.mem_of_mem_drop hc),
        List.take_append_drop]

theorem length_hyphenate (ns : List Nat) (cs : List Char) :
    (hyphenate ns cs).length = ns.length + cs.length := by
  induction ns generalizing cs with
  | nil => simp [hyphenate]
  | cons n ns ih =>
      rw [hyphenate, List.length_append, List.length_cons, ih, List.length_take, List.length_drop,
        List.length_cons]
      omega

/-- The driver reads the spelling of `str`. -/
theorem parseUuid_uuidStr {u : UUID} (h : u < uuidBound) : parseUuid (uuidStr u) = some u := by
  have hlength := Hex.length_digits 32 u
  have hhyphen : '-' ∉ Hex.digits 32 u := Hex.not_mem_digits (by decide) 32 u
  have hsize : (uuidStr u).length = 36 := by
    rw [uuidStr, String.length_ofList, length_hyphenate, hlength]
    rfl
  unfold parseUuid
  rw [hsize, uuidStr, String.toList_ofList, filter_hyphenate _ hhyphen, if_pos ⟨le_rfl, hlength⟩]
  exact Hex.value_digits h

theorem uuidStr_inj {u v : UUID} (hu : u < uuidBound) (hv : v < uuidBound)
    (h : uuidStr u = uuidStr v) : u = v := by
  have hparse := parseUuid_uuidStr hu
  rw [h, parseUuid_uuidStr hv] at hparse
  exact (Option.some.inj hparse).symm

end ConstructorPlatform
