import ConstructorPlatform.Reasoning.Blocks
import ConstructorPlatform.Reasoning.Hex

/-!
# IpAddress — the part of Python's `ipaddress` that the tools use

Reading an address from its text, writing an IPv4 address, and membership in a network.  Where
`ipaddress` raises `ValueError` the functions below answer `none`.
-/

namespace ConstructorPlatform

open Reasoning

/-- `IPv4Address` or `IPv6Address`.  A zone takes no part in membership and is left out. -/
inductive IpAddress where
  | v4 (ip : BitVec 32)
  | v6 (ip : BitVec 128)
  deriving DecidableEq

inductive IpNetwork where
  | v4 (block : Block 32)
  | v6 (block : Block 128)

/-- `ip in net`: false when the versions differ. -/
def IpNetwork.contains : IpNetwork → IpAddress → Bool
  | .v4 block, .v4 ip => block.contains ip
  | .v6 block, .v6 ip => block.contains ip
  | _, _ => false

/-! ## 1. IPv4 -/

/-- `int.from_bytes(octets, 'big')`. -/
def ofOctets (a b c d : Nat) : BitVec 32 :=
  BitVec.ofNat 32 (((a * 256 + b) * 256 + c) * 256 + d)

/-- `_parse_octet`. -/
def parseOctet (octet : List Char) : Option Nat :=
  if octet.isEmpty ∨ octet.all Char.isDigit = false ∨ octet.length > 3 ∨
      (octet ≠ ['0'] ∧ octet.head? = some '0') then
    none
  else
    let n := Nat.ofDigitChars 10 octet 0
    if n > 255 then none else some n

/-- `IPv4Address(text)`. -/
def ipv4Address (text : List Char) : Option (BitVec 32) :=
  if '/' ∈ text then none
  else
    match (text.splitOn '.').mapM parseOctet with
    | some [a, b, c, d] => some (ofOctets a b c d)
    | _ => none

/-- `ip.to_bytes(4, 'big')`. -/
def toOctets (ip : BitVec 32) : List Nat :=
  [ip.toNat / 2 ^ 24, ip.toNat / 2 ^ 16 % 256, ip.toNat / 2 ^ 8 % 256, ip.toNat % 256]

def dottedChars (ip : BitVec 32) : List Char :=
  List.intercalate ['.'] ((toOctets ip).map (Nat.toDigits 10))

/-- `str` of an `IPv4Address`. -/
def dottedQuad (ip : BitVec 32) : String := String.ofList (dottedChars ip)

/-! ## 2. IPv6 -/

/-- `_parse_hextet`. -/
def parseHextet (hextet : List Char) : Option Nat :=
  if hextet.isEmpty ∨ hextet.length > 4 then none else Hex.value hextet

/-- A number followed by the hextets of some parts. -/
def appendHextets (ip : Nat) (parts : List (List Char)) : Option Nat :=
  parts.foldlM (fun ip part => (parseHextet part).map fun hextet => ip <<< 16 ||| hextet) ip

/-- An IPv4 address at the end stands for two hextets. -/
def replaceSuffix (parts : List (List Char)) : Option (List (List Char)) :=
  match parts.getLast? with
  | some last =>
      if '.' ∈ last then
        (ipv4Address last).map fun ip =>
          parts.dropLast ++
            [Nat.toDigits 16 (ip.toNat / 2 ^ 16), Nat.toDigits 16 (ip.toNat % 2 ^ 16)]
      else some parts
  | none => some parts

/-- The places of `::` between the two ends. -/
def skipIndices (parts : List (List Char)) : List Nat :=
  (List.range (parts.length - 1)).filter fun i => i ≠ 0 ∧ parts[i]? = some []

/-- The parts before and after the zeros that `::` at this place stands for. -/
def aroundSkip (parts : List (List Char)) (skip : Nat) : Option (Nat × Nat) :=
  let hi := if parts.head? = some [] then skip - 1 else skip
  let lo := if parts.getLast? = some [] then parts.length - skip - 2 else parts.length - skip - 1
  if (parts.head? = some [] ∧ hi ≠ 0) ∨ (parts.getLast? = some [] ∧ lo ≠ 0) ∨ hi + lo > 7 then none
  else some (hi, lo)

/-- `_ip_int_from_string`. -/
def ipIntFromString (text : List Char) : Option (BitVec 128) := do
  let parts := text.splitOn ':'
  guard (parts.length ≥ 3)
  let parts ← replaceSuffix parts
  guard (parts.length ≤ 9)
  match skipIndices parts with
  | [] =>
      -- An empty part at either end is no hextet.
      guard (parts.length = 8)
      (appendHextets 0 parts).map (BitVec.ofNat 128)
  | [skip] =>
      let (hi, lo) ← aroundSkip parts skip
      let high ← appendHextets 0 (parts.take hi)
      let ip ← appendHextets (high <<< (16 * (8 - (hi + lo)))) (parts.drop (parts.length - lo))
      some (BitVec.ofNat 128 ip)
  | _ => none

/-- `IPv6Address(text)`. -/
def ipv6Address (text : List Char) : Option (BitVec 128) :=
  if '/' ∈ text then none
  else
    match text.splitOn '%' with
    | [address] => ipIntFromString address
    | [address, zone] => if zone.isEmpty then none else ipIntFromString address
    | _ => none

/-- `ip_address(text)`. -/
def ipAddress (text : String) : Option IpAddress :=
  match ipv4Address text.toList with
  | some ip => some (.v4 ip)
  | none => (ipv6Address text.toList).map .v6

/-! ## 3. What `str` writes is read back -/

theorem parseOctet_toDigits {n : Nat} (h : n < 256) : parseOctet (Nat.toDigits 10 n) = some n := by
  have hall : ∀ n < 256, parseOctet (Nat.toDigits 10 n) = some n := by decide +kernel
  exact hall n h

theorem digits_plain {n : Nat} (h : n < 256) :
    '.' ∉ Nat.toDigits 10 n ∧ '/' ∉ Nat.toDigits 10 n := by
  have hall : ∀ n < 256, '.' ∉ Nat.toDigits 10 n ∧ '/' ∉ Nat.toDigits 10 n := by decide +kernel
  exact hall n h

theorem toOctets_lt (ip : BitVec 32) : ∀ n ∈ toOctets ip, n < 256 := by
  have hlt := ip.isLt
  simp only [toOctets, List.mem_cons, List.not_mem_nil, or_false]
  omega

theorem ofOctets_toOctets (ip : BitVec 32) :
    ofOctets (ip.toNat / 2 ^ 24) (ip.toNat / 2 ^ 16 % 256) (ip.toNat / 2 ^ 8 % 256)
      (ip.toNat % 256) = ip := by
  have hlt := ip.isLt
  apply BitVec.eq_of_toNat_eq
  rw [ofOctets, BitVec.toNat_ofNat]
  omega

theorem mem_intercalate {c sep : Char} {pieces : List (List Char)}
    (h : c ∈ List.intercalate [sep] pieces) : c = sep ∨ ∃ piece ∈ pieces, c ∈ piece := by
  induction pieces with
  | nil => cases h
  | cons piece rest ih =>
      by_cases hne : rest = []
      · subst hne
        rw [List.intercalate_singleton] at h
        exact .inr ⟨piece, List.mem_cons_self, h⟩
      · rw [List.intercalate_cons_of_ne_nil hne, List.mem_append, List.mem_append] at h
        rcases h with (h | h) | h
        · exact .inr ⟨piece, List.mem_cons_self, h⟩
        · exact .inl (List.mem_singleton.mp h)
        · refine (ih h).imp_right ?_
          rintro ⟨other, hother, hc⟩
          exact ⟨other, List.mem_cons_of_mem _ hother, hc⟩

theorem slash_not_mem_dottedChars (ip : BitVec 32) : '/' ∉ dottedChars ip := by
  intro h
  rcases mem_intercalate h with h | ⟨octet, hoctet, hslash⟩
  · cases h
  · obtain ⟨n, hn, rfl⟩ := List.mem_map.mp hoctet
    exact (digits_plain (toOctets_lt ip n hn)).2 hslash

theorem mapM_parseOctet {ns : List Nat} (h : ∀ n ∈ ns, n < 256) :
    (ns.map (Nat.toDigits 10)).mapM parseOctet = some ns := by
  induction ns with
  | nil => rfl
  | cons n ns ih =>
      rw [List.map_cons, List.mapM_cons, parseOctet_toDigits (h n List.mem_cons_self),
        ih fun n hn => h n (List.mem_cons_of_mem _ hn)]
      rfl

theorem ipv4Address_dottedChars (ip : BitVec 32) : ipv4Address (dottedChars ip) = some ip := by
  have hplain : ∀ octet ∈ (toOctets ip).map (Nat.toDigits 10), '.' ∉ octet := by
    intro octet hoctet
    obtain ⟨n, hn, rfl⟩ := List.mem_map.mp hoctet
    exact (digits_plain (toOctets_lt ip n hn)).1
  have hsplit : (dottedChars ip).splitOn '.' = (toOctets ip).map (Nat.toDigits 10) :=
    List.splitOn_intercalate '.' hplain (by simp [toOctets])
  rw [ipv4Address, if_neg (slash_not_mem_dottedChars ip), hsplit, mapM_parseOctet (toOctets_lt ip)]
  exact congrArg some (ofOctets_toOctets ip)

theorem ipAddress_dottedQuad (ip : BitVec 32) : ipAddress (dottedQuad ip) = some (.v4 ip) := by
  rw [ipAddress, dottedQuad, String.toList_ofList, ipv4Address_dottedChars]

end ConstructorPlatform
