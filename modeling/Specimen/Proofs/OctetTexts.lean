/-
Octets as texts.  Hexadecimal digits stand for an octet in pairs; in the other
form four signs of six bits stand for three octets, and equal signs fill the
last group.  What is written for octets is read back as the same octets.
-/
import Specimen.Value.Node

namespace Specimen

namespace Octets

def ofHexadecimal? : List Char → Option (List UInt8)
  | [] => some []
  | [_] => none
  | high :: low :: rest => do
    let a ← Text.hexValue? high
    let b ← Text.hexValue? low
    let octets ← ofHexadecimal? rest
    return UInt8.ofNat (a * 16 + b) :: octets

/-- The number below 64 that a sign stands for. -/
def sixBits? (c : Char) : Option Nat :=
  if 'A' ≤ c ∧ c ≤ 'Z' then some (c.toNat - 'A'.toNat)
  else if 'a' ≤ c ∧ c ≤ 'z' then some (c.toNat - 'a'.toNat + 26)
  else if '0' ≤ c ∧ c ≤ '9' then some (c.toNat - '0'.toNat + 52)
  else if c = '+' then some 62
  else if c = '/' then some 63
  else none

/-- The octets that groups of four signs stand for. Only the last group may be
filled with equal signs, and the bits that these leave over are zero. -/
def ofBase64? : List Char → Option (List UInt8)
  | [] => some []
  | a :: b :: c :: d :: rest => do
    let x ← sixBits? a
    let y ← sixBits? b
    if c = '=' then
      let n := x * 64 + y
      if d = '=' ∧ rest = [] ∧ n % 16 = 0 then return [UInt8.ofNat (n / 16)]
      else none
    else
      let z ← sixBits? c
      if d = '=' then
        let n := (x * 64 + y) * 64 + z
        if rest = [] ∧ n % 4 = 0 then
          return [UInt8.ofNat (n / 1024), UInt8.ofNat (n / 4 % 256)]
        else none
      else
        let w ← sixBits? d
        let n := ((x * 64 + y) * 64 + z) * 64 + w
        let octets ← ofBase64? rest
        return UInt8.ofNat (n / 65536) :: UInt8.ofNat (n / 256 % 256) ::
          UInt8.ofNat (n % 256) :: octets
  | _ => none

end Octets

namespace Value

open Octets

theorem hexValue?_toUpper_digitChar :
    ∀ n < 16, Text.hexValue? (Nat.digitChar n).toUpper = some n := by
  decide

theorem length_hexadecimal (octets : List UInt8) :
    (hexadecimal octets).length = 2 * octets.length := by
  rw [hexadecimal, String.length_ofList, List.length_map]
  induction octets with
  | nil => rfl
  | cons b octets ih =>
      rw [List.flatMap_cons, List.length_append, ih, List.length_cons]
      change 2 + _ = _
      omega

/-- Octets come back from their hexadecimal digits. -/
theorem ofHexadecimal?_hexadecimal (octets : List UInt8) :
    ofHexadecimal? (hexadecimal octets).toList = some octets := by
  rw [hexadecimal, String.toList_ofList]
  induction octets with
  | nil => rfl
  | cons b octets ih =>
      have hb := b.toNat_lt
      have hhigh := hexValue?_toUpper_digitChar (b.toNat / 16) (by omega)
      have hlow := hexValue?_toUpper_digitChar (b.toNat % 16) (by omega)
      have hsum : b.toNat / 16 * 16 + b.toNat % 16 = b.toNat := by omega
      simp only [List.flatMap_cons, Draw.hexByte, List.cons_append,
        List.nil_append, List.map_cons]
      rw [ofHexadecimal?, hhigh, hlow, ih]
      change some (UInt8.ofNat (b.toNat / 16 * 16 + b.toNat % 16) :: octets) = _
      rw [hsum, UInt8.ofNat_toNat]

theorem sixBits?_base64Char : ∀ n < 64, sixBits? (base64Char n) = some n := by
  decide

theorem base64Char_ne_equals : ∀ n < 64, base64Char n ≠ '=' := by
  decide

/-- Octets come back from the signs that are written for them. -/
theorem ofBase64?_base64 (octets : List UInt8) :
    ofBase64? (base64 octets) = some octets := by
  fun_induction base64 octets with
  | case1 => rfl
  | case2 a n =>
      have ha := a.toNat_lt
      have hn : n = a.toNat * 16 := rfl
      rw [ofBase64?, sixBits?_base64Char (n / 64) (by omega),
        sixBits?_base64Char (n % 64) (by omega)]
      have hsum : n / 64 * 64 + n % 64 = n := by omega
      have hfirst : n / 16 = a.toNat := by omega
      have hdigits : n % 16 = 0 := by omega
      simp [hsum, hfirst, hdigits]
  | case3 a b n =>
      have ha := a.toNat_lt
      have hb := b.toNat_lt
      have hn : n = (a.toNat * 256 + b.toNat) * 4 := rfl
      rw [ofBase64?, sixBits?_base64Char (n / 4096) (by omega),
        sixBits?_base64Char (n / 64 % 64) (by omega),
        sixBits?_base64Char (n % 64) (by omega)]
      have hsum : (n / 4096 * 64 + n / 64 % 64) * 64 + n % 64 = n := by omega
      have hfirst : n / 1024 = a.toNat := by omega
      have hsecond : n / 4 % 256 = b.toNat := by omega
      have hdigits : n % 4 = 0 := by omega
      simp [hsum, hfirst, hsecond, hdigits,
        base64Char_ne_equals (n % 64) (by omega)]
  | case4 a b c rest n ih =>
      have ha := a.toNat_lt
      have hb := b.toNat_lt
      have hc := c.toNat_lt
      have hn : n = (a.toNat * 256 + b.toNat) * 256 + c.toNat := rfl
      rw [ofBase64?, sixBits?_base64Char (n / 262144) (by omega),
        sixBits?_base64Char (n / 4096 % 64) (by omega),
        sixBits?_base64Char (n / 64 % 64) (by omega),
        sixBits?_base64Char (n % 64) (by omega), ih]
      have hsum : ((n / 262144 * 64 + n / 4096 % 64) * 64 + n / 64 % 64) * 64 +
          n % 64 = n := by omega
      have hfirst : n / 65536 = a.toNat := by omega
      have hsecond : n / 256 % 256 = b.toNat := by omega
      have hthird : n % 256 = c.toNat := by omega
      simp [hsum, hfirst, hsecond, hthird,
        base64Char_ne_equals (n / 64 % 64) (by omega),
        base64Char_ne_equals (n % 64) (by omega)]

end Value

end Specimen
