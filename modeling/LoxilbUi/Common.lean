import LoxilbUi.Library.Ipv6
import LoxilbUi.Library.JsNumber
import LoxilbUi.Library.JsString
import LoxilbUi.Library.Regex
import Mathlib.Data.Int.ModEq
import Mathlib.Data.Nat.Digits.Defs

-- common.ts, on the hash that row ids are made of and on the texts of addresses.

namespace Common

-- `n | 0`
def toInt32 (n : Int) : Int :=
  n.bmod (2 ^ 32)

def hashStep (hash : Int) (unit : Nat) : Int :=
  toInt32 (toInt32 (hash * 2 ^ 5) - hash + unit)

def getStableHash (str : String) : Nat :=
  ((JsString.codeUnits str).foldl hashStep 0 % 2 ^ 32).toNat

-- The code units of a text, read as the digits of a number.
def numeral (str : String) : Nat :=
  Nat.ofDigits 31 (JsString.codeUnits str).reverse

section Hash

variable {hash : Int} {unit : Nat} {units : List Nat} {s t : String}

theorem toInt32_modEq (n : Int) : toInt32 n ≡ n [ZMOD 2 ^ 32] :=
  Int.bmod_emod

theorem hashStep_modEq : hashStep hash unit ≡ 31 * hash + unit [ZMOD 2 ^ 32] := by
  have h := (((toInt32_modEq <| hash * 2 ^ 5).sub_right hash).add_right unit)
  refine (toInt32_modEq _).trans <| h.trans ?_
  rw [show hash * 2 ^ 5 - hash + unit = 31 * hash + unit by ring]

-- Each step appends a digit, up to a multiple of the word size.
theorem foldl_hashStep_modEq :
    units.foldl hashStep 0 ≡ (Nat.ofDigits 31 units.reverse : Nat) [ZMOD 2 ^ 32] := by
  induction units using List.reverseRecOn
  case nil => rfl
  case append_singleton units unit hi =>
    rw [List.foldl_concat, List.reverse_concat, Nat.ofDigits_cons]
    refine hashStep_modEq.trans ?_
    rw [Nat.cast_add, Nat.cast_mul, Int.add_comm]
    exact (hi.mul_left 31).add_left unit

theorem getStableHash_eq : getStableHash s = numeral s % 2 ^ 32 := by
  have h : (JsString.codeUnits s).foldl hashStep 0 % 2 ^ 32 = ((numeral s % 2 ^ 32 : Nat) : Int) := by
    rw [foldl_hashStep_modEq]
    rfl
  rw [getStableHash, h, Int.toNat_natCast]

theorem getStableHash_eq_iff : getStableHash s = getStableHash t ↔ numeral s ≡ numeral t [MOD 2 ^ 32] := by
  rw [getStableHash_eq, getStableHash_eq, Nat.ModEq]

end Hash

section Addresses

open Regex Ipv6

def digit : Regex :=
  range '0' '9'

def ipv4Octet : Regex :=
  anyOf [
    seq (text "25") <| range '0' '5',
    seq (char '2') <| seq (range '0' '4') digit,
    seq (opt <| one (· ∈ ['0', '1'])) <| seq digit <| opt digit]

def ipv4Regex : Regex :=
  seq ipv4Octet <| seq (char '.') <| seq ipv4Octet <| seq (char '.') <| seq ipv4Octet <| seq (char '.') ipv4Octet

def isValidIPv4 (ip : List Char) : Bool :=
  ipv4Regex.test ip

-- `[0-9a-fA-F]{1,4}`
def hexGroup : Regex :=
  rep 1 3 <| one isHex

def hexColon : Regex :=
  seq hexGroup <| char ':'

def colonHex : Regex :=
  seq (char ':') hexGroup

-- `25[0-5]|(2[0-4]|1{0,1}[0-9]){0,1}[0-9]`
def embeddedOctet : Regex :=
  alt (seq (text "25") <| range '0' '5') <|
    seq (opt <| alt (seq (char '2') <| range '0' '4') <| seq (opt <| char '1') digit) digit

def embeddedIpv4 : Regex :=
  seq (rep 3 0 <| seq embeddedOctet <| char '.') embeddedOctet

def scopedForm : Regex :=
  seq (text "fe80:") <| seq (rep 0 4 <| seq (char ':') <| rep 0 4 <| one isHex) <|
    seq (char '%') <| plus <| one Char.isAlphanum

def mappedForm : Regex :=
  seq (text "::") <| seq (opt <| seq (text "ffff") <| seq (opt <| seq (char ':') <| rep 1 3 <| char '0') <| char ':')
    embeddedIpv4

def embeddedForm : Regex :=
  seq (rep 1 3 hexColon) <| seq (char ':') embeddedIpv4

def ipv6Forms : List Regex :=
  [
    seq (rep 7 0 hexColon) hexGroup,
    seq (rep 1 6 hexColon) <| char ':',
    seq (rep 1 5 hexColon) colonHex,
    seq (rep 1 4 hexColon) <| rep 1 1 colonHex,
    seq (rep 1 3 hexColon) <| rep 1 2 colonHex,
    seq (rep 1 2 hexColon) <| rep 1 3 colonHex,
    seq (rep 1 1 hexColon) <| rep 1 4 colonHex,
    seq hexColon <| rep 1 5 colonHex,
    seq (char ':') <| alt (rep 1 6 colonHex) <| char ':',
    scopedForm, mappedForm, embeddedForm]

def ipv6Regex : Regex :=
  anyOf ipv6Forms

def isValidIPv6 (ip : List Char) : Bool :=
  ipv6Regex.test ip

def isValidIPAddress (ip : List Char) : Bool :=
  if ip = [] then false else isValidIPv4 ip || isValidIPv6 ip

-- A port that is given as a number.
def isValidPort (port : JsNumber) : Bool :=
  port ≠ .nan && !port.lt 0 && !JsNumber.lt 65535 port && port.isInteger

end Addresses

end Common
