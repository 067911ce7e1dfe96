import LoxilbUi.Library.Ipv6
import LoxilbUi.Library.JsString
import LoxilbUi.Library.JsValue

-- types/network_prefix.ts: the identity of a network prefix. `hostname` is what the URL parser makes
-- of an address between brackets: its text with the brackets, or nothing where it throws.

namespace NetworkPrefix

open Ipv6

inductive Family
  | v4
  | v6
  deriving DecidableEq

def Family.text : Family → String
  | v4 => "v4"
  | v6 => "v6"

-- `/^\d+$/`
def isDigits (s : List Char) : Bool :=
  s ≠ [] && s.all Char.isDigit

-- `/^(0|[1-9]\d{0,2})$/`, and at most 255.
def isOctet (s : List Char) : Bool :=
  (s = ['0'] || (isDigits s && s.length ≤ 3 && s.head? ≠ some '0')) && Nat.ofDigitChars 10 s 0 ≤ 255

def v4 (text : List Char) : Option (List Nat) :=
  let octets := text.splitOn '.'
  if octets.length = 4 && octets.all isOctet then some <| octets.map (Nat.ofDigitChars 10 · 0)
  else none

-- `ip.slice(ip.lastIndexOf(':') + 1)`
def afterLastColon (ip : List Char) : List Char :=
  (ip.reverse.takeWhile (· ≠ ':')).reverse

def isLiteral (ip : List Char) : Bool :=
  ip ≠ [] && (ip.all fun c => isHex c || c = ':' || c = '.') &&
    ('.' ∉ ip || (v4 <| afterLastColon ip).isSome)

def unitsOf (text : List Char) : List Nat :=
  if text = [] then [] else (text.splitOn ':').map parseHex

-- The units of a text, with as many zeros between its two halves as are left out.
def expand (host : List Char) : List Nat :=
  match splitDouble host with
  | left :: right :: _ =>
    let a := unitsOf left
    let b := unitsOf right
    a ++ List.replicate (8 - a.length - b.length) 0 ++ b
  | [left]             => unitsOf left
  | []                 => []

-- An address as units of `width` bits.
structure Reading where
  units  : List Nat
  width  : Nat
  family : Family

def readAddress (hostname : String → Option String) (ip : List Char) : Option Reading :=
  if ':' ∈ ip then
    if !isLiteral ip then none
    else (hostname <| .ofList ip).map fun host =>
      { units := expand (host.toList.drop 1).dropLast, width := 16, family := .v6 }
  else (v4 ip).map fun units => { units := units, width := 8, family := .v4 }

-- The address and the length, which is the whole address where none is written.
def readPrefix (hostname : String → Option String) (input : String) : Option (Reading × Nat) :=
  match (JsString.trim input).toList.splitOn '/' with
  | [ip]         => (readAddress hostname ip).map fun r => (r, r.units.length * r.width)
  | [ip, length] =>
    if !isDigits length then none
    else (readAddress hostname ip).bind fun r =>
      let bits := Nat.ofDigitChars 10 length 0
      if bits > r.units.length * r.width then none else (r, bits)
  | _            => none

-- An IPv4-mapped prefix of length 96 or more is the IPv4 prefix.
def unmap (r : Reading) (bits : Nat) : Reading × Nat :=
  if r.family = .v6 && 96 ≤ bits && (r.units.take 5).all (· = 0) && r.units.getD 5 0 = 65535 then
    let high := r.units.getD 6 0
    let low  := r.units.getD 7 0
    ({ units := [high >>> 8, high &&& 255, low >>> 8, low &&& 255], width := 8, family := .v4 },
      bits - 96)
  else (r, bits)

-- The bits of the unit at `i` that are among the first `bits`.
def maskUnit (width bits i n : Nat) : Nat :=
  let keep := min width (bits - i * width)
  if keep = 0 then 0 else n &&& (((1 <<< keep) - 1) <<< (width - keep))

def prefixKey (r : Reading) (bits : Nat) : String :=
  let masked := r.units.mapIdx (maskUnit r.width bits)
  r.family.text ++ ":" ++ ":".intercalate (masked.map Nat.repr) ++ "/" ++ bits.repr

def networkPrefixKey (hostname : String → Option String) (input : String) : Option String :=
  (readPrefix hostname input).map fun (r, bits) =>
    let (r, bits) := unmap r bits
    prefixKey r bits

-- What is not a text has no key.
def keyOfValue (hostname : String → Option String) : JsValue → Option String
  | .string s => networkPrefixKey hostname s
  | _         => none

end NetworkPrefix
