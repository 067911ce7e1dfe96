import LoxilbUi.Library.JsDouble
import LoxilbUi.Library.JsString
import LoxilbUi.Library.JsValue

-- `Number` of a text and of any value: the decimals with and without an exponent, the numbers in a base that is told, and infinity.

namespace JsNumber

-- The digits of a number in a base up to sixteen.
def digitValue (c : Char) : Nat :=
  if c.isDigit then c.toNat - 48 else if c.isUpper then c.toNat - 55 else c.toNat - 87

def isRadixDigit (base : Nat) (c : Char) : Bool :=
  c.isAlphanum && digitValue c < base

def radixOf (c : Char) : Option Nat :=
  if c = 'x' || c = 'X' then some 16
  else if c = 'o' || c = 'O' then some 8
  else if c = 'b' || c = 'B' then some 2
  else none

def inRadix (base : Nat) (digits : List Char) : Nat :=
  digits.foldl (fun n c => n * base + digitValue c) 0

def wholeOf (digits : List Char) : Option Nat :=
  if digits = [] || !digits.all Char.isDigit then none else some <| Nat.ofDigitChars 10 digits 0

def exponentOf : List Char → Option Int
  | []     => some 0
  | c :: l =>
    if c ≠ 'e' && c ≠ 'E' then none
    else match l with
      | '-' :: digits => (wholeOf digits).map fun n => -n
      | '+' :: digits => (wholeOf digits).map fun n => n
      | digits        => (wholeOf digits).map fun n => n

-- `digits[.digits][e[sign]digits]`, with a digit on one side of the point.
def unsignedOf (l : List Char) : Option ℚ :=
  let whole := l.takeWhile Char.isDigit
  let (fraction, l) := match l.dropWhile Char.isDigit with
    | '.' :: l => (l.takeWhile Char.isDigit, l.dropWhile Char.isDigit)
    | l        => ([], l)
  if whole = [] && fraction = [] then none
  else (exponentOf l).map <| Decimal.denotes whole fraction

def signed (negative : Bool) (l : List Char) : JsNumber :=
  if l = "Infinity".toList then infinity negative
  else match unsignedOf l with
    | some q => ofRat <| if negative then -q else q
    | none   => nan

def ofText (text : String) : JsNumber :=
  match (JsString.trim text).toList with
  | []            => 0
  | '-' :: l      => signed true l
  | '+' :: l      => signed false l
  | '0' :: c :: l =>
    match radixOf c with
    | some base => if l = [] || !l.all (isRadixDigit base) then nan else ofRat <| inRadix base l
    | none      => signed false <| '0' :: c :: l
  | l             => signed false l

end JsNumber

-- `Number(value)`
def JsValue.toNumber : JsValue → JsNumber
  | .undefined => .nan
  | .null      => 0
  | .bool b    => if b then 1 else 0
  | .number n  => n
  | v          => .ofText v.toText

example : (["", " 1.0 ", "0x1", "1e0", "010", ".5"].map JsNumber.ofText).map JsNumber.toText =
    ["0", "1", "1", "1", "10", "0.5"] := by decide +kernel
example : (["1e", "0x", "1 2", ".", "-0x1", "0b12"].map JsNumber.ofText).all (· = .nan) := by decide +kernel
