import LoxilbUi.Library.JsNumber
import LoxilbUi.Library.JsString
import LoxilbUi.Library.Pattern
import LoxilbUi.Observability.Snapshot

-- observability/parser.ts, on the values of an exposition.

namespace Parser

open Observability Pattern

section Number

def exponentOf : List Char → Int
  | '-' :: ds => -Nat.ofDigitChars 10 ds 0
  | '+' :: ds => Nat.ofDigitChars 10 ds 0
  | ds        => Nat.ofDigitChars 10 ds 0

def unsignedOf (t : List Char) : ℚ :=
  let parts := Decimal.cut 'e' <| t.map fun c => if c = 'E' then 'e' else c
  let mantissa := Decimal.cut '.' parts.1
  Decimal.denotes mantissa.1 mantissa.2 <| exponentOf parts.2

-- `Number(text)` of a text of an exposition: the language writes infinity out in full, and so it
-- reads neither of the names as a number.
def numberOf (t : List Char) : Value :=
  if 'N' ∈ t || 'I' ∈ t then .nan
  else
    .ofRat <| match t with
      | '-' :: t => -unsignedOf t
      | '+' :: t => unsignedOf t
      | t        => unsignedOf t

end Number

section Value

def isSign (c : Char) : Bool :=
  c = '+' || c = '-'

def sign : Pattern :=
  opt <| one isSign

def exponent : Pattern :=
  seq (one fun c => c = 'e' || c = 'E') <| seq sign <| plus Char.isDigit

-- `(?:\d+\.?\d*|\.\d+)`
def mantissa : Pattern :=
  alt (seq (plus Char.isDigit) <| seq (opt <| char '.') <| many Char.isDigit)
    (seq (char '.') <| plus Char.isDigit)

def decimal : Pattern :=
  seq sign <| seq mantissa <| opt exponent

-- `/^([+-]?(?:\d+\.?\d*|\.\d+)(?:[eE][+-]?\d+)?|[+-]?[Ii]nf(?:inity)?|[Nn][aA][nN])$/`
def valueRe : Pattern :=
  alt decimal <| alt
    (seq sign <| seq (one (· ∈ ['I', 'i'])) <| seq (Pattern.text 'n' ['f']) <|
      opt <| Pattern.text 'i' ['n', 'i', 't', 'y'])
    (seq (one (· ∈ ['N', 'n'])) <| seq (one (· ∈ ['a', 'A'])) <| one (· ∈ ['n', 'N']))

def parseValue (token : List Char) : Option Value :=
  if (matchWhole valueRe token).isNone then none
  else if search (seq (one (· ∈ ['I', 'i'])) <| Pattern.text 'n' ['f']) token then
    some <| .infinity <| token.head? = some '-'
  else if search (seq (one (· ∈ ['N', 'n'])) <| seq (one (· ∈ ['a', 'A'])) <| one (· ∈ ['n', 'N'])) token then
    some .nan
  else match numberOf token with
    | .nan => none
    | n    => some n

end Value

end Parser
