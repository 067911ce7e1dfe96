import LoxilbUi.Library.JsValue

-- types/ai_gateway.ts, on band triples: critical:standard:sheddable.

namespace AIGateway

-- The parts of a text that `/^\d+:\d+:\d+$/` accepts.
def tripleParts (text : String) : Option (List (List Char)) :=
  let parts := text.toList.splitOn ':'
  if parts.length = 3 && parts.all fun part => part ≠ [] && part.all Char.isDigit then some parts
  else none

def isResetBandTriple (parts : List (List Char)) : Bool :=
  parts.all fun part => (JsNumber.ofDigits part).strictEq 0

def canonicalBandTriple (value : JsValue) : Option String :=
  match value with
  | .undefined | .null | .string "" => none
  | .string text =>
    match tripleParts text with
    | none       => some text
    | some parts =>
      if isResetBandTriple parts then none
      else some <| ":".intercalate <| parts.map fun part => (JsNumber.ofDigits part).toText
  | value => some value.toText

end AIGateway
