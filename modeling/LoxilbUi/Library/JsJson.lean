import LoxilbUi.Library.JsString
import LoxilbUi.Library.JsValue

-- `JSON.stringify`, without an indent. What is left out of the text is `none`.

namespace JsValue

def hexDigit (n : Nat) : Char :=
  if n < 10 then .ofNat (0x30 + n) else .ofNat (0x57 + n)

-- The characters that have an escape of their own, with the letter of it.
def escapes : List (Nat × Char) :=
  [(0x08, 'b'), (0x09, 't'), (0x0A, 'n'), (0x0C, 'f'), (0x0D, 'r'), (0x22, .ofNat 0x22),
    (0x5C, .ofNat 0x5C)]

def escape (c : Char) : List Char :=
  match escapes.lookup c.toNat with
  | some d => [.ofNat 0x5C, d]
  | none   =>
    if c.toNat < 0x20 then
      [.ofNat 0x5C, 'u', '0', '0', hexDigit (c.toNat / 16), hexDigit (c.toNat % 16)]
    else [c]

def quote (s : String) : String :=
  .ofList <| .ofNat 0x22 :: (s.toList.flatMap escape ++ [.ofNat 0x22])

mutual

def stringify : JsValue → Option String
  | undefined          => none
  | null               => some "null"
  | bool b             => some <| if b then "true" else "false"
  | number (.finite d) => some d.text
  | number _           => some "null"
  | string s           => some <| quote s
  | array vs           => some <| "[" ++ JsString.joinComma (stringifyItems vs) ++ "]"
  | object ms          => some <| "\x7b" ++ JsString.joinComma (stringifyMembers ms) ++ "\x7d"

def stringifyItems : List JsValue → List String
  | []      => []
  | v :: vs => v.stringify.getD "null" :: stringifyItems vs

def stringifyMembers : List (String × JsValue) → List String
  | []             => []
  | (key, v) :: ms =>
    match v.stringify with
    | some t => (quote key ++ ":" ++ t) :: stringifyMembers ms
    | none   => stringifyMembers ms

end

end JsValue
