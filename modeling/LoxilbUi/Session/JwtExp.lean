import LoxilbUi.Library.Base64
import LoxilbUi.Library.JsDouble
import LoxilbUi.Library.JsString
import LoxilbUi.Library.JsValue

-- session/session.ts: when a token expires, as it says of itself.

namespace Session

-- The text whose characters are the bytes.
def binaryString (b : List UInt8) : String :=
  .ofList <| b.map fun x => Char.ofNat x.toNat

-- `.replace(/-/g, '+').replace(/_/g, '/')`
def toBase64 (x : Char) : Char :=
  if x = '-' then '+' else if x = '_' then '/' else x

-- Epoch milliseconds. `parse` is `JSON.parse`, which throws where it is `none`.
def parseJwtExp (parse : String → Option JsValue) (token : String) : Except String JsNumber :=
  match (JsString.split token '.')[1]? with
  | none | some "" => .error "malformed token: no payload segment"
  | some payload   =>
    let base64 := String.ofList <| payload.toList.map toBase64
    let normalized := base64 ++ .ofList (.replicate ((4 - JsString.length base64 % 4) % 4) '=')
    match (Base64.atob normalized).bind fun b => parse (binaryString b) with
    | none        => .error "malformed token: payload is not base64-encoded JSON"
    | some claims =>
      match claims.get "exp" with
      | .number (.finite d) => .ok <| (JsNumber.finite d).mul 1000
      | _                   => .error "malformed token: exp is missing or not a finite number"

end Session
