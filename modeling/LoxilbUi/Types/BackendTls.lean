import LoxilbUi.Library.JsString
import LoxilbUi.Types.LoadBalancer

-- types/backend_tls.ts: backend TLS on a rule. What reads a member that is not of its type throws:
-- `none`.

namespace BackendTls

open LoadBalancer

def backendTlsStringFields : List String :=
  ["backend_ca_cert_id", "backend_client_cert_id", "backend_tls_server_name"]

def isCertId (s : String) : Bool :=
  if JsString.trim s = "" || s.utf8ByteSize > 63 then false
  else s.toList.all (fun c => c.val ∉ [0x2F, 0x5C, 0]) && s ≠ "." && !JsString.includes s ".."

-- `/^[A-Za-z0-9]([A-Za-z0-9-]*[A-Za-z0-9])?$/`
def isDnsLabel (label : List Char) : Bool :=
  label.all (fun c => c.isAlphanum || c = '-') && label.head?.any Char.isAlphanum &&
    label.getLast?.any Char.isAlphanum

-- `/^\d{1,3}(\.\d{1,3}){3}$/`
def isIPv4 (name : String) : Bool :=
  let parts := name.toList.splitOn '.'
  parts.length = 4 && parts.all fun part => part ≠ [] && part.length ≤ 3 && part.all Char.isDigit

-- `(value ?? '').trim()`
def text : JsValue → Option String
  | .undefined | .null => some ""
  | .string s          => some <| JsString.trim s
  | _                  => none

-- A property of the re-encrypting leg: fullproxy with e2ehttps.
def backendTlsApplies (args : JsObject) : Bool :=
  (args.get "mode").strictEq (.number 4) && (args.get "security").strictEq (.number 2)

def verifies (args : JsObject) : Bool :=
  ((args.get "mtls_backend").get "verify_server_cert").truthy

def serverNameIssue (name : String) : Option String :=
  if JsString.length name > 253 then
    some "The backend TLS server name is longer than 253 characters."
  else if isIPv4 name || JsString.includes name ":" then
    some ("The backend TLS server name must be a DNS name, not an address. Leave it empty to match " ++
      "the endpoint address.")
  else if !(name.toList.splitOn '.').all fun label => label.length ≤ 63 && isDnsLabel label then
    some "The backend TLS server name is not a DNS host name."
  else none

-- Off the re-encrypting leg there is nothing to judge.
def validateBackendTls (args : JsObject) : Option (List ValidationIssue) :=
  if !backendTlsApplies args then some []
  else do
    let ca ← text <| args.get "backend_ca_cert_id"
    let client ← text <| args.get "backend_client_cert_id"
    let name ← text <| args.get "backend_tls_server_name"
    let verify := verifies args
    if !verify && ca = "" && client = "" && name = "" then return []
    let nameIssue := if name = "" then none else serverNameIssue name
    return issueIf (verify && ca = "") "backend_ca_cert_id"
        "Backend verification needs a CA certificate ID: there is no default trust store." ++
      issueIf (!verify && ca ≠ "") "backend_ca_cert_id"
        "A backend CA certificate ID has no effect unless backend verification is on." ++
      issueIf (ca ≠ "" && !isCertId ca) "backend_ca_cert_id"
        "The backend CA certificate ID is not a valid certificate ID." ++
      issueIf (client ≠ "" && !isCertId client) "backend_client_cert_id"
        "The backend client certificate ID is not a valid certificate ID." ++
      (nameIssue.map (⟨"backend_tls_server_name", ·⟩)).toList

-- One string member: blank is nothing asked, and off the leg it does not travel.
def serializeText (applies : Bool) (args : JsObject) (result : JsObject) (field : String) :
    Option JsObject := do
  let value ← text <| args.get field
  return if !applies || value = "" then result.delete [field] else result.set field (.string value)

def serializeVerification (applies : Bool) (result : JsObject) : JsValue → Option JsObject
  | .undefined => some result
  | .object ms =>
    let retired := ms.filter (·.1 ≠ "verify_server_cert")
    let kept :=
      if applies && ((JsValue.object ms).get "verify_server_cert").truthy then
        retired ++ [("verify_server_cert", .bool true)]
      else retired
    if kept = [] then some <| result.delete ["mtls_backend"]
    else some <| result.set "mtls_backend" (.object kept)
  -- Not of its type.
  | _ => none

def serializeBackendTls (args : JsObject) : Option JsObject := do
  let applies := backendTlsApplies args
  let result ← backendTlsStringFields.foldlM (serializeText applies args) args
  serializeVerification applies result <| args.get "mtls_backend"

end BackendTls
