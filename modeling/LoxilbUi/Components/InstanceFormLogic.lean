import LoxilbUi.Library.Ipv6
import LoxilbUi.Library.JsValue
import LoxilbUi.Library.JsString
import LoxilbUi.Library.Regex

-- components/input/instanceFormLogic.ts: what the form of an instance accepts, and the endpoint that is
-- made of it. `lower` is what the language makes of a text in lower case.

namespace InstanceForm

open Ipv6 Regex

def isLowerOrDigit (c : Char) : Bool :=
  c.isLower || c.isDigit

section Grammars

def nameRe : Regex :=
  seq (one Char.isAlphanum) <| many <| one fun c => c.isAlphanum || c ∈ ['.', '_', '-']

def nameMax : Nat := 63

def dnsLabelRe : Regex :=
  seq (one Char.isAlphanum) <| opt <| seq (rep 0 61 <| one fun c => c.isAlphanum || c = '-') <|
    one Char.isAlphanum

def versionRe : Regex :=
  seq (char 'v') <| rep 1 2 <| one Char.isDigit

def imagePathComponent : Regex :=
  let separator := alt (one (· ∈ ['.', '_'])) <| alt (seq (char '_') <| char '_') <| plus <| char '-'
  seq (plus <| one isLowerOrDigit) <| many <| seq separator <| plus <| one isLowerOrDigit

def imageRegistry : Regex :=
  let label := seq (one Char.isAlphanum) <| opt <|
    seq (many <| one fun c => c.isAlphanum || c = '-') <| one Char.isAlphanum
  seq label <| seq (many <| seq (char '.') label) <| opt <| seq (char ':') <| rep 1 4 <| one Char.isDigit

def imageRe : Regex :=
  seq (opt <| seq imageRegistry <| char '/') <| seq imagePathComponent <|
    many <| seq (char '/') imagePathComponent

def imageMax : Nat := 255

def tagRe : Regex :=
  seq (one fun c => c.isAlphanum || c = '_') <| rep 0 127 <| one fun c => c.isAlphanum || c ∈ ['.', '_', '-']

def descriptionMax : Nat := 1024

def hostMax : Nat := 253

def protocols : List String :=
  ["http", "https"]

end Grammars

section Addresses

def isIpv4Octet (part : List Char) : Bool :=
  if !(rep 1 2 <| one Char.isDigit).test part then false
  -- Some resolvers read an octet that begins with a zero as octal.
  else if 1 < part.length && part.head? = some '0' then false
  else Nat.ofDigitChars 10 part 0 ≤ 255

def isValidIpv4 (value : List Char) : Bool :=
  let parts := value.splitOn '.'
  if parts.length ≠ 4 then false else parts.all isIpv4Octet

def groupsOf (segment : List Char) : List (List Char) :=
  if segment = [] then [] else segment.splitOn ':'

-- The groups of `head`, and `tailGroups` more behind it.
def isGrouped (head : List Char) (tailGroups : Nat) : Bool :=
  let elided := decide <| [':', ':'] <:+: head
  let (left, right) :=
    match if elided then splitDouble head else [head] with
    | left :: right :: _ => (left, right)
    | [left]             => (left, [])
    | []                 => ([], [])
  let groups := groupsOf left ++ groupsOf right
  let total := groups.length + tailGroups
  groups.all (rep 1 3 <| one isHex).test && if elided then total ≤ 7 else total = 8

def isValidIpv6 (value : List Char) : Bool :=
  if value = [] || ':' ∉ value then false
  else if value.any fun c => !(isHex c || c = ':' || c = '.') then false
  -- `(value.match(/::/g) ?? []).length > 1`
  else if 1 < (splitDouble value).length - 1 then false
  else
    -- A dotted quad at the end counts as two groups.
    let tail := JsString.afterLast ':' value
    let head := JsString.beforeLast ':' value
    if '.' ∈ tail then
      if !isValidIpv4 tail then false
      else if head = [] then false
      else isGrouped head 2
    else isGrouped value 0

def isValidHostname (value : List Char) : Bool :=
  if value = [] || hostMax < JsString.length (.ofList value) then false
  else if value.getLast? = some '.' then false
  else
    let labels := value.splitOn '.'
    if !labels.all dnsLabelRe.test then false
    -- A name of more than one label that ends in a number is a mistyped address.
    else if 1 < labels.length && (plus <| one Char.isDigit).test (labels.getLastD []) then false
    else true

def isValidHost (value : List Char) : Bool :=
  if value.head? = some '[' && value.getLast? = some ']' then
    isValidIpv6 (value.drop 1).dropLast
  else isValidIpv4 value || isValidHostname value

def isValidPort (value : List Char) : Bool :=
  if !(rep 1 4 <| one Char.isDigit).test value then false
  else if 1 < value.length && value.head? = some '0' then false
  else
    let port := Nat.ofDigitChars 10 value 0
    1 ≤ port && port ≤ 65535

def isValidProtocol (value : String) : Bool :=
  value ∈ protocols

end Addresses

def buildApiEndpoint (protocol host port version : String) : String :=
  protocol ++ "://" ++ host ++ ":" ++ port ++ "/netlox/" ++ version

section Form

structure InstanceFormErrors where
  name        : Option String
  host        : Option String
  port        : Option String
  protocol    : Option String
  version     : Option String
  cimage      : Option String
  ctag        : Option String
  description : Option String
  form        : Option String
  deriving DecidableEq

def trim (v : JsValue) : String :=
  if v.isNil then "" else JsString.trim v.toText

-- The message of the first check that a text fails.
def firstOf (checks : List (Bool × String)) : Option String :=
  (checks.find? Prod.fst).map Prod.snd

def validateName (raw : String) : Option String :=
  firstOf [
    (raw = "", "Required"),
    (nameMax < JsString.length raw, "Name must be at most " ++ nameMax.repr ++ " characters."),
    (!nameRe.test raw.toList, "Name may contain letters, digits, dot, dash and underscore, and must start with a letter or digit.")]

def validateHost (raw : String) : Option String :=
  firstOf [
    (raw = "", "Required"),
    (JsString.includes raw "://", "Enter the host only — no scheme (http:// or https://)."),
    (JsString.includes raw "/", "Enter the host only — no path."),
    (raw.toList.any JsString.isBlank, "Host must not contain spaces."),
    (!JsString.startsWith raw "[" && isValidIpv6 raw.toList, "Wrap an IPv6 address in brackets, e.g. [2001:db8::1]."),
    ((seq (plus <| one fun c => c ≠ '[' && c ≠ ']') <| seq (char ':') <| plus <| one Char.isDigit).test raw.toList,
      "Enter the host only — put the port in the Port field."),
    (hostMax < JsString.length raw, "Host must be at most " ++ hostMax.repr ++ " characters."),
    (!isValidHost raw.toList, "Enter a valid hostname, IPv4 address, or bracketed IPv6 address.")]

def validatePort (raw : String) : Option String :=
  firstOf [
    (raw = "", "Required"),
    (!(plus <| one Char.isDigit).test raw.toList, "Port must be a number."),
    (!isValidPort raw.toList, "Invalid port number.")]

def validateVersion (raw : String) : Option String :=
  firstOf [
    (raw = "", "Required"),
    (!versionRe.test raw.toList, "API version must look like 'v1'.")]

variable (lower : String → String)

def validateCimage (raw : String) : Option String :=
  firstOf [
    (raw = "", "Required"),
    (imageMax < JsString.length raw, "Container image must be at most " ++ imageMax.repr ++ " characters."),
    (raw.toList.any JsString.isBlank, "Container image must not contain spaces."),
    -- A colon before the last slash is the port of a registry.
    (':' ∈ (raw.toList.splitOn '/').getLastD [], "Put the tag in the Tag field — the image must not include \":tag\"."),
    (raw ≠ lower raw, "Container image must be lowercase."),
    (!imageRe.test raw.toList, "Enter a valid image reference, e.g. ghcr.io/loxilb-io/loxilb.")]

def validateCtag (raw : String) : Option String :=
  firstOf [
    (raw = "", "Required"),
    (!tagRe.test raw.toList, "Tag may contain letters, digits, dot, dash and underscore (e.g. 'latest').")]

def validateDescription (raw : String) : Option String :=
  firstOf [
    (descriptionMax < JsString.length raw, "Description must be at most " ++ descriptionMax.repr ++ " characters.")]

-- The endpoint of a listed instance, or what it would be.
def existingEndpoint (item : JsObject) : String :=
  let endpoint := trim <| item.get "api_endpoint"
  let textOf (field : String) := (item.get field).toText
  if endpoint ≠ "" then endpoint
  else buildApiEndpoint (textOf "protocol") (textOf "host") (textOf "port") (textOf "version")

-- The instance that is edited is not its own duplicate.
def others (existing : List JsObject) (editing_id : JsValue) : List JsObject :=
  existing.filter fun item => !(item.get "id").strictEq editing_id

def endpointOf (form : JsObject) : String :=
  buildApiEndpoint (trim <| form.get "protocol") (trim <| form.get "host") (trim <| form.get "port")
    (trim <| form.get "version")

def fieldErrors (form : JsObject) : InstanceFormErrors :=
  let value (field : String) := trim <| form.get field
  { name        := validateName <| value "name"
    host        := validateHost <| value "host"
    port        := validatePort <| value "port"
    protocol    := if isValidProtocol <| value "protocol" then none else some "Select http or https."
    version     := validateVersion <| value "version"
    cimage      := validateCimage lower <| value "cimage"
    ctag        := validateCtag <| value "ctag"
    description := validateDescription <| value "description"
    form        := none }

-- Two names that differ in case only would lead to one instance.
def checkName (form : JsObject) (others : List JsObject) (errors : InstanceFormErrors) : InstanceFormErrors :=
  let name := trim <| form.get "name"
  if errors.name = none && others.any fun item => lower (trim <| item.get "name") = lower name then
    { errors with name := some ("An instance named '" ++ name ++ "' already exists.") }
  else errors

def checkEndpoint (form : JsObject) (others : List JsObject) (errors : InstanceFormErrors) : InstanceFormErrors :=
  if errors.host = none && errors.port = none && errors.protocol = none && errors.version = none then
    let endpoint := endpointOf form
    match others.find? fun item => lower (existingEndpoint item) = lower endpoint with
    | some clash =>
      { errors with
        form := some ("Instance '" ++ (clash.get "name").toText ++ "' is already registered at " ++ endpoint ++ ".") }
    | none       => errors
  else errors

def validateInstanceForm (form : JsObject) (existing : List JsObject) (editing_id : JsValue) : InstanceFormErrors :=
  let others := others existing editing_id
  checkEndpoint lower form others <| checkName lower form others <| fieldErrors lower form

def noErrors : InstanceFormErrors :=
  ⟨none, none, none, none, none, none, none, none, none⟩

def hasErrors (errors : InstanceFormErrors) : Bool :=
  errors ≠ noErrors

end Form

end InstanceForm
