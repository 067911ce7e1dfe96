import LoxilbUi.Library.Dict
import LoxilbUi.Library.JsString
import LoxilbUi.Library.Regex
import LoxilbUi.Library.SafeInteger
import LoxilbUi.Types.AI

-- types/audit_config.ts: the policy and the sinks of the audit trail, as forms, as what is sent, and as what
-- the gateway reads back. The gateway leaves every member out that is zero or empty.

namespace AuditConfig

inductive AuditInputError
  | notWhole
  | tooLarge
  | belowSegment
  | required
  | address
  | pair
  | name
  | reservedName
  | outOfRange
  | service
  deriving DecidableEq

def zeroIfAbsent : Option JsNumber → JsNumber
  | some (.finite d) => .finite d
  | _                => 0

-- `/^\d+$/`
def whole : Regex :=
  Regex.plus <| .one Char.isDigit

def wholeNumber (text : String) (max : JsNumber) : Except AuditInputError JsNumber :=
  let trimmed := (JsString.trim text).toList
  if !whole.test trimmed then .error .notWhole
  else
    let value := JsNumber.ofDigits trimmed
    if !AI.isSafeInteger value || max.lt value then .error .tooLarge else .ok value

def maxSafeInteger : JsNumber :=
  .ofNat JsNumber.maxSafe

section Policy

inductive AuditPolicyField
  | maxSegmentBytes
  | maxSegmentAgeSeconds
  | retentionMaxAgeSeconds
  | retentionMaxBytes
  | retentionReserveBytes
  | retentionMaxPrunePerPass
  deriving DecidableEq

def auditPolicyFields : List AuditPolicyField := [
  .maxSegmentBytes, .maxSegmentAgeSeconds, .retentionMaxAgeSeconds, .retentionMaxBytes, .retentionReserveBytes,
  .retentionMaxPrunePerPass]

abbrev AuditPolicyValues :=
  AuditPolicyField → JsNumber

abbrev AuditPolicyForm :=
  AuditPolicyField → String

-- A policy as it is read, with the members that are there.
abbrev AuditPolicy :=
  AuditPolicyField → Option JsNumber

def secondsFields : List AuditPolicyField :=
  [.maxSegmentAgeSeconds, .retentionMaxAgeSeconds]

def auditMaxSeconds : JsNumber :=
  .ofNat 9223372036

def maxOf (field : AuditPolicyField) : JsNumber :=
  if field ∈ secondsFields then auditMaxSeconds else maxSafeInteger

-- Zero deletions stand for the one that is built in.
def policyValues (read : AuditPolicy) : AuditPolicyValues := fun field =>
  let value := zeroIfAbsent (read field)
  if field = .retentionMaxPrunePerPass ∧ value.strictEq 0 then 1 else value

def policyForm (values : AuditPolicyValues) : AuditPolicyForm :=
  fun field => (values field).toText

structure ParsedPolicy where
  values : Option AuditPolicyValues
  errors : AuditPolicyField → Option AuditInputError

def parsePolicyForm (form : AuditPolicyForm) : ParsedPolicy :=
  let parsed (field : AuditPolicyField) := wholeNumber (form field) (maxOf field)
  let errors (field : AuditPolicyField) : Option AuditInputError := match parsed field with
    | .error e => some e
    | .ok _    => none
  -- Only read of fields without an error.
  let values (field : AuditPolicyField) : JsNumber := match parsed field with
    | .error _ => 0
    | .ok v    => v
  let below := errors .retentionMaxBytes = none ∧ errors .maxSegmentBytes = none ∧
    JsNumber.lt 0 (values .retentionMaxBytes) ∧ JsNumber.lt 0 (values .maxSegmentBytes) ∧
    (values .retentionMaxBytes).lt (values .maxSegmentBytes)
  let errors (field : AuditPolicyField) : Option AuditInputError :=
    if field = .retentionMaxBytes ∧ below then some .belowSegment else errors field
  if auditPolicyFields.any fun field => (errors field).isSome then ⟨none, errors⟩ else ⟨some values, errors⟩

-- What a gateway starts with: 64 MiB or a day to a segment, nothing kept back, one deletion at a time.
def auditPolicyStart : AuditPolicyValues
  | .maxSegmentBytes          => .ofNat 67108864
  | .maxSegmentAgeSeconds     => .ofNat 86400
  | .retentionMaxAgeSeconds   => 0
  | .retentionMaxBytes        => 0
  | .retentionReserveBytes    => 0
  | .retentionMaxPrunePerPass => 1

def policyDiff (sent : AuditPolicyValues) (read : AuditPolicy) : List AuditPolicyField :=
  auditPolicyFields.filter fun field =>
    !(policyValues (fun field => some (sent field)) field).strictEq (policyValues read field)

end Policy

section Sinks

inductive SinkText
  | address
  | caBundlePath
  | serverName
  | clientCertPath
  | clientKeyPath
  deriving DecidableEq

def sinkTextFields : List SinkText :=
  [.address, .caBundlePath, .serverName, .clientCertPath, .clientKeyPath]

inductive SinkNumber
  | facility
  | maxFrameBytes
  deriving DecidableEq

def sinkNumberFields : List SinkNumber :=
  [.facility, .maxFrameBytes]

structure SinkForm where
  text   : SinkText → String
  number : SinkNumber → String

structure NamedSinkForm extends SinkForm where
  name             : String
  enterpriseNumber : String
  streams          : List String
  services         : String
  outcome          : String
  dataSample       : String

structure SinkFilter where
  streams    : List String
  services   : List String
  outcome    : String
  dataSample : JsNumber
  deriving DecidableEq

@[ext]
structure SinkWrite where
  text   : SinkText → String
  number : SinkNumber → JsNumber

@[ext]
structure NamedSinkWrite extends SinkWrite where
  enterpriseNumber : JsNumber
  filter           : Option SinkFilter

-- What is sent: of the compliance sink (which is always enabled) or of a sink with a name.
inductive SinkSent
  | compliance (body : SinkWrite)
  | named (body : NamedSinkWrite)

-- A filter and a sink as they are read, with the members that are there.
structure FilterRead where
  streams    : Option (List String)
  services   : Option (List String)
  outcome    : Option String
  dataSample : Option JsNumber
  deriving DecidableEq

structure SinkRead where
  enabled          : Option Bool
  text             : SinkText → Option String
  number           : SinkNumber → Option JsNumber
  enterpriseNumber : Option JsNumber
  filter           : Option FilterRead

def auditMaxFacility : JsNumber :=
  .ofNat 23

def auditMaxFrameBytes : JsNumber :=
  .ofNat 1073741824

def auditMaxEnterpriseNumber : JsNumber :=
  .ofNat 4294967295

-- `/^[a-z0-9_-]{1,64}$/`
def auditSinkNameRe : Regex :=
  .rep 1 63 <| .one fun c => c.isLower || c.isDigit || c = '_' || c = '-'

def auditReservedSinkName : String :=
  "compliance"

-- `/^(\[[^\]\s]+\]|[^:\s[\]]+):\d{1,5}$/`
def hostPort : Regex :=
  .seq
    (.alt
      (.seq (.char '[') <| .seq (.plus <| .one fun c => c ≠ ']' && !JsString.isBlank c) <| .char ']')
      (.plus <| .one fun c => c ≠ ':' && !JsString.isBlank c && c ≠ '[' && c ≠ ']')) <|
    .seq (.char ':') <| .rep 1 4 <| .one Char.isDigit

def blankIfZero : Option JsNumber → String
  | some n => if n.strictEq 0 then "" else n.toText
  | none   => ""

def sinkForm (read : Option SinkRead) : SinkForm where
  text   := fun field => (read.bind (·.text field)).getD ""
  number := fun field => blankIfZero <| read.bind (·.number field)

def namedSinkForm (name : String) (read : Option SinkRead) : NamedSinkForm :=
  let filter := read.bind (·.filter)
  {
    toSinkForm       := sinkForm read
    name             := name
    enterpriseNumber := blankIfZero <| read.bind (·.enterpriseNumber)
    streams          := (filter.bind (·.streams)).getD []
    services         := ", ".intercalate <| (filter.bind (·.services)).getD []
    outcome          := (filter.bind (·.outcome)).getD ""
    dataSample       := blankIfZero <| filter.bind (·.dataSample)
  }

structure OptionalNumber where
  value : JsNumber
  error : Option AuditInputError

def optionalNumber (text : String) (min max : JsNumber) : OptionalNumber :=
  if JsString.trim text = "" then ⟨0, none⟩
  else match wholeNumber text maxSafeInteger with
    | .error e  => ⟨0, some e⟩
    | .ok value => if value.lt min || max.lt value then ⟨0, some .outOfRange⟩ else ⟨value, none⟩

-- The errors by the member they are of.
abbrev SinkErrors :=
  Dict AuditInputError

def note (key : String) (error : Option AuditInputError) (errors : SinkErrors) : SinkErrors :=
  match error with
  | some e => errors.set key e
  | none   => errors

def errorIf (c : Bool) (e : AuditInputError) : Option AuditInputError :=
  if c then some e else none

def parseShared (form : SinkForm) (errors : SinkErrors) : SinkWrite × SinkErrors :=
  let trimmed (field : SinkText) := JsString.trim (form.text field)
  let address := trimmed .address
  let cert := trimmed .clientCertPath
  let key := trimmed .clientKeyPath
  let facility := optionalNumber (form.number .facility) 0 auditMaxFacility
  let frame := optionalNumber (form.number .maxFrameBytes) 0 auditMaxFrameBytes
  let errors := errors
    |> note "address" (if address = "" then some .required else errorIf (!hostPort.test address.toList) .address)
    |> note "ca_bundle_path" (errorIf (trimmed .caBundlePath = "") .required)
    |> note (if cert = "" then "client_cert_path" else "client_key_path")
      (errorIf (decide (cert = "") ≠ decide (key = "")) .pair)
    |> note "facility" facility.error
    |> note "max_frame_bytes" frame.error
  let body : SinkWrite := {
    text   := trimmed
    number := fun
      | .facility      => facility.value
      | .maxFrameBytes => frame.value
  }
  (body, errors)

-- A sample of nothing or of every record keeps every record.
def normalFilter (filter : Option FilterRead) : Option SinkFilter :=
  let streams := (filter.bind (·.streams)).getD []
  let services := (filter.bind (·.services)).getD []
  let outcome := (filter.bind (·.outcome)).getD ""
  let held := zeroIfAbsent <| filter.bind (·.dataSample)
  let sample := if JsNumber.lt 1 held then held else 0
  if streams.length = 0 ∧ services.length = 0 ∧ outcome = "" ∧ sample.strictEq 0 then none
  else some ⟨streams, services, outcome, sample⟩

structure ParsedNamedSink where
  name   : Option String
  body   : Option NamedSinkWrite
  errors : SinkErrors

def parseNamedSinkForm (form : NamedSinkForm) : ParsedNamedSink :=
  let errors : SinkErrors := .empty
    |> note "name" (if form.name = auditReservedSinkName then some .reservedName
      else errorIf (!auditSinkNameRe.test form.name.toList) .name)
  let (shared, errors) := parseShared form.toSinkForm errors
  let enterprise := if JsString.trim form.enterpriseNumber = "" then ⟨0, some .required⟩
    else optionalNumber form.enterpriseNumber 1 auditMaxEnterpriseNumber
  let services := (JsString.split form.services ',').map JsString.trim
  let anyService := JsString.trim form.services ≠ ""
  let sample := optionalNumber form.dataSample 0 maxSafeInteger
  let errors := errors
    |> note "enterprise_number" enterprise.error
    |> note "services" (errorIf (anyService && services.any (· = "")) .service)
    |> note "data_sample" sample.error
  if errors.size > 0 then ⟨none, none, errors⟩
  else
    let filter := normalFilter <| some {
      streams    := some form.streams
      services   := some <| if anyService then services else []
      outcome    := some form.outcome
      dataSample := some sample.value
    }
    ⟨some form.name, some ⟨shared, enterprise.value, filter⟩, errors⟩

-- The members of a sink that can be set; `enabled` says that the sink is not there.
inductive SinkMember
  | enabled
  | text (field : SinkText)
  | number (field : SinkNumber)
  | enterpriseNumber
  | filter
  deriving DecidableEq

def filterRead (filter : SinkFilter) : FilterRead where
  streams    := some filter.streams
  services   := some filter.services
  outcome    := some filter.outcome
  dataSample := some filter.dataSample

def sameFilter : Option SinkFilter → Option SinkFilter → Bool
  | none,   none   => true
  | some a, some b => a.streams = b.streams && a.services = b.services && a.outcome = b.outcome &&
    a.dataSample.strictEq b.dataSample
  | _,      _      => false

def sharedDiff (sent : SinkWrite) (read : SinkRead) : List SinkMember :=
  (sinkTextFields.filter fun field => sent.text field ≠ (read.text field).getD "").map .text ++
    (sinkNumberFields.filter fun field => !(sent.number field).strictEq (zeroIfAbsent <| read.number field)).map
      .number

def sinkDiff (sent : SinkSent) (read : Option SinkRead) : List SinkMember :=
  match read with
  | none      => [.enabled]
  | some read =>
    match sent with
    | .compliance body => if read.enabled ≠ some true then [.enabled] else sharedDiff body read
    | .named body      =>
      sharedDiff body.toSinkWrite read ++
        (if body.enterpriseNumber.strictEq (zeroIfAbsent read.enterpriseNumber) then [] else [.enterpriseNumber]) ++
        if sameFilter (normalFilter <| body.filter.map filterRead) (normalFilter read.filter) then [] else [.filter]

end Sinks

end AuditConfig
