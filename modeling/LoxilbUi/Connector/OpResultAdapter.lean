import LoxilbUi.Library.JsString
import LoxilbUi.Library.JsValue

-- connector/fetcher/opResultAdapter.ts and what it is made of: the types of fetcher_base.ts and
-- opResult.ts, the texts of opResultCodes.ts, and utils/retryAfter.ts. How the outcome of a request is
-- told.

namespace OpResultAdapter

inductive OpStatus
  | confirmed
  | submitted
  | pending
  | denied
  | invalid
  | unavailable
  | unknown
  | failed
  deriving DecidableEq, Repr

inductive OpOrigin
  | gateway
  | oam
  deriving DecidableEq, Repr

structure OpResult where
  status            : OpStatus
  code              : String
  localeKey         : String
  retryable         : Bool
  correlationId     : Option String := none
  retryAfterSeconds : Option Nat := none
  origin            : Option OpOrigin := none
  data              : JsValue := .undefined
  httpStatus        : Option JsNumber := none
  rawDetail         : Option String := none

def statusLocaleKey : OpStatus → String
  | .confirmed   => "Operation completed successfully."
  | .submitted   => "The request was submitted and is awaiting confirmation."
  | .pending     => "The operation is still in progress."
  | .denied      => "Permission denied"
  | .invalid     => "The request was rejected as invalid."
  | .unavailable => "The service is temporarily unavailable. Please try again later."
  | .unknown     => "No answer came back, so it is not known whether this change was applied. " ++
    "Check the current state before sending it again."
  | .failed      => "The operation could not be completed."

def rateLimitedKey : String :=
  "Too many requests. Please try again later."

def conflictKey : String :=
  "The request conflicts with an existing item."

def notEnabledKey : String :=
  "This feature is not enabled on this instance."

def preconditionKey : String :=
  "This gateway is not configured to accept this request. The request is valid; its deployment " ++
    "must change."

def auditUnavailableKey : String :=
  "The gateway refused this request because it cannot write its audit record right now. Nothing " ++
    "was changed."

def maintenanceKey : String :=
  "The gateway is in maintenance mode and is not accepting changes. Nothing was changed."

def identityUnavailableKey : String :=
  "The management service cannot authenticate to this gateway right now, so the request was not " ++
    "sent to it."

-- `headers.get`
abbrev Headers :=
  String → Option String

-- A response as the connectors hand it on; `code` is a number, where nothing went wrong before.
structure SimpleResponse where
  code        : JsValue
  data        : JsValue
  message     : JsValue
  headers     : Option Headers
  parseFailed : Bool

-- What a call threw: an `ApiError`, with the response it may carry, another `Error`, or anything else.
inductive Thrown
  | apiError (status : JsValue) (message : String) (response : Option (JsValue × Option Headers))
  | error (message : String)
  | other

inductive OpKind
  | mutation
  | read
  deriving DecidableEq, Repr

-- `Date.parse`, and the clock.
structure Clock where
  parse : String → Option Int
  now   : Int

-- `a` stands for a letter and `d` for a digit.
def matchesForm : List Char → List Char → Bool
  | [], []           => true
  | 'a' :: fs, c :: cs => c.isAlpha && matchesForm fs cs
  | 'd' :: fs, c :: cs => c.isDigit && matchesForm fs cs
  | f :: fs, c :: cs   => f = c && matchesForm fs cs
  | _, _               => false

def httpDate : String :=
  "aaa, dd aaa dddd dd:dd:dd GMT"

def retryAfterSeconds (clock : Clock) (value : Option String) : Option Nat :=
  let raw := JsString.trim <| value.getD ""
  if raw = "" then none
  else if raw.toList.all Char.isDigit then
    let seconds := Nat.ofDigitChars 10 raw.toList 0
    if seconds < 2 ^ 53 then some seconds else none
  else if matchesForm httpDate.toList raw.toList then
    (clock.parse raw).map fun date => ((date - clock.now + 999) / 1000).toNat
  else none

-- `[...].includes(value)`
def includes (codes : List JsNumber) (code : JsNumber) : Bool :=
  codes.any (· = code)

def failureWords : List String :=
  ["fail", "failed", "failure", "error"]

-- connector/fetcher/fetcher_base.ts. To make only ASCII letters small is enough here and below: no letter outside ASCII
-- becomes one of these words or of the two origins.
def isMutationFailure (code : JsNumber) (data : JsValue) (acceptedCodes : List JsNumber) : Bool :=
  if !includes acceptedCodes code then true
  else
    match data.get "result" with
    | .string result => JsString.toLowerCase (JsString.trim result) ∈ failureWords
    | _              => false

def header (resp : SimpleResponse) (name : String) : Option String :=
  resp.headers.bind (· name)

def originOf (resp : SimpleResponse) : Option OpOrigin :=
  match (header resp "X-Loxi-Error-Origin").map fun o => JsString.toLowerCase (JsString.trim o) with
  | some "gateway" => some .gateway
  | some "oam"     => some .oam
  | _              => none

def text : JsValue → Option String
  | .string s => if JsString.trim s ≠ "" then some (JsString.trim s) else none
  | _         => none

-- The code and the locale key of a 503.
def refusal503 (resp : SimpleResponse) (op : String) : String × String :=
  let message := text (resp.data.get "message")
  if message = some "Audit unavailable" then (op ++ ".audit_unavailable", auditUnavailableKey)
  else if message = some "Maintenance mode" then (op ++ ".maintenance", maintenanceKey)
  else if originOf resp = some .oam &&
      text (resp.data.get "error") = some "Gateway service identity unavailable" then
    (op ++ ".identity_unavailable", identityUnavailableKey)
  else (op ++ ".unavailable", statusLocaleKey .unavailable)

def rawDetailOf (resp : SimpleResponse) : Option String :=
  match text (resp.data.get "error") with
  | some authoritative => some authoritative
  | none =>
    match text (resp.data.get "message"), text (resp.data.get "result") with
    | some cls, some reason => if cls ≠ reason then some (cls ++ ": " ++ reason) else some cls
    | some cls, none        => some cls
    | none, some reason     => some reason
    | none, none            => text resp.message

-- A result with what every failure carries.
def failure (clock : Clock) (resp : SimpleResponse) (n : JsNumber) (status : OpStatus)
    (code localeKey : String) (retryable : Bool) : OpResult where
  status            := status
  code              := code
  localeKey         := localeKey
  retryable         := retryable
  correlationId     := header resp "X-Correlation-Id"
  retryAfterSeconds := retryAfterSeconds clock (header resp "Retry-After")
  origin            := originOf resp
  httpStatus        := some n
  rawDetail         := rawDetailOf resp

def malformedResponse (op : String) : OpResult where
  status    := .failed
  code      := op ++ ".malformed_response"
  localeKey := statusLocaleKey .failed
  retryable := false

-- `value ?? undefined`
def orUndefined : JsValue → JsValue
  | .null => .undefined
  | value => value

-- `code >= 200 && code < 300`
def isSuccess (n : JsNumber) : Bool :=
  (JsNumber.lt 200 n || n = 200) && JsNumber.lt n 300

def isFinite : JsNumber → Bool
  | .finite _ => true
  | _         => false

-- What `fromSimpleResponse` makes of a response with the code `n`.
def fromCode (clock : Clock) (resp : SimpleResponse) (n : JsNumber) (op : String) (kind : OpKind) :
    OpResult :=
  let fails := failure clock resp n
  if n = 401 || n = 403 then fails .denied (op ++ ".denied") (statusLocaleKey .denied) false
  else if n = 400 || n = 422 then fails .invalid (op ++ ".rejected") (statusLocaleKey .invalid) false
  else if n = 409 then fails .invalid (op ++ ".conflict") conflictKey false
  else if n = 429 then fails .denied (op ++ ".rate_limited") rateLimitedKey true
  else if n = 402 then fails .denied (op ++ ".payment_required") (statusLocaleKey .denied) false
  else if n = 412 then fails .failed (op ++ ".precondition_failed") preconditionKey false
  else if n = 501 then fails .failed (op ++ ".not_implemented") notEnabledKey false
  else if n = 503 then fails .unavailable (refusal503 resp op).1 (refusal503 resp op).2 true
  else if n = 502 || n = 504 || n = 0 then
    if kind = .read then fails .unavailable (op ++ ".unavailable") (statusLocaleKey .unavailable) true
    else fails .unknown (op ++ ".outcome_unknown") (statusLocaleKey .unknown) false
  else if isSuccess n then
    if isMutationFailure n resp.data [n] then
      fails .failed (op ++ ".reported_failure") (statusLocaleKey .failed) false
    else if resp.parseFailed then
      fails .failed (op ++ ".parse_error") (statusLocaleKey .failed) false
    else {
      status        := .confirmed
      code          := op ++ ".ok"
      localeKey     := statusLocaleKey .confirmed
      retryable     := false
      data          := orUndefined resp.data
      correlationId := header resp "X-Correlation-Id"
      httpStatus    := some n }
  else fails .failed (op ++ ".failed") (statusLocaleKey .failed) false

def fromSimpleResponse (clock : Clock) (resp : Option SimpleResponse) (op : String) (kind : OpKind) :
    OpResult :=
  match resp with
  | none      => malformedResponse op
  | some resp =>
    match resp.code with
    | .number n => fromCode clock resp n op kind
    | _         => malformedResponse op

def Thrown.rawDetail : Thrown → Option String
  | apiError _ message _ | error message => some message
  | other                                => none

def fromNetworkError (op : String) (e : Thrown) (kind : OpKind) : OpResult :=
  if kind = .read then {
    status    := .unavailable
    code      := op ++ ".network_error"
    localeKey := statusLocaleKey .unavailable
    retryable := true
    rawDetail := e.rawDetail }
  else {
    status    := .unknown
    code      := op ++ ".outcome_unknown"
    localeKey := statusLocaleKey .unknown
    retryable := false
    rawDetail := e.rawDetail }

-- A call that resolves to what it returns, or rejects with what it throws.
abbrev Settled :=
  Except Thrown

def runOp (clock : Clock) (op : String) (call : Settled (Option SimpleResponse)) : Settled OpResult :=
  tryCatch (do return fromSimpleResponse clock (← call) op .mutation)
    fun e => return fromNetworkError op e .mutation

def fromThrownError (clock : Clock) (op : String) (e : Thrown) : OpResult :=
  match e with
  | .apiError (.number status) message response =>
    if !isFinite status || isSuccess status then fromNetworkError op e .read
    else
      let resp : SimpleResponse := {
        code        := .number status
        data        := ((response.map Prod.fst).getD .undefined).orElse .null
        message     := .string message
        headers     := response.bind Prod.snd
        parseFailed := false }
      let mapped : OpResult := { fromSimpleResponse clock (some resp) op .read with rawDetail := some message }
      if mapped.status ≠ .invalid then mapped
      else
        { mapped with
          status    := .failed
          code      := op ++ ".failed"
          localeKey := statusLocaleKey .failed }
  | _ => fromNetworkError op e .read

-- The body says that the operation failed.
def IsFailureEnvelope (data : JsValue) : Prop :=
  ∃ result, data.get "result" = .string result ∧
    JsString.toLowerCase (JsString.trim result) ∈ failureWords

def SimpleResponse.HasCode (resp : SimpleResponse) (code : Int) : Prop :=
  resp.code = .number (.finite <| .ofInt code)

-- What the results of the connectors say about what happened.
structure MapsOutcomes (clock : Clock) : Prop where
  confirmed : ∀ resp code op kind, resp.HasCode code →
    ((fromSimpleResponse clock (some resp) op kind).status = .confirmed ↔
      200 ≤ code ∧ code ≤ 299 ∧ ¬IsFailureEnvelope resp.data ∧ resp.parseFailed = false)
  retryable : ∀ resp op, (fromSimpleResponse clock resp op .mutation).retryable = true →
    ∃ r, resp = some r ∧ (r.HasCode 429 ∨ r.HasCode 503)
  lost : ∀ resp code op, resp.HasCode code → code = 0 ∨ code = 502 ∨ code = 504 →
    (fromSimpleResponse clock (some resp) op .mutation).status = .unknown ∧
      (fromSimpleResponse clock (some resp) op .mutation).retryable = false
  thrown : ∀ op e, ∃ r, runOp clock op (.error e) = .ok r ∧ r.status = .unknown ∧ r.retryable = false
  read : ∀ resp op, (fromSimpleResponse clock resp op .read).status ≠ .unknown
  resolves : ∀ op call, ∃ r, runOp clock op call = .ok r
  thrownRead : ∀ op e, (fromThrownError clock op e).status ∉ [.confirmed, .unknown, .invalid]

end OpResultAdapter
