import LoxilbUi.Library.JsNumeral
import LoxilbUi.Library.JsSort
import LoxilbUi.Library.PlainObject
import LoxilbUi.Observability.Parser

-- observability/parser.ts: the reading of a whole exposition into families of samples. A text of the
-- diagnostics is held as its code units, since what is quoted in one may be cut within a character.

namespace Exposition

open Observability Parser Pattern

inductive RuntimeMetricType
  | counter
  | gauge
  | histogram
  | summary
  | untyped
  | unknown
  deriving DecidableEq

structure ParsedSample extends MetricSample where
  labelKey          : String
  sourceTimestampMs : Option ℚ

structure ParsedFamily where
  name    : String
  type    : RuntimeMetricType
  rawType : Option String
  help    : Option String
  samples : List ParsedSample

-- A family as the selectors of a scrape know it.
def ParsedFamily.plain (f : ParsedFamily) : MetricFamily :=
  ⟨f.name, f.samples.map (·.toMetricSample)⟩

inductive LimitKind
  | bodyBytes
  | sampleCount
  | labelLength
  | lineLength
  deriving DecidableEq

structure LimitError where
  kind     : LimitKind
  limit    : Nat
  observed : Nat
  deriving DecidableEq

structure Diagnostics where
  skippedSamples     : Nat
  warnings           : List (List Nat)
  totalSamples       : Nat
  dependencyFamilies : Nat
  deriving DecidableEq

structure ParseResult where
  families    : Dict ParsedFamily
  diagnostics : Diagnostics
  limitError  : Option LimitError

namespace Limits

def bodyBytes : Nat :=
  8 * 1024 * 1024

def sampleCount : Nat :=
  200000

def labelLength : Nat :=
  4096

def lineLength : Nat :=
  64 * 1024

end Limits

def maxWarnings : Nat :=
  20

section Names

def isNameStart (c : Char) : Bool :=
  c.isAlpha || c = '_' || c = ':'

def isNameChar (c : Char) : Bool :=
  c.isAlphanum || c = '_' || c = ':'

-- `[a-zA-Z_:][a-zA-Z0-9_:]*`
def nameRe : Pattern :=
  seq (one isNameStart) (many isNameChar)

def isDependencyFamily (name : String) : Bool :=
  JsString.startsWith name "go_" || JsString.startsWith name "process_" || JsString.startsWith name "promhttp_"

def knownTypes : List (String × RuntimeMetricType) := [
  ("counter", .counter), ("gauge", .gauge), ("histogram", .histogram), ("summary", .summary), ("untyped", .untyped)]

-- `KNOWN_TYPES.has(token) ? token : 'unknown'`, and the token where it is kept.
def typeOf (token : String) : RuntimeMetricType :=
  (knownTypes.lookup token).getD .unknown

def rawTypeOf (token : String) : Option String :=
  if (knownTypes.lookup token).isSome then none else some token

def suffixes : List String :=
  ["_bucket", "_sum", "_count"]

-- Whether a family of the type has samples with the suffix.
def folds (type suffix : String) : Bool :=
  type = "histogram" || (type = "summary" && suffix ≠ "_bucket")

-- The family that a sample is kept in because of a suffix.
def baseOf (sampleName : String) (typedFamilies : Dict String) (suffix : String) : Option String :=
  if JsString.endsWith sampleName suffix then
    let base := String.ofList <| sampleName.toList.take (sampleName.toList.length - suffix.toList.length)
    if (typedFamilies.get? base).any (folds · suffix) then some base else none
  else none

def familyNameOf (sampleName : String) (typedFamilies : Dict String) : String :=
  (suffixes.findSome? <| baseOf sampleName typedFamilies).getD sampleName

end Names

section Labels

def unescapeText : List Char → List Char
  | '\\' :: 'n' :: l => '\n' :: unescapeText l
  | '\\' :: c :: l   => c :: unescapeText l
  | c :: l           => c :: unescapeText l
  | []               => []

-- The text up to the closing quote, with its escapes, and what follows.
def readQuoted : List Char → Option (List Char × List Char)
  | []             => none
  | ['\\']         => none
  | '\\' :: c :: l => (readQuoted l).map fun (raw, rest) => ('\\' :: c :: raw, rest)
  | '"' :: l       => some ([], l)
  | c :: l         => (readQuoted l).map fun (raw, rest) => (c :: raw, rest)

theorem readQuoted_length {l raw rest : List Char} (h : readQuoted l = some (raw, rest)) :
    rest.length < l.length := by
  induction l using readQuoted.induct generalizing raw
  case case1 => cases h
  case case2 => cases h
  case case3 c l hi =>
    rw [readQuoted, Option.map_eq_some_iff] at h
    obtain ⟨p, hp, he⟩ := h
    obtain ⟨-, rfl⟩ := Prod.mk.inj he
    have hl := hi hp
    simp only [List.length_cons]
    omega
  case case4 l =>
    rw [readQuoted] at h
    obtain ⟨-, rfl⟩ := Prod.mk.inj <| Option.some.inj h
    exact Nat.lt_succ_self _
  case case5 c l hs hc hq hi =>
    rw [readQuoted.eq_5 c l hs hc hq, Option.map_eq_some_iff] at h
    obtain ⟨p, hp, he⟩ := h
    obtain ⟨-, rfl⟩ := Prod.mk.inj he
    exact Nat.lt_succ_of_lt <| hi hp

def isLabelGap (c : Char) : Bool :=
  c = ' ' || c = ','

def isLabelChar (c : Char) : Bool :=
  c.isAlphanum || c = '_'

-- `name="raw"`, and what follows it.
def readPair (l : List Char) : Option (List Char × List Char × List Char) :=
  let name := l.takeWhile isLabelChar
  if name = [] then none
  else match l.dropWhile isLabelChar with
    | '=' :: '"' :: r => (readQuoted r).map fun (raw, rest) => (name, raw, rest)
    | _               => none

theorem readPair_eq_some {l name raw rest : List Char} (h : readPair l = some (name, raw, rest)) :
    name = l.takeWhile isLabelChar ∧ name ≠ [] ∧
      ∃ r, l.dropWhile isLabelChar = '=' :: '"' :: r ∧ readQuoted r = some (raw, rest) := by
  simp only [readPair] at h
  split at h
  case isTrue     => cases h
  case isFalse hn =>
    split at h
    case h_1 r hr =>
      obtain ⟨p, hp, he⟩ := Option.map_eq_some_iff.mp h
      obtain ⟨hn', he⟩ := Prod.mk.inj he
      obtain ⟨rfl, rfl⟩ := Prod.mk.inj he
      exact ⟨hn'.symm, hn' ▸ hn, r, hr, hp⟩
    case h_2 => cases h

theorem readPair_length {l name raw rest : List Char} (h : readPair l = some (name, raw, rest)) :
    rest.length < l.length := by
  obtain ⟨-, -, r, hr, hq⟩ := readPair_eq_some h
  have hl := (List.dropWhile_sublist isLabelChar (l := l)).length_le
  rw [hr, List.length_cons, List.length_cons] at hl
  have hq := readQuoted_length hq
  omega

inductive LabelParse
  | done (labels : Labels) (rest : List Char)
  | malformed
  | breach (observed : Nat)

-- What follows the opening brace. The labels that have been read are kept in a plain object.
def parseLabels (labels : Labels) (line : List Char) : LabelParse :=
  let l := line.dropWhile isLabelGap
  if l.head? = some '\x7d' then .done labels l.tail
  else match _h : readPair l with
    | none                   => .malformed
    | some (name, raw, rest) =>
      let value := String.ofList <| unescapeText raw
      if JsString.length value > Limits.labelLength then .breach <| JsString.length value
      else parseLabels (PlainObject.assign labels (.ofList name) value) rest
  termination_by line.length
  decreasing_by exact Nat.lt_of_lt_of_le (readPair_length ‹_›) (List.dropWhile_sublist _).length_le

-- `text.replace(/c/g, by)`
def replaceAll (c : Char) (by_ : List Char) (text : List Char) : List Char :=
  text.flatMap fun d => if d = c then by_ else [d]

def labelKeyOf (labels : Labels) : String :=
  let pairs := (JsString.sort labels.keys).map fun k =>
    let v := ((labels.get? k).getD "").toList
    let escaped := replaceAll '\n' ['\\', 'n'] <| replaceAll '"' ['\\', '"'] <| replaceAll '\\' ['\\', '\\'] v
    String.ofList <| k.toList ++ '=' :: '"' :: escaped ++ ['"']
  JsString.joinComma pairs

end Labels

section Numbers

-- `Number(text)`, where that is finite.
def finiteNumber (t : String) : Option ℚ :=
  match (JsString.trim t).toList with
  | []            => some 0
  | '0' :: c :: l =>
    match JsNumber.radixOf c with
    | some base =>
      if l = [] || !l.all (JsNumber.isRadixDigit base) then none else JsNumber.nearestDouble <| JsNumber.inRadix base l
    | none      => decimalNumber <| '0' :: c :: l
  | l             => decimalNumber l
where
  decimalNumber (l : List Char) : Option ℚ :=
    if (matchWhole decimal l).isNone then none
    else match numberOf l with
      | .finite q => some q
      | _         => none

end Numbers

section Lines

def isGap (c : Char) : Bool :=
  c = ' ' || c = '\t'

-- `text.split(/[ \t]+/)`
def splitGaps : List Char → List (List Char)
  | []     => [[]]
  | c :: l =>
    if isGap c then
      if l.head?.any isGap then splitGaps l else [] :: splitGaps l
    else (splitGaps l).modifyHead (c :: ·)

-- A message of the diagnostics with the beginning of a line.
def quoting (message : String) (line : String) : List Nat :=
  JsString.codeUnits message ++ (JsString.codeUnits line).take 120

inductive SampleLine
  | sample (name : String) (labels : Labels) (value : Value) (sourceTimestampMs : Option ℚ)
  | breach (observed : Nat)
  | skipped (warning : List Nat)

def readTime (line name : String) (labels : Labels) (value : Value) : Option (List Char) → SampleLine
  | none      => .sample name labels value none
  | some text =>
    match finiteNumber <| .ofList text with
    | none    => .skipped <| quoting "unparseable timestamp: " line
    | some ts => .sample name labels value <| some ts

def readNumbers (line name : String) (labels : Labels) (token : List Char) (time : Option (List Char)) : SampleLine :=
  if token = [] then .skipped <| quoting "malformed value: " line
  else match parseValue token with
    | none       => .skipped <| quoting "unparseable value: " line
    | some value => readTime line name labels value time

-- `value [timestamp]`
def readValue (line name : String) (labels : Labels) (rest : List Char) : SampleLine :=
  if (matchWhole nameRe name.toList).isNone then .skipped <| quoting "invalid metric name: " line
  else match splitGaps (JsString.trim <| .ofList rest).toList with
    | [token]       => readNumbers line name labels token none
    | [token, time] => readNumbers line name labels token <| some time
    | _             => .skipped <| quoting "malformed value: " line

-- `name[{labels}] value [timestamp]`
def readSample (line : String) : SampleLine :=
  let l := line.toList
  if '\x7b' ∈ l then
    match parseLabels .empty (l.dropWhile (· ≠ '\x7b')).tail with
    | .breach observed  => .breach observed
    | .malformed        => .skipped <| quoting "malformed labels: " line
    | .done labels rest => readValue line (.ofList <| l.takeWhile (· ≠ '\x7b')) labels rest
  else if l.any isGap then
    readValue line (.ofList <| l.takeWhile fun c => !isGap c) .empty (l.dropWhile fun c => !isGap c)
  else .skipped <| quoting "malformed sample: " line

def isLineEnd (c : Char) : Bool :=
  c = '\n' || c = '\r' || c.val = 0x2028 || c.val = 0x2029

-- `#\s+(HELP|TYPE)\s+([a-zA-Z_:][a-zA-Z0-9_:]*)\s*(.*)`
def commentRe : Pattern :=
  seq (char '#') <| seq (plus JsString.isBlank) <| seq (group 1 <| oneOf "HELP" ["TYPE"]) <|
    seq (plus JsString.isBlank) <| seq (group 2 nameRe) <| seq (many JsString.isBlank) <|
      group 3 <| many fun c => !isLineEnd c

end Lines

section Reading

structure Family where
  name    : String
  type    : RuntimeMetricType
  rawType : Option String
  help    : Option String
  samples : List ParsedSample
  seen    : List String

def Family.push (f : Family) (s : ParsedSample) (identity : String) : Family :=
  { f with samples := f.samples ++ [s], seen := f.seen ++ [identity] }

structure State where
  families       : Dict Family
  typedFamilies  : Dict String
  warnings       : List (List Nat)
  skippedSamples : Nat
  totalSamples   : Nat

namespace State

def init : State where
  families       := .empty
  typedFamilies  := .empty
  warnings       := []
  skippedSamples := 0
  totalSamples   := 0

def warn (msg : List Nat) (warnings : List (List Nat)) : List (List Nat) :=
  if warnings.length < maxWarnings then warnings ++ [msg]
  else if warnings.length = maxWarnings then warnings ++ [JsString.codeUnits "further warnings suppressed"]
  else warnings

def skip (st : State) (msg : List Nat) : State :=
  { st with skippedSamples := st.skippedSamples + 1, warnings := warn msg st.warnings }

-- The family with a name, made where there is none.
def familyOf (st : State) (name : String) : Family :=
  (st.families.get? name).getD {
    name    := name
    type    := ((st.typedFamilies.get? name).map typeOf).getD .untyped
    rawType := (st.typedFamilies.get? name).bind rawTypeOf
    help    := none
    samples := []
    seen    := []
  }

def put (st : State) (name : String) (family : Family) : State :=
  { st with families := st.families.set name family }

def help (st : State) (name : String) (rest : List Char) : State :=
  st.put name { st.familyOf name with help := some <| .ofList <| unescapeText rest }

def declare (st : State) (name : String) (rest : List Char) : State :=
  let token := JsString.trim <| .ofList rest
  let st := { st with typedFamilies := st.typedFamilies.set name token }
  st.put name { st.familyOf name with type := typeOf token, rawType := rawTypeOf token }

def add (st : State) (name : String) (labels : Labels) (value : Value) (ts : Option ℚ) : State :=
  let familyName := familyNameOf name st.typedFamilies
  let family := st.familyOf familyName
  let labelKey := labelKeyOf labels
  let identity := name ++ " " ++ labelKey
  if identity ∈ family.seen then
    (st.put familyName family).skip <|
      JsString.codeUnits <| "duplicate series: " ++ name ++ "\x7b" ++ labelKey ++ "\x7d"
  else
    let st := st.put familyName <| family.push ⟨⟨name, labels, value⟩, labelKey, ts⟩ identity
    { st with totalSamples := st.totalSamples + 1 }

end State

def comment (st : State) (line : String) : State :=
  match matchWhole commentRe line.toList with
  | none   => st
  | some m =>
    let name := String.ofList <| (m.get? 2).getD []
    let rest := (m.get? 3).getD []
    if m.get? 1 = some "HELP".toList then st.help name rest else st.declare name rest

-- One line, or the limit that it breaks.
def readLine (st : State) (rawLine : String) : Except LimitError State :=
  let line := JsString.trim rawLine
  if line = "" then .ok st
  else if JsString.length line > Limits.lineLength then
    .error ⟨.lineLength, Limits.lineLength, JsString.length line⟩
  else if JsString.startsWith line "#" then .ok <| comment st line
  else match readSample line with
    | .breach observed              => .error ⟨.labelLength, Limits.labelLength, observed⟩
    | .skipped warning              => .ok <| st.skip warning
    | .sample name labels value ts =>
      if st.totalSamples + 1 > Limits.sampleCount then
        .error ⟨.sampleCount, Limits.sampleCount, st.totalSamples + 1⟩
      else .ok <| st.add name labels value ts

-- The lines up to the first that breaks a limit.
def readLines (st : State) : List String → State × Option LimitError
  | []            => (st, none)
  | line :: lines =>
    match readLine st line with
    | .ok st     => readLines st lines
    | .error err => (st, some err)

def Family.parsed (f : Family) : ParsedFamily :=
  ⟨f.name, f.type, f.rawType, f.help, f.samples⟩

def result (st : State) (limitError : Option LimitError) : ParseResult where
  families    := .ofList <| st.families.entries.map fun (_, f) => (f.name, f.parsed)
  diagnostics := {
    skippedSamples     := st.skippedSamples
    warnings           := st.warnings
    totalSamples       := st.totalSamples
    dependencyFamilies := (st.families.entries.filter fun (_, f) => isDependencyFamily f.name).length
  }
  limitError  := limitError

def parseExposition (text : String) : ParseResult :=
  if JsString.length text > Limits.bodyBytes then
    result .init <| some ⟨.bodyBytes, Limits.bodyBytes, JsString.length text⟩
  else
    let (st, limitError) := readLines .init <| JsString.split text '\n'
    result st limitError

end Reading

end Exposition
