import LoxilbUi.Library.JsString
import LoxilbUi.Library.Pattern

-- common.ts, on the lines of the logs.

namespace Common

structure ILog where
  id          : Nat
  createdAt   : String
  timestamp   : String
  level       : String
  message     : String
  programname : String
  host        : String

-- Of letters in ASCII.
def normalizeLogLevel (level : String) : String :=
  match level.map Char.toUpper with
  | "ERR"      => "ERROR"
  | "DBG"      => "DEBUG"
  | "WARN"     => "WARNING"
  | "INFO"     => "INFO"
  | "CRITICAL" => "CRITICAL"
  | _          => level

-- `.`, which is no end of a line.
def dot (c : Char) : Bool :=
  c.toNat ∉ [0xA, 0xD, 0x2028, 0x2029]

section Patterns

open Pattern

-- `\d{4}S\d{2}S\d{2} \d{2}:\d{2}:\d{2}` with the separator `S`
def stamp (sep : Char) : Pattern :=
  seq (times Char.isDigit 3) <| seq (char sep) <| seq (times Char.isDigit 1) <| seq (char sep) <|
    seq (times Char.isDigit 1) <| seq (char ' ') <| seq (times Char.isDigit 1) <| seq (char ':') <|
    seq (times Char.isDigit 1) <| seq (char ':') <| times Char.isDigit 1

-- `([^\s:]+:\d+):\s*`
def location : Pattern :=
  seq (group 3 <| seq (plus fun c => !JsString.isBlank c && c ≠ ':') <| seq (char ':') <| plus Char.isDigit) <|
    seq (char ':') <| many JsString.isBlank

-- `\s+(?:([^\s:]+:\d+):\s*)?(.+)`
def located : Pattern :=
  seq (plus JsString.isBlank) <| seq (opt location) <| group 4 <| plus dot

-- `\s+(.+)`
def unlocated : Pattern :=
  seq (plus JsString.isBlank) <| group 3 <| plus dot

-- `(LEVEL):\s*(stamp)`, and what is behind it.
def leveled (level : Pattern) (rest : Pattern) : Pattern :=
  seq (group 1 level) <| seq (char ':') <| seq (many JsString.isBlank) <| seq (group 2 <| stamp '/') rest

def newApiRegex : Pattern :=
  leveled (oneOf "ERR" ["INFO", "WARN", "DBG", "CRITICAL"]) unlocated

def legacyRegex : Pattern :=
  leveled (oneOf "ERROR" ["INFO", "WARNING", "DEBUG", "CRITICAL"]) located

def datapathRegex : Pattern :=
  seq (group 1 <| stamp '-') <| seq (plus JsString.isBlank) <|
    seq (group 2 <| oneOf "ERR" ["ERROR", "INFO", "WARN", "WARNING", "DBG", "DEBUG", "CRITICAL", "FATAL", "TRACE"]) located

end Patterns

-- A group, as a text; one that took no part is empty.
def groupText (found : Pattern.Found) (n : Nat) : String :=
  .ofList <| (found.get? n).getD []

-- What is read of a match of each of the three.
section Logs

variable (found : Pattern.Found)

def newApiLog : ILog where
  id          := 0
  createdAt   := groupText found 2
  timestamp   := groupText found 2
  level       := normalizeLogLevel <| groupText found 1
  message     := JsString.trim <| groupText found 3
  programname := ""
  host        := ""

def legacyLog : ILog where
  id          := 0
  createdAt   := groupText found 2
  timestamp   := groupText found 2
  level       := groupText found 1
  message     := groupText found 4
  programname := JsString.splitHead (JsString.trim <| groupText found 3) ' '
  host        := ""

def datapathLog : ILog where
  id          := 0
  createdAt   := groupText found 1
  timestamp   := groupText found 1
  level       := normalizeLogLevel <| groupText found 2
  message     := JsString.trim <| groupText found 4
  programname := JsString.trim <| groupText found 3
  host        := ""

end Logs

def parseLogLine (line : String) : Option ILog :=
  match newApiRegex.matchWhole line.toList with
  | some found => some (newApiLog found)
  | none       =>
    match legacyRegex.matchWhole line.toList with
    | some found => some (legacyLog found)
    | none       => (datapathRegex.matchWhole line.toList).map datapathLog

def parseLogLines (lines : List String) : List ILog :=
  lines.zipIdx.foldl (fun acc (line, idx) => match parseLogLine line with
    | some log => acc ++ [{ log with id := idx }]
    | none     => acc) []

end Common
