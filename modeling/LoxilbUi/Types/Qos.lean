import LoxilbUi.Common
import LoxilbUi.Library.Pattern

-- types/qos.ts: the key under which a policer is attached to a rule of the load balancer.

namespace Qos

open Pattern Common

inductive RuleProtocol
  | tcp
  | udp
  | sctp
  deriving DecidableEq

namespace RuleProtocol

def text : RuleProtocol → String
  | tcp  => "tcp"
  | udp  => "udp"
  | sctp => "sctp"

-- `QOS_RULE_PROTOCOLS`
def ofText? (s : String) : Option RuleProtocol :=
  [tcp, udp, sctp].find? (·.text = s)

end RuleProtocol

structure RuleTarget where
  externalIP : String
  port       : JsNumber
  protocol   : RuleProtocol
  deriving DecidableEq

-- `:(\d+):([A-Za-z]+)`
def portAndProtocol : Pattern :=
  seq (char ':') <| seq (group 2 <| plus Char.isDigit) <| seq (char ':') <| group 3 <| plus Char.isAlpha

-- `\[([^\]]+)]`
def bracketedAddress : Pattern :=
  seq (char '[') <| seq (group 1 <| plus (· ≠ ']')) <| char ']'

def bracketed : Pattern :=
  seq bracketedAddress portAndProtocol

-- `([^:[\]]+):(\d+):([A-Za-z]+)`
def legacyIPv4 : Pattern :=
  seq (group 1 <| plus (· ∉ [':', '[', ']'])) portAndProtocol

def parseQoSRuleTarget (target : String) : Option RuleTarget :=
  let inBrackets := matchWhole bracketed target.toList
  match inBrackets.or <| matchWhole legacyIPv4 target.toList with
  | none       => none
  | some found =>
    let group (n : Nat) := (found.get? n).getD []
    let externalIP := group 1
    let port := JsNumber.ofDigits <| group 2
    -- What was matched are letters of ASCII.
    match RuleProtocol.ofText? <| JsString.toLowerCase <| .ofList <| group 3 with
    | none          => none
    | some protocol =>
      if !isValidIPAddress externalIP || !isValidPort port || port.strictEq 0 then none
      else if inBrackets.isSome ≠ (':' ∈ externalIP) then none
      else some ⟨.ofList externalIP, port, protocol⟩

-- The arguments of a rule that its key is made of. A protocol is written in ASCII.
structure RuleArguments where
  externalIP : String
  port       : JsNumber
  protocol   : String

-- `ip.replace(/^\[([^\]]+)]$/, '$1')`
def unbracketed (ip : String) : String :=
  match matchWhole bracketedAddress ip.toList with
  | none       => ip
  | some found => .ofList <| (found.get? 1).getD []

def buildQoSRuleTarget (args : RuleArguments) : String :=
  let externalIP := unbracketed args.externalIP
  let wireIP := if ':' ∈ externalIP.toList then "[" ++ externalIP ++ "]" else externalIP
  wireIP ++ ":" ++ args.port.toText ++ ":" ++ JsString.toLowerCase args.protocol

end Qos
