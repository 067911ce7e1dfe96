import LoxilbUi.Common
import LoxilbUi.Connector.OpResultAdapter
import LoxilbUi.Types.IpFilterPolicy

-- connector/instance/ipfilter.ts: the body that an IP filter is sent as.

namespace IpFilter

open OpResultAdapter

variable (hostname : String → Option String)

-- The gateway only reads prefixes, and so a host is sent as the prefix of that host alone.
def toHostCidr (cidr : String) : String :=
  let trimmed := JsString.trim cidr
  if !Common.isValidIPAddress trimmed.toList then trimmed
  else if ':' ∈ trimmed.toList then trimmed ++ "/128"
  else trimmed ++ "/32"

def clientInvalid : OpResult where
  status    := .invalid
  code      := "ipfilter.create.client_invalid"
  retryable := false
  localeKey := statusLocaleKey .invalid

-- `cidr` is what the entry holds as its text.
def payload (data : JsValue) (cidr : String) : JsValue :=
  .object [
    ("filterType", data.get "filterType"),
    ("cidr", .string <| toHostCidr cidr),
    ("zone", data.get "zone"),
    ("priority", data.get "priority"),
    ("action", data.get "action")]

-- What is posted, unless the entry is refused.
def requestCreateIpfilterRule (data : JsValue) : Except OpResult JsValue :=
  match data.get "cidr" with
  | .string cidr => if !validIPFilterConfig hostname data then .error clientInvalid else .ok <| payload data cidr
  -- Without a text no entry is valid.
  | _            => .error clientInvalid

end IpFilter
