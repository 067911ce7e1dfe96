import LoxilbUi.Library.JsUrl
import LoxilbUi.Session.Session

-- connector/fetcher/fetcher_base.ts, with the URLs that fetcher_inst.ts and fetcher_oam.ts put together:
-- what a 401 means for the session.

namespace FetcherBase

def sessionProbePath : String :=
  "/users/me"

-- What `\w` matches.
def isWordChar (c : Char) : Bool :=
  c.isAlphanum || c = '_'

-- `(?:\b|\/)` after a letter
def atBoundary : List Char → Bool
  | []     => true
  | c :: _ => !isWordChar c || c = '/'

-- The text begins with `word`, and the word ends there.
def startsWithWord : List Char → List Char → Bool
  | [], text           => atBoundary text
  | w :: ws, c :: text => w = c && startsWithWord ws text
  | _ :: _, []         => false

def isLoginWord (text : List Char) : Bool :=
  startsWithWord "login".toList text

-- `/\/login(?:\b|\/)/.test(text)`
def testLogin : List Char → Bool
  | []        => false
  | c :: text => c = '/' && isLoginWord text || testLogin text

-- The provenance marker of a response whose `X-Loxi-Error-Origin` header is `header`, of which only the ASCII letters
-- are made small: no other letter stands in a marker that is known.
def errorOrigin (header : Option String) : Option String :=
  header.map fun h => JsString.toLowerCase (JsString.trim h)

def classifyUnauthorized (header : Option String) (url : String) : UnauthorizedVerdict :=
  if testLogin url.toList then .inline
  else
    let origin := errorOrigin header
    if origin = some "gateway" then .inline
    else if origin = some "oam" then .expire
    else if JsString.endsWith (JsUrl.pathname url) sessionProbePath then .expire
    else .verify

-- What an interpolated value may put between two slashes: nothing that ends the part, and none of the
-- blanks and controls that no URL is written with.
def isPartChar (c : Char) : Bool :=
  0x20 < c.val && c ∉ ['/', '\\', '?', '#']

abbrev UrlPart :=
  { part : List Char // part.all isPartChar }

theorem alphanum_isPartChar {c : Char} (h : c.isAlphanum = true) : isPartChar c = true := by
  rw [isPartChar, Bool.and_eq_true, decide_eq_true_eq, decide_eq_true_eq]
  constructor
  · have hb : 48 ≤ c.val.toNat := (JsString.isAlphanum_bounds h).1
    rw [UInt32.lt_iff_toNat_lt]
    exact Nat.lt_of_lt_of_le (by decide) hb
  · intro hc
    have hn : ['/', '\\', '?', '#'].all (!·.isAlphanum) = true := by decide
    have hc := List.all_eq_true.mp hn c hc
    simp [h] at hc

theorem repr_isPartChar {n : Nat} : n.repr.toList.all isPartChar = true := by
  refine List.all_eq_true.mpr fun c hc => ?_
  rw [Nat.toList_repr] at hc
  have hd := Nat.isDigit_of_mem_toDigits (by decide) (by decide) hc
  exact alphanum_isPartChar <| by simp [Char.isAlphanum, hd]

theorem encodeURIComponent_isPartChar {s : String} :
    (JsUrl.encodeURIComponent s).toList.all isPartChar = true := by
  refine List.all_eq_true.mpr fun c hc => ?_
  obtain h | ⟨b, h⟩ := JsUrl.encodeURIComponent_chars hc
  · obtain h | h := Bool.or_eq_true _ _ |>.mp h
    · exact alphanum_isPartChar h
    · have hm : ['-', '_', '.', '!', '~', '*', Char.ofNat 0x27, '(', ')'].all isPartChar = true := by
        decide
      exact List.all_eq_true.mp hm c <| by simpa using h
  · have hx : JsUrl.escapeChars.all isPartChar = true := by decide
    exact List.all_eq_true.mp hx c <| JsUrl.escape_chars h

-- `${encodeURIComponent(value)}` in a path
def encoded (value : String) : UrlPart :=
  ⟨(JsUrl.encodeURIComponent value).toList, encodeURIComponent_isPartChar⟩

-- `getApiBaseUrl()`: a path on the page's own host, or the URL of another.
structure ApiBase where
  host   : Option (Bool × UrlPart)
  path   : List UrlPart
  rooted : host = none → ∃ part parts, path = part :: parts ∧ part.val ≠ []

structure RequestUrl where
  base  : ApiBase
  path  : List UrlPart
  query : Option String

namespace RequestUrl

def origin (url : RequestUrl) : List Char :=
  match url.base.host with
  | none                     => []
  | some (secure, authority) =>
    (if secure then "https:" else "http:").toList ++ JsUrl.joinPath [[], authority.val]

-- The parts of the path, the base's first.
def parts (url : RequestUrl) : List JsUrl.Part :=
  (url.base.path ++ url.path).map (·.val)

def search (url : RequestUrl) : List Char :=
  match url.query with
  | none       => []
  | some query => '?' :: query.toList

def text (url : RequestUrl) : String :=
  .ofList <| url.origin ++ JsUrl.joinPath url.parts ++ url.search

-- The request goes to `path` under the base.
def IsRoute (url : RequestUrl) (path : List String) : Prop :=
  JsUrl.resolveDots [] url.parts =
    JsUrl.resolveDots [] (url.base.path.map (·.val) ++ path.map String.toList)

instance {url : RequestUrl} {path : List String} : Decidable (url.IsRoute path) :=
  inferInstanceAs <| Decidable (_ = _)

def IsLogin (url : RequestUrl) : Prop :=
  url.IsRoute ["login"]

def IsSessionProbe (url : RequestUrl) : Prop :=
  url.IsRoute ["users", "me"]

-- Something in the URL reads `/login`: the host, a part of the path, or a part of the query.
def NamesLogin (url : RequestUrl) : Prop :=
  (∃ secure authority, url.base.host = some (secure, authority) ∧ isLoginWord authority.val) ∨
    (∃ part ∈ url.parts, isLoginWord part) ∨ ∃ query, url.query = some query ∧ testLogin query.toList

-- The path ends in the parts `users` and `me`.
def EndsInMe (url : RequestUrl) : Prop :=
  ["users".toList, "me".toList] <:+ JsUrl.resolveDots [] url.parts

end RequestUrl

-- What a 401 for `url`, under the marker of `header`, is taken to mean.
structure RoutedByProvenance (url : RequestUrl) (header : Option String) : Prop where
  inline : classifyUnauthorized header url.text = .inline ↔
    url.IsLogin ∨ errorOrigin header = some "gateway"
  expire : classifyUnauthorized header url.text = .expire ↔
    ¬(url.IsLogin ∨ errorOrigin header = some "gateway") ∧
      (errorOrigin header = some "oam" ∨ url.IsSessionProbe)
  verify : classifyUnauthorized header url.text = .verify ↔
    ¬(url.IsLogin ∨ errorOrigin header = some "gateway") ∧
      ¬(errorOrigin header = some "oam" ∨ url.IsSessionProbe)

-- Nothing in the URL but the routes themselves reads like the login route or the session route.
def Unmistakable (url : RequestUrl) (header : Option String) : Prop :=
  errorOrigin header = some "gateway" ∨ (url.NamesLogin → url.IsLogin) ∧
    (errorOrigin header ≠ some "oam" → url.EndsInMe → url.IsSessionProbe)

-- connector/fetcher/pathSegment.ts
def unsendableInPath (name : String) : Bool :=
  name.toList.any (· ∈ ['/', '\\', '?', '#'])

-- The URL of GET_INST and its siblings.
def instUrl (base : ApiBase) (id : Nat) (path : List UrlPart) : RequestUrl where
  base  := base
  path  := [⟨"loxilbs".toList, by decide⟩, ⟨id.repr.toList, repr_isPartChar⟩, ⟨"netlox".toList, by decide⟩,
    ⟨"v1".toList, by decide⟩] ++ path
  query := none

-- The request that `request_delete_lb_by_name` sends, where it sends one.
def deleteLbByName (base : ApiBase) (id : Nat) (name : String) : Option RequestUrl :=
  if unsendableInPath name then none
  else some <| instUrl base id [⟨"config".toList, by decide⟩, ⟨"loadbalancer".toList, by decide⟩,
    ⟨"name".toList, by decide⟩, encoded name]

end FetcherBase
