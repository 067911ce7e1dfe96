import LoxilbUi.Hooks.ConfirmPredicates
import LoxilbUi.Hooks.Theorems.LbRuleLists
import LoxilbUi.Library.LastWrite

-- What the confirmation of a profile says of the profile that is served.

namespace ConfirmPredicates

open AIJwt JsValue

variable {a b p row : JWTAuthProfileEntry} {rows : List JWTAuthProfileEntry}

-- Two profiles are the same member by member where the documented default stands for what is left
-- out and the order of a list does not count. How two texts are compared is up to `text`.
structure SameProfileBy (text : Option String → String → String) (a b : JWTAuthProfileEntry) :
    Prop where
  name                     : text a.name "" = text b.name ""
  issuer                   : text a.issuer "" = text b.issuer ""
  jwksUrl                  : text a.jwksUrl "" = text b.jwksUrl ""
  audiences                : (a.audiences.getD []).Perm (b.audiences.getD [])
  algs                     : (effectiveAlgs a.algs).Perm (effectiveAlgs b.algs)
  leewaySec                : effectiveSeconds a.leewaySec 30 = effectiveSeconds b.leewaySec 30
  refreshSec               : effectiveSeconds a.refreshSec 3600 = effectiveSeconds b.refreshSec 3600
  tenantClaim              : text a.tenantClaim "tenant_id" = text b.tenantClaim "tenant_id"
  userClaim                : text a.userClaim "sub" = text b.userClaim "sub"
  modelsClaim              : text a.modelsClaim "" = text b.modelsClaim ""
  rolesClaim               : text a.rolesClaim "realm_access.roles" =
    text b.rolesClaim "realm_access.roles"
  modelRolePrefix          : text a.modelRolePrefix "model:" = text b.modelRolePrefix "model:"
  usernameClaim            : text a.usernameClaim "preferred_username" =
    text b.usernameClaim "preferred_username"
  modelAuthz               : text a.modelAuthz "claims-required" = text b.modelAuthz "claims-required"
  defaultTenant            : a.defaultTenant.getD "" = b.defaultTenant.getD ""
  forwardIdentity          : a.forwardIdentity.getD false = b.forwardIdentity.getD false
  authorizationPassthrough : a.authorizationPassthrough.getD false =
    b.authorizationPassthrough.getD false
  priorityClass            : a.priorityClass.getD "" = b.priorityClass.getD ""

-- The blanks around a text do not count.
abbrev SameProfile :=
  SameProfileBy effectiveText

-- Every character of a text that is not blank counts.
def writtenText (value : Option String) (fallback : String) : String :=
  if JsString.trim (value.getD "") = "" then fallback else value.getD ""

section Texts

theorem listText_eq_iff {vs ws : List JsValue} :
    listText vs = listText ws ↔ jsonItems vs = jsonItems ws := by
  rw [listText, listText, Json.text_injective.eq_iff, Json.array.injEq]

theorem jsonItems_string {ss ts : List String} :
    jsonItems (ss.map .string) = jsonItems (ts.map .string) ↔ ss = ts := by
  have h (ss : List String) : jsonItems (ss.map .string) = ss.map Json.string := by
    induction ss
    case nil            => rfl
    case cons s ss hi => simp [jsonItems, json, hi]
  rw [h, h]
  exact (List.map_injective_iff.mpr fun _ _ => Json.string.inj).eq_iff

theorem sortedList_eq_iff {l m : Option (List String)} :
    sortedList l = sortedList m ↔ (l.getD []).Perm (m.getD []) := by
  rw [sortedList, sortedList, listText_eq_iff, jsonItems_string, LBRuleApplied.sortedTexts_eq_iff]

-- A number of seconds is positive, so that only an infinite one has no digits.
theorem number_json_inj {m n : JsNumber} (hm : m ≠ .nan ∧ m ≠ .infinity true)
    (hn : n ≠ .nan ∧ n ≠ .infinity true) :
    (JsValue.number m).json.getD .null = (JsValue.number n).json.getD .null ↔ m = n := by
  cases m <;> cases n <;> simp_all [json]

theorem effectiveSeconds_positive {value : Option JsNumber} {fallback : JsNumber}
    (h : JsNumber.lt 0 fallback = true) : JsNumber.lt 0 (effectiveSeconds value fallback) = true := by
  rw [effectiveSeconds]
  cases hv : value.filter (JsNumber.lt 0 ·)
  case none   => exact h
  case some n => exact (Option.filter_eq_some_iff.mp hv).2

theorem number_of_positive {n : JsNumber} (h : JsNumber.lt 0 n = true) :
    n ≠ .nan ∧ n ≠ .infinity true := by
  refine ⟨?_, ?_⟩ <;> rintro rfl <;> revert h <;> decide

theorem seconds_json_inj (v w : Option JsNumber) (fallback : JsNumber)
    (h : JsNumber.lt 0 fallback = true) :
    (JsValue.number <| effectiveSeconds v fallback).json.getD .null =
      (JsValue.number <| effectiveSeconds w fallback).json.getD .null ↔
    effectiveSeconds v fallback = effectiveSeconds w fallback :=
  number_json_inj (number_of_positive <| effectiveSeconds_positive h)
    (number_of_positive <| effectiveSeconds_positive h)

theorem flag_iff {v w : Option Bool} :
    decide (v = some true) = decide (w = some true) ↔ v.getD false = w.getD false := by
  cases v <;> cases w <;> simp

end Texts

theorem effectiveJwtProfile_eq_iff :
    effectiveJwtProfile a = effectiveJwtProfile b ↔ SameProfile a b := by
  have hs {s t : String} : (JsValue.string s).json.getD .null = (JsValue.string t).json.getD .null ↔
      s = t := by
    simp [json]
  have hb {b c : Bool} : (JsValue.bool b).json.getD .null = (JsValue.bool c).json.getD .null ↔
      b = c := by
    simp [json]
  have hl := seconds_json_inj a.leewaySec b.leewaySec 30 (by decide)
  have hr := seconds_json_inj a.refreshSec b.refreshSec 3600 (by decide)
  rw [effectiveJwtProfile, effectiveJwtProfile, listText_eq_iff]
  simp only [jsonItems, List.cons.injEq, and_true, jwtProfileDefaults, hs, hb, hl, hr,
    sortedList_eq_iff, flag_iff, Option.getD_some]
  constructor
  case mp =>
    rintro ⟨h₁, h₂, h₃, h₄, h₅, h₆, h₇, h₈, h₉, h₁₀, h₁₁, h₁₂, h₁₃, h₁₄, h₁₅, h₁₆, h₁₇, h₁₈⟩
    exact ⟨h₁, h₂, h₃, h₄, h₅, h₆, h₇, h₈, h₉, h₁₀, h₁₁, h₁₂, h₁₃, h₁₄, h₁₅, h₁₆, h₁₇, h₁₈⟩
  case mpr =>
    rintro ⟨h₁, h₂, h₃, h₄, h₅, h₆, h₇, h₈, h₉, h₁₀, h₁₁, h₁₂, h₁₃, h₁₄, h₁₅, h₁₆, h₁₇, h₁₈⟩
    exact ⟨h₁, h₂, h₃, h₄, h₅, h₆, h₇, h₈, h₉, h₁₀, h₁₁, h₁₂, h₁₃, h₁₄, h₁₅, h₁₆, h₁₇, h₁₈⟩

section Normalized

theorem effectiveText_trimmed (value : Option String) {fallback : String} :
    effectiveText (JsString.trim <| value.getD "") fallback = effectiveText value fallback := by
  rw [effectiveText, effectiveText, Option.getD_some, JsString.trim_trim]

theorem effectiveText_optionalString {value : Option String} {fallback : String} :
    effectiveText (optionalString value) fallback = effectiveText value fallback := by
  cases value
  case none   => rfl
  case some v =>
    rw [optionalString, Option.bind_some]
    split
    case isTrue h =>
      simp [effectiveText, h, JsString.trim_empty]
    case isFalse => exact effectiveText_trimmed (some v)

theorem effectiveSeconds_optionalNumber {value : Option JsNumber} {fallback : JsNumber}
    (h : ∀ n, value = some n → isFinite n = true) :
    effectiveSeconds (optionalNumber value) fallback = effectiveSeconds value fallback := by
  cases value
  case none   => rfl
  case some v =>
    rw [optionalNumber, Option.bind_some, effectiveSeconds, effectiveSeconds, h v rfl]
    by_cases hv : JsNumber.lt 0 v = true
    · simp [hv]
    · simp [hv, Option.filter_some]

theorem effectiveAlgs_normalized {algs : Option (List String)} :
    effectiveAlgs (if algs = some [] then none else algs) = effectiveAlgs algs := by
  split
  case isTrue h => rw [h]; rfl
  case isFalse  => rfl

-- What the form makes of a draft is the same configuration.
theorem normalize_same (hl : ∀ n, p.leewaySec = some n → isFinite n = true)
    (hr : ∀ n, p.refreshSec = some n → isFinite n = true) :
    SameProfile (normalizeJWTAuthProfile p) p where
  name                     := effectiveText_trimmed _
  issuer                   := effectiveText_trimmed _
  jwksUrl                  := effectiveText_optionalString
  audiences                := .refl _
  algs                     := .of_eq effectiveAlgs_normalized
  leewaySec                := effectiveSeconds_optionalNumber hl
  refreshSec               := effectiveSeconds_optionalNumber hr
  tenantClaim              := effectiveText_optionalString
  userClaim                := effectiveText_optionalString
  modelsClaim              := effectiveText_optionalString
  rolesClaim               := effectiveText_optionalString
  modelRolePrefix          := effectiveText_optionalString
  usernameClaim            := effectiveText_optionalString
  modelAuthz               := rfl
  defaultTenant            := rfl
  forwardIdentity          := rfl
  authorizationPassthrough := rfl
  priorityClass            := rfl

end Normalized

section Applied

theorem jwtProfileApplied_iff (hn : (rows.map JWTAuthProfileEntry.name).Nodup) :
    jwtProfileApplied p rows = true ↔
      ∃ row ∈ rows, row.name = some (JsString.trim <| p.name.getD "") ∧ SameProfile row p := by
  rw [jwtProfileApplied, Option.any_eq_true]
  refine exists_congr fun row => ?_
  rw [(LastWrite.Once.of_nodup hn).find?_eq_some_iff, decide_eq_true_eq, effectiveJwtProfile_eq_iff,
    and_assoc]

theorem jwtProfileApplied_normalize (hl : ∀ n, p.leewaySec = some n → isFinite n = true)
    (hr : ∀ n, p.refreshSec = some n → isFinite n = true) :
    jwtProfileApplied p [normalizeJWTAuthProfile p] = true :=
  (jwtProfileApplied_iff <| by simp).mpr ⟨_, .head _, rfl, normalize_same hl hr⟩

-- A profile is confirmed by the row with its name alone, and by that row where it is the same profile.
theorem jwtProfileApplied_exact (hn : (rows.map JWTAuthProfileEntry.name).Nodup) :
    (jwtProfileApplied p rows = true ↔
      ∃ row ∈ rows, row.name = some (JsString.trim <| p.name.getD "") ∧ SameProfile row p) ∧
    (∀ row ∈ rows, row.name = some (JsString.trim <| p.name.getD "") → ¬SameProfile row p →
      jwtProfileApplied p rows = false) ∧
    ((∀ n, p.leewaySec = some n → isFinite n = true) →
      (∀ n, p.refreshSec = some n → isFinite n = true) →
      jwtProfileApplied p [normalizeJWTAuthProfile p] = true) := by
  refine ⟨jwtProfileApplied_iff hn, fun row hm hr hs => ?_, jwtProfileApplied_normalize⟩
  refine Bool.eq_false_iff.mpr fun ha => hs ?_
  obtain ⟨row', hm', hr', hs'⟩ := (jwtProfileApplied_iff hn).mp ha
  have hw := (LastWrite.Once.of_nodup (k := row.name) hn).find?_eq_some_iff.mpr ⟨hm, rfl⟩
  obtain rfl := Option.some_inj.mp <| hw.symm.trans <|
    (LastWrite.Once.of_nodup hn).find?_eq_some_iff.mpr ⟨hm', hr'.trans hr.symm⟩
  exact hs'

def keycloak : JWTAuthProfileEntry where
  name                     := some " keycloak"
  issuer                   := some "https://idp.example/realms/a"
  jwksUrl                  := none
  audiences                := some ["api", "web"]
  algs                     := none
  leewaySec                := none
  refreshSec               := some 0
  tenantClaim              := some "org"
  userClaim                := none
  modelsClaim              := none
  rolesClaim               := none
  modelRolePrefix          := none
  usernameClaim            := none
  modelAuthz               := some "allow-all"
  defaultTenant            := some ""
  forwardIdentity          := some true
  authorizationPassthrough := none
  priorityClass            := none

theorem jwtProfileApplied_keycloak : jwtProfileApplied keycloak [normalizeJWTAuthProfile keycloak,
    { keycloak with name := some "keycloak-2" }] = true := by
  refine (jwtProfileApplied_exact <| by decide).1.mpr ⟨_, .head _, rfl, ?_⟩
  refine normalize_same (fun _ h => by contradiction) fun n h => ?_
  obtain rfl := Option.some_inj.mp h
  rfl

-- A name of a claim with a blank in front of it is another name, and is taken for the same.
theorem not_jwtProfileApplied_exact : ¬∀ p rows, (rows.map JWTAuthProfileEntry.name).Nodup →
    jwtProfileApplied p rows = true → ∃ row ∈ rows,
      row.name = some (JsString.trim <| p.name.getD "") ∧ SameProfileBy writtenText row p := by
  intro h
  have ha : jwtProfileApplied { keycloak with tenantClaim := some " org" }
      [normalizeJWTAuthProfile { keycloak with tenantClaim := some " org" }] = true := by
    refine jwtProfileApplied_normalize (fun _ h => by contradiction) fun n h => ?_
    obtain rfl := Option.some_inj.mp h
    rfl
  obtain ⟨row, hm, -, hs⟩ := h _ _ (by simp) ha
  obtain rfl := List.mem_singleton.mp hm
  exact absurd hs.tenantClaim <| by decide

end Applied

end ConfirmPredicates
