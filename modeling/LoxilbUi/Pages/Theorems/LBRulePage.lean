import LoxilbUi.Pages.LBRulePage
import LoxilbUi.Types.LbIdentity

-- Which row a 'reconcile' upsert is built on.

namespace LBRulePage

open LoadBalancer LBFullproxyReplace LBIdentity

variable {object patch : JsObject} {k id : String} {canMergePatch : Bool} {changes : LBChanges}
variable {base r row body selectedLB serviceConfig : ServiceConfiguration}
variable {freshAll before after : List ServiceConfiguration}

section Upsert

theorem foldl_set_get {entries : List (String × JsValue)} (h : k ∉ entries.map Prod.fst)
    (object : JsObject) :
    JsObject.get (entries.foldl (fun object (key, v) => object.set key v) object) k =
      object.get k := by
  induction entries generalizing object
  case nil => rfl
  case cons e es hi =>
    simp only [List.map_cons, List.mem_cons, not_or] at h
    rw [List.foldl_cons, hi h.right, JsObject.get_set, if_neg h.left]

theorem spread_get (h : k ∉ patch.keys) : (spread object patch).get k = object.get k :=
  foldl_set_get h object

-- A body holds what the edit left alone as the row does, but for what is only observed of a backend.
structure KeepsRest (changes : LBChanges) (row body : ServiceConfiguration) : Prop where
  arguments      : ∀ k ∉ changes.saPatch.keys, body.serviceArguments.get k = row.serviceArguments.get k
  endpoints      : changes.endpointsChanged = false →
    body.endpoints = some (stripReadFields row.endpoints)
  secondaryIPs   : changes.secondaryChanged = false →
    body.secondaryIPs.getD [] = row.secondaryIPs.getD []
  allowedSources : changes.allowedChanged = false →
    body.allowedSources.getD [] = row.allowedSources.getD []

-- Two rows that differ in nothing but what the edit changes anyway.
structure SameButForEdit (changes : LBChanges) (r row : ServiceConfiguration) : Prop where
  arguments      : ∀ k ∉ changes.saPatch.keys, r.serviceArguments.get k = row.serviceArguments.get k
  endpoints      : changes.endpointsChanged = false →
    stripReadFields r.endpoints = stripReadFields row.endpoints
  secondaryIPs   : changes.secondaryChanged = false → r.secondaryIPs.getD [] = row.secondaryIPs.getD []
  allowedSources : changes.allowedChanged = false →
    r.allowedSources.getD [] = row.allowedSources.getD []

theorem SameButForEdit.refl : SameButForEdit changes row row where
  arguments      := fun _ _ => rfl
  endpoints      := fun _ => rfl
  secondaryIPs   := fun _ => rfl
  allowedSources := fun _ => rfl

theorem keepsRest_upsertOn_iff :
    KeepsRest changes row (upsertOn base serviceConfig changes) ↔ SameButForEdit changes base row := by
  constructor
  case mp =>
    intro h
    constructor
    case arguments      => exact fun k hk => (spread_get hk).symm.trans <| h.arguments k hk
    case endpoints      => exact fun hc => by simpa [upsertOn, hc] using h.endpoints hc
    case secondaryIPs   => exact fun hc => by simpa [upsertOn, hc] using h.secondaryIPs hc
    case allowedSources => exact fun hc => by simpa [upsertOn, hc] using h.allowedSources hc
  case mpr =>
    intro h
    constructor
    case arguments      => exact fun k hk => (spread_get hk).trans <| h.arguments k hk
    case endpoints      => exact fun hc => by simpa [upsertOn, hc] using h.endpoints hc
    case secondaryIPs   => exact fun hc => by simpa [upsertOn, hc] using h.secondaryIPs hc
    case allowedSources => exact fun hc => by simpa [upsertOn, hc] using h.allowedSources hc

end Upsert

-- The first row listed with the tuple of the selected one, or the selected one where none has it.
inductive FirstOfTuple (freshAll : List ServiceConfiguration) (selectedLB : ServiceConfiguration) :
    ServiceConfiguration → Prop
  | listed (before after : List ServiceConfiguration) (r : ServiceConfiguration)
    (hl : freshAll = before ++ r :: after) (hr : sharesTuple selectedLB r = true)
    (hb : ∀ x ∈ before, sharesTuple selectedLB x = false) : FirstOfTuple freshAll selectedLB r
  | gone (h : ∀ x ∈ freshAll, sharesTuple selectedLB x = false) : FirstOfTuple freshAll selectedLB selectedLB

theorem firstOfTuple_iff :
    FirstOfTuple freshAll selectedLB r ↔
      (freshAll.find? <| sharesTuple selectedLB).getD selectedLB = r := by
  constructor
  case mp =>
    rintro (⟨before, after, _, hl, hr, hb⟩ | h)
    · rw [List.find?_eq_some_iff_append.mpr ⟨hr, before, after, hl, by simpa using hb⟩]
      rfl
    · rw [List.find?_eq_none.mpr <| by simpa using h]
      rfl
  case mpr =>
    rintro rfl
    cases hf : freshAll.find? <| sharesTuple selectedLB
    case none => exact .gone <| by simpa using hf
    case some r =>
      obtain ⟨hr, before, after, hl, hb⟩ := List.find?_eq_some_iff_append.mp hf
      exact .listed before after r hl hr <| by simpa using hb

-- A 'reconcile' edit rewrites the row that was selected: the one with its id in the list.
def RewritesSelected (canMergePatch : Bool) (freshAll : List ServiceConfiguration)
    (selectedLB serviceConfig : ServiceConfiguration) : Prop :=
  ∀ body, reconcileUpsert canMergePatch freshAll selectedLB serviceConfig = some body →
    ∀ id, lbRuleRowId selectedLB = some id → ∀ row ∈ freshAll, lbRuleRowId row = some id →
      KeepsRest (lbChanges selectedLB serviceConfig) row body

-- The first row of the tuple is the selected one, as far as the edit can tell.
def SelectedLeads (canMergePatch : Bool) (freshAll : List ServiceConfiguration)
    (selectedLB serviceConfig : ServiceConfiguration) : Prop :=
  isReconcileEdit canMergePatch selectedLB serviceConfig = true →
    ∀ r, FirstOfTuple freshAll selectedLB r →
      ∀ id, lbRuleRowId selectedLB = some id → ∀ row ∈ freshAll, lbRuleRowId row = some id →
        r = row ∨ SameButForEdit (lbChanges selectedLB serviceConfig) r row

theorem reconcileUpsert_eq_some_iff :
    reconcileUpsert canMergePatch freshAll selectedLB serviceConfig = some body ↔
      isReconcileEdit canMergePatch selectedLB serviceConfig = true ∧
        ∃ r, FirstOfTuple freshAll selectedLB r ∧
          upsertOn r serviceConfig (lbChanges selectedLB serviceConfig) = body := by
  simp [reconcileUpsert, firstOfTuple_iff]

theorem rewritesSelected_iff_selectedLeads :
    RewritesSelected canMergePatch freshAll selectedLB serviceConfig ↔
      SelectedLeads canMergePatch freshAll selectedLB serviceConfig := by
  constructor
  case mp =>
    intro h he r hr id hid row hm hrow
    have hu := reconcileUpsert_eq_some_iff.mpr ⟨he, r, hr, rfl⟩
    exact .inr <| keepsRest_upsertOn_iff.mp <| h _ hu id hid row hm hrow
  case mpr =>
    intro h body hb id hid row hm hrow
    obtain ⟨he, r, hr, rfl⟩ := reconcileUpsert_eq_some_iff.mp hb
    refine keepsRest_upsertOn_iff.mpr ?_
    obtain rfl | hs := h he r hr id hid row hm hrow
    · exact .refl
    · exact hs

section TwoHosts

def hostRule (host : String) (inactiveTimeOut : JsNumber) : ServiceConfiguration where
  serviceArguments := {
    entries := [
      ("externalIP", .string "10.0.0.1"),
      ("port", .number 80),
      ("protocol", .string "tcp"),
      ("host", .string host),
      ("inactiveTimeOut", .number inactiveTimeOut)
    ]
    nodup := by simp
  }
  endpoints      := some []
  secondaryIPs   := none
  allowedSources := none

-- The second of two rules that share a tuple is edited: the first is written over it.
theorem not_rewritesSelected_secondHost :
    ¬RewritesSelected false [hostRule "a.example" 240, hostRule "b.example" 240]
      (hostRule "b.example" 240) (hostRule "b.example" 60) := by
  intro h
  have hid : (lbRuleRowId <| hostRule "b.example" 240).isSome = true := by decide +kernel
  obtain ⟨id, hid⟩ := Option.isSome_iff_exists.mp hid
  have hu : reconcileUpsert false [hostRule "a.example" 240, hostRule "b.example" 240]
      (hostRule "b.example" 240) (hostRule "b.example" 60) =
        some (upsertOn (hostRule "a.example" 240) (hostRule "b.example" 60)
          (lbChanges (hostRule "b.example" 240) (hostRule "b.example" 60))) :=
    reconcileUpsert_eq_some_iff.mpr ⟨by decide +kernel, _, .listed [] _ _ rfl rfl nofun, rfl⟩
  have hk := h _ hu id hid _ (.tail _ <| .head _) hid |>.arguments "host" (by decide +kernel)
  exact absurd (congrArg JsValue.toText hk) (by decide +kernel)

end TwoHosts

end LBRulePage
