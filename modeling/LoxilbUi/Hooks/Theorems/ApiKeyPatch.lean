import LoxilbUi.Hooks.ConfirmPredicates

-- What the confirmation of a patch to an API key says of the key that is listed.

namespace ConfirmPredicates

open AI JsString

variable {keyId : String} {patch : ApiKeyPatch} {rows : List ApiKeyRow} {row : ApiKeyRow}
variable {asked served : Option JsNumber}

-- What is asked for besides the lists reads back: absent is 0, enabled, and no name.
structure ReadsBackRest (patch : ApiKeyPatch) (row : ApiKeyRow) : Prop where
  rateLimitRps     : ∀ n, patch.rateLimitRps = some n → n.strictEq (row.rateLimitRps.getD 0)
  burstSize        : ∀ n, patch.burstSize = some n → n.strictEq (row.burstSize.getD 0)
  tokensPerMin     : ∀ n, patch.tokensPerMin = some n → n.strictEq (row.tokensPerMin.getD 0)
  enabled          : ∀ b, patch.enabled = some b → b = row.enabled.getD true
  priorityClass    : ∀ c, patch.priorityClass = some c → c = row.priorityClass.join.getD ""
  defaultObjective : ∀ o, patch.defaultObjective = some o → o = row.defaultObjective.join.getD ""

-- The lists read back, by a relation of what is asked to what is served; absent is the empty list.
structure ReadsBackLists (r : List String → List String → Prop) (patch : ApiKeyPatch)
    (row : ApiKeyRow) : Prop where
  allowedModels     : ∀ models, patch.allowedModels = some models → r models (row.allowedModels.getD [])
  allowedObjectives : ∀ names, patch.allowedObjectives = some names →
    r names (row.allowedObjectives.join.getD [])

-- The row of the key, the first if there are more.
def rowOf (keyId : String) (rows : List ApiKeyRow) : Option ApiKeyRow :=
  rows.find? fun r => r.keyId = some keyId

-- A confirmation is to be had only where the key reads back as asked.
def Sound (keyId : String) (patch : ApiKeyPatch) (rows : List ApiKeyRow) : Prop :=
  apiKeyPatchApplied keyId patch rows = true →
    ∃ row, rowOf keyId rows = some row ∧ ReadsBackRest patch row ∧ ReadsBackLists Eq patch row

-- Cut at the commas, the lists are the same.
def SamePieces (ss ts : List String) : Prop :=
  pieces ',' ss = pieces ',' ts

-- The key reads back as asked, but for lists of other names that are cut to the same pieces.
structure Confused (patch : ApiKeyPatch) (row : ApiKeyRow) : Prop where
  rest   : ReadsBackRest patch row
  pieces : ReadsBackLists SamePieces patch row
  names  : (∃ models, patch.allowedModels = some models ∧ models ≠ row.allowedModels.getD []) ∨
    ∃ names, patch.allowedObjectives = some names ∧ names ≠ row.allowedObjectives.join.getD []

theorem numericMatches_iff : numericMatches asked served = true ↔
    ∀ n, asked = some n → n.strictEq (served.getD 0) := by
  cases asked <;> simp [numericMatches]

theorem named_iff {asked : Option String} {served : String} :
    ((asked.map some).isNone || (asked.map some).join.getD "" = served) = true ↔
      ∀ c, asked = some c → c = served := by
  cases asked <;> simp

theorem samePriorityFields_iff :
    samePriorityFields (priorityOf patch) row.toPriorityAsked = true ↔
      (∀ c, patch.priorityClass = some c → c = row.priorityClass.join.getD "") ∧
      (∀ o, patch.defaultObjective = some o → o = row.defaultObjective.join.getD "") ∧
      ∀ names, patch.allowedObjectives = some names →
        SamePieces names (row.allowedObjectives.join.getD []) := by
  have hl : ((patch.allowedObjectives.map some).isNone ||
      joinComma ((patch.allowedObjectives.map some).join.getD []) =
        joinComma (row.allowedObjectives.join.getD [])) = true ↔
      ∀ names, patch.allowedObjectives = some names →
        SamePieces names (row.allowedObjectives.join.getD []) := by
    cases patch.allowedObjectives <;> simp [SamePieces, joinComma_eq_iff]
  rw [samePriorityFields, Bool.and_eq_true, Bool.and_eq_true, and_assoc]
  exact and_congr named_iff <| and_congr named_iff hl

theorem apiKeyPatchApplied_iff : apiKeyPatchApplied keyId patch rows = true ↔
    ∃ row, rowOf keyId rows = some row ∧ ReadsBackRest patch row ∧
      ReadsBackLists SamePieces patch row := by
  rw [apiKeyPatchApplied, Option.any_eq_true]
  refine exists_congr fun row => and_congr_right fun _ => ?_
  have he : (patch.enabled.all fun enabled => enabled = decide (row.enabled ≠ some false)) = true ↔
      ∀ b, patch.enabled = some b → b = row.enabled.getD true := by
    cases patch.enabled
    case none   => simp
    case some b => rcases row.enabled with _ | _ | _ <;> simp
  have hm : (patch.allowedModels.all fun models =>
      joinComma models = joinComma (row.allowedModels.getD [])) = true ↔
      ∀ models, patch.allowedModels = some models →
        SamePieces models (row.allowedModels.getD []) := by
    cases patch.allowedModels <;> simp [SamePieces, joinComma_eq_iff]
  simp only [Bool.and_eq_true, numericMatches_iff, he, hm, samePriorityFields_iff]
  constructor
  case mp =>
    rintro ⟨⟨⟨⟨⟨hr, hb⟩, ht⟩, he⟩, hm⟩, hc, ho, hn⟩
    exact ⟨⟨hr, hb, ht, he, hc, ho⟩, hm, hn⟩
  case mpr =>
    rintro ⟨⟨hr, hb, ht, he, hc, ho⟩, hm, hn⟩
    exact ⟨⟨⟨⟨⟨hr, hb⟩, ht⟩, he⟩, hm⟩, hc, ho, hn⟩

-- A confirmation can be trusted where the row of the key is not confused with what was asked for.
theorem sound_iff : Sound keyId patch rows ↔
    ∀ row, rowOf keyId rows = some row → ¬Confused patch row := by
  rw [Sound, apiKeyPatchApplied_iff]
  constructor
  case mp =>
    intro h row hrow hc
    obtain ⟨row', hrow', -, heq⟩ := h ⟨row, hrow, hc.rest, hc.pieces⟩
    obtain rfl := Option.some_inj.mp <| hrow.symm.trans hrow'
    obtain ⟨models, hp, hn⟩ | ⟨names, hp, hn⟩ := hc.names
    · exact hn <| heq.allowedModels models hp
    · exact hn <| heq.allowedObjectives names hp
  case mpr =>
    rintro h ⟨row, hrow, hrest, hlists⟩
    have hn := fun hn => h row hrow ⟨hrest, hlists, hn⟩
    refine ⟨row, hrow, hrest, fun models hp => ?_, fun names hp => ?_⟩
    · exact not_not.mp fun he => hn <| .inl ⟨models, hp, he⟩
    · exact not_not.mp fun he => hn <| .inr ⟨names, hp, he⟩

def objectivesPatch (names : List String) : ApiKeyPatch where
  allowedModels     := none
  enabled           := none
  rateLimitRps      := none
  burstSize         := none
  tokensPerMin      := none
  priorityClass     := none
  defaultObjective  := none
  allowedObjectives := some names

def objectivesRow (names : List String) : ApiKeyRow where
  keyId             := some "k1"
  allowedModels     := none
  enabled           := some true
  rateLimitRps      := none
  burstSize         := none
  tokensPerMin      := none
  priorityClass     := none
  defaultObjective  := none
  allowedObjectives := some <| some names

-- A model with a comma is refused before it is sent, an objective is not.
theorem not_sound_commaObjective : ¬∀ keyId patch rows, validateApiKeyPatch patch = [] →
    Sound keyId patch rows := by
  intro h
  have hs := h "k1" (objectivesPatch ["a,b"]) [objectivesRow ["a", "b"]] <| by decide
  obtain ⟨row, hrow, -, heq⟩ := hs <| by decide
  obtain rfl := Option.some_inj.mp <| hrow.symm.trans rfl
  exact absurd (heq.allowedObjectives _ rfl) <| by decide

section Names

variable {seen names models : List String}

theorem includes_comma {s : String} (h : ',' ∈ s.toList) : includes s "," = true :=
  decide_eq_true <| List.singleton_infix_iff _ _ |>.mpr h

theorem modelErrors_nil (h : modelErrors seen models = []) :
    ∀ model ∈ models, trim model ≠ "" ∧ ',' ∉ model.toList := by
  induction models generalizing seen
  case nil => simp
  case cons model models hi =>
    rw [modelErrors] at h
    split at h
    case isTrue => exact absurd h <| List.cons_ne_nil _ _
    case isFalse ht =>
      split at h
      case isTrue => exact absurd h <| List.cons_ne_nil _ _
      case isFalse hc =>
        split at h
        case isTrue  => exact absurd h <| List.cons_ne_nil _ _
        case isFalse =>
          exact List.forall_mem_cons.mpr ⟨⟨ht, fun hm => hc <| includes_comma hm⟩, hi h⟩

theorem objectiveErrors_nil (h : objectiveErrors seen names = []) :
    ∀ name ∈ names, trim name ≠ "" := by
  induction names generalizing seen
  case nil => simp
  case cons name names hi =>
    rw [objectiveErrors] at h
    split at h
    case isTrue => exact absurd h <| List.cons_ne_nil _ _
    case isFalse ht =>
      split at h
      case isTrue  => exact absurd h <| List.cons_ne_nil _ _
      case isFalse => exact List.forall_mem_cons.mpr ⟨ht, hi h⟩

-- A patch that passes is confused with a row only where an objective that is asked for, or a name that
-- is served, has a comma in it, or where a name is served that is empty.
theorem Confused.comma (hc : Confused patch row) (hv : validateApiKeyPatch patch = []) :
    (∃ names, patch.allowedObjectives = some names ∧ ∃ name ∈ names, ',' ∈ name.toList) ∨
    ∃ name ∈ row.allowedModels.getD [] ++ row.allowedObjectives.join.getD [],
      ',' ∈ name.toList ∨ name = "" := by
  by_contra hno
  simp only [not_or, not_exists, not_and] at hno
  obtain ⟨hasked, hserved⟩ := hno
  rw [validateApiKeyPatch] at hv
  split at hv
  case isTrue => exact absurd hv <| List.cons_ne_nil _ _
  case isFalse =>
    simp only [List.append_eq_nil_iff] at hv
    obtain ⟨⟨-, hobjectives⟩, hmodels⟩ := hv
    obtain ⟨models, hp, hne⟩ | ⟨names, hp, hne⟩ := hc.names
    · rw [hp] at hmodels
      have hvalid := modelErrors_nil hmodels
      refine hne <| eq_of_pieces_eq (hc.pieces.allowedModels models hp) ?_ ?_ ?_ ?_
      · exact fun model hm => (hvalid model hm).2
      · exact fun name hn => (hserved name <| List.mem_append_left _ hn).1
      · exact fun hm => (hvalid "" hm).1 <| by decide
      · exact fun hn => (hserved "" <| List.mem_append_left _ hn).2 rfl
    · rw [hp] at hobjectives
      have hvalid := objectiveErrors_nil (List.append_eq_nil_iff.mp hobjectives).2
      refine hne <| eq_of_pieces_eq (hc.pieces.allowedObjectives names hp) ?_ ?_ ?_ ?_
      · exact hasked names hp
      · exact fun name hn => (hserved name <| List.mem_append_right _ hn).1
      · exact fun hm => hvalid "" hm <| by decide
      · exact fun hn => (hserved "" <| List.mem_append_right _ hn).2 rfl

end Names

end ConfirmPredicates
