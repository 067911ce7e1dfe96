import LoxilbUi.Types.AIPriority

-- An edit of the priority fields leaves an identity with what the draft of it states.

namespace AIPriority

open JsString

variable {current : Option PriorityFields} {draft : PriorityDraft} {scope : PriorityScope}
variable {names : List String} {name text : String}

section Names

-- A name as a list of objectives gives it.
structure IsObjective (name : String) : Prop where
  trimmed   : trim name = name
  nonempty  : name ≠ ""
  commaFree : ',' ∉ name.toList

theorem parseObjectiveList_objectives (h : name ∈ parseObjectiveList text) : IsObjective name := by
  obtain ⟨hm, hn⟩ := List.mem_filter.mp h
  obtain ⟨piece, hp, rfl⟩ := List.mem_map.mp hm
  refine ⟨trim_trim, of_decide_eq_true hn, fun hc => ?_⟩
  exact not_mem_of_mem_split hp <| mem_of_mem_trim hc

theorem trim_objectives (h : ∀ name ∈ names, IsObjective name) :
    (names.map trim).filter (· ≠ "") = names := by
  have ht : names.map trim = names := by
    simpa using List.map_congr_left fun name hm => (h name hm).trimmed
  rw [ht]
  exact List.filter_eq_self.mpr fun name hm => decide_eq_true (h name hm).nonempty

-- The blank behind each comma of the text is trimmed off again.
theorem parseObjectiveList_text (h : ∀ name ∈ names, IsObjective name) :
    parseObjectiveList (", ".intercalate names) = names := by
  cases names
  case nil => decide
  case cons name names =>
    have hc : ∀ s ∈ name :: names.map (" " ++ ·), ',' ∉ s.toList := by
      refine List.forall_mem_cons.mpr ⟨(h _ <| .head _).commaFree, fun s hs => ?_⟩
      obtain ⟨n, hn, rfl⟩ := List.mem_map.mp hs
      simpa using (h n <| .tail _ hn).commaFree
    have hb (s : String) : trim (" " ++ s) = trim s := by
      refine trim_append_left fun c hc => ?_
      obtain rfl : c = ' ' := by simpa using hc
      decide
    have ho : String.ofList ∘ String.toList = id := funext fun _ => String.ofList_toList
    have ht : trim ∘ (" " ++ ·) = trim := funext hb
    rw [parseObjectiveList, split, intercalate_commaBlank, joinComma,
      splitOn_intercalate rfl (by simp) hc, List.map_map (f := String.toList), ho, List.map_id,
      List.map_cons, List.map_map, ht]
    exact trim_objectives h

theorem joinComma_objectives {others : List String} (h : ∀ name ∈ names, IsObjective name)
    (h' : ∀ name ∈ others, IsObjective name) (he : joinComma names = joinComma others) :
    names = others :=
  eq_of_pieces_eq (joinComma_eq_iff.mp he) (fun n hn => (h n hn).commaFree)
    (fun n hn => (h' n hn).commaFree) (fun hn => (h "" hn).nonempty rfl)
    (fun hn => (h' _ hn).nonempty rfl)

end Names

section Edit

-- An identity as the gateway serves it: names as they were trimmed when they were written.
structure Canonical (current : Option PriorityFields) : Prop where
  objective  : trim ((current.bind PriorityFields.defaultObjective).getD "") =
    (current.bind PriorityFields.defaultObjective).getD ""
  objectives : ∀ name ∈ (current.bind PriorityFields.allowedObjectives).getD [], IsObjective name

-- A field that is named replaces, or clears where it is named as `blank`; one that is left out keeps.
def layField {α : Type} [DecidableEq α] (blank : α) (named kept : Option α) : Option α :=
  named.elim kept fun v => if v = blank then none else some v

def layOver (write : PriorityWrite) (current : Option PriorityFields) : PriorityFields where
  priorityClass     := layField "" write.priorityClass <| current.bind PriorityFields.priorityClass
  defaultObjective  := layField "" write.defaultObjective <|
    current.bind PriorityFields.defaultObjective
  allowedObjectives := layField [] write.allowedObjectives <|
    current.bind PriorityFields.allowedObjectives

variable {α : Type} [DecidableEq α] {blank v : α} {named kept : Option α}

-- A field is left as `v` if it is named wherever it is not `v` already.
theorem layField_changed {c : Prop} [Decidable c] (hc : c ↔ v ≠ kept.getD blank) :
    (layField blank (if c then some v else none) kept).getD blank = v := by
  split
  case isTrue =>
    by_cases hv : v = blank <;> simp [layField, hv]
  case isFalse h => exact (not_not.mp <| mt hc.mpr h).symm

-- What the draft states is what the identity has.
structure States (fields : PriorityFields) (draft : PriorityDraft) : Prop where
  priorityClass     : fields.priorityClass.getD "" = draft.priorityClass
  defaultObjective  : fields.defaultObjective.getD "" = trim draft.defaultObjective
  allowedObjectives : fields.allowedObjectives.getD [] = parseObjectiveList draft.allowedObjectives

-- Of a profile only the class is the draft's, the rest is as it was.
structure StatesClass (fields : PriorityFields) (draft : PriorityDraft)
    (current : Option PriorityFields) : Prop where
  priorityClass     : fields.priorityClass.getD "" = draft.priorityClass
  defaultObjective  : fields.defaultObjective = current.bind PriorityFields.defaultObjective
  allowedObjectives : fields.allowedObjectives = current.bind PriorityFields.allowedObjectives

theorem unchanged (h : Canonical current) :
    priorityChangedFields (priorityDraftFrom current) current scope = ⟨none, none, none⟩ := by
  have hp : parseObjectiveList (priorityDraftFrom current).allowedObjectives =
      (current.bind PriorityFields.allowedObjectives).getD [] :=
    parseObjectiveList_text h.objectives
  have hc : (priorityDraftFrom current).priorityClass =
      (current.bind PriorityFields.priorityClass).getD "" := rfl
  have ho : trim (priorityDraftFrom current).defaultObjective =
      (current.bind PriorityFields.defaultObjective).getD "" := h.objective
  simp [priorityChangedFields, hp, hc, ho]

theorem changed_states (h : Canonical current) (hs : scope ≠ .jwt) :
    States (layOver (priorityChangedFields draft current scope) current) draft := by
  simp only [priorityChangedFields, if_neg hs, layOver]
  constructor <;> dsimp only
  case priorityClass     => exact layField_changed .rfl
  case defaultObjective  => exact layField_changed .rfl
  case allowedObjectives =>
    -- Lists of objectives are joined to one text only where they are one list.
    have hj : joinComma (parseObjectiveList draft.allowedObjectives) ≠
          joinComma ((current.bind PriorityFields.allowedObjectives).getD []) ↔
        parseObjectiveList draft.allowedObjectives ≠
          (current.bind PriorityFields.allowedObjectives).getD [] :=
      not_congr ⟨joinComma_objectives (fun _ => parseObjectiveList_objectives) h.objectives,
        congrArg joinComma⟩
    exact layField_changed hj

theorem changed_statesClass :
    StatesClass (layOver (priorityChangedFields draft current .jwt) current) draft current := by
  rw [priorityChangedFields, if_pos rfl]
  exact ⟨layField_changed .rfl, rfl, rfl⟩

-- A draft that was not touched changes nothing, and any other leaves what it states.
theorem priorityChangedFields_roundTrip (h : Canonical current) :
    (∀ scope, priorityChangedFields (priorityDraftFrom current) current scope = ⟨none, none, none⟩) ∧
    (∀ draft scope, scope ≠ .jwt →
      States (layOver (priorityChangedFields draft current scope) current) draft) ∧
    ∀ draft, StatesClass (layOver (priorityChangedFields draft current .jwt) current) draft current :=
  ⟨fun _ => unchanged h, fun _ _ => changed_states h, fun _ => changed_statesClass⟩

def gold : PriorityFields where
  priorityClass     := some "critical"
  defaultObjective  := some "gold"
  allowedObjectives := some ["gold", "fast"]

theorem priorityChangedFields_roundTrip_gold : States (layOver (priorityChangedFields
    ⟨"critical", " ", "gold,, silver "⟩ (some gold) .tenant) (some gold))
    ⟨"critical", " ", "gold,, silver "⟩ := by
  refine (priorityChangedFields_roundTrip ⟨by decide, fun name hm => ?_⟩).2.1 _ _ (by decide)
  obtain rfl | rfl : name = "gold" ∨ name = "fast" := by
    simpa using (show name ∈ ["gold", "fast"] from hm)
  all_goals exact ⟨by decide, by decide, by decide⟩

end Edit

end AIPriority
