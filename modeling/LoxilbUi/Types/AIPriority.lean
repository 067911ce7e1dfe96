import LoxilbUi.Library.JsString

-- types/ai_priority.ts: the priority fields of an identity, as it reads back, as a form holds them and
-- as a write sends them. What reads back may leave a member out or hold a null: both are `none`.

namespace AIPriority

inductive PriorityScope
  | key
  | tenant
  | jwt
  deriving DecidableEq

structure PriorityDraft where
  priorityClass     : String
  defaultObjective  : String
  allowedObjectives : String

structure PriorityFields where
  priorityClass     : Option String
  defaultObjective  : Option String
  allowedObjectives : Option (List String)

structure PriorityWrite where
  priorityClass     : Option String
  defaultObjective  : Option String
  allowedObjectives : Option (List String)
  deriving DecidableEq

-- Trimmed names that are not empty, in order.
def parseObjectiveList (text : String) : List String :=
  (JsString.split text ',').map JsString.trim |>.filter (· ≠ "")

def objectiveListText (list : Option (List String)) : String :=
  ", ".intercalate <| list.getD []

def priorityDraftFrom (fields : Option PriorityFields) : PriorityDraft where
  priorityClass     := (fields.bind PriorityFields.priorityClass).getD ""
  defaultObjective  := (fields.bind PriorityFields.defaultObjective).getD ""
  allowedObjectives := objectiveListText <| fields.bind PriorityFields.allowedObjectives

-- Only the fields that differ from the identity as read.
def priorityChangedFields (draft : PriorityDraft) (current : Option PriorityFields)
    (scope : PriorityScope) : PriorityWrite :=
  let priorityClass :=
    if draft.priorityClass ≠ (current.bind PriorityFields.priorityClass).getD "" then
      some draft.priorityClass
    else none
  if scope = .jwt then ⟨priorityClass, none, none⟩
  else
    let objective := JsString.trim draft.defaultObjective
    let allowed := parseObjectiveList draft.allowedObjectives
    { priorityClass     := priorityClass
      defaultObjective  :=
        if objective ≠ (current.bind PriorityFields.defaultObjective).getD "" then some objective
        else none
      allowedObjectives :=
        if JsString.joinComma allowed ≠
            JsString.joinComma ((current.bind PriorityFields.allowedObjectives).getD []) then
          some allowed
        else none }

end AIPriority
