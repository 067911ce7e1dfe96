import LoxilbUi.Hooks.ConfirmPredicates
import LoxilbUi.Hooks.LbRuleApplied
import LoxilbUi.Library.Json

-- The identity of a row of the rule list against the identity that a confirmation goes by.

namespace LBRuleRows

open LoadBalancer LBIdentity LBRuleApplied ConfirmPredicates

variable {a b : JsObject} {r s : ServiceConfiguration} {rows : List ServiceConfiguration}
variable {v w : JsValue} {field : String}

def IsText (v : JsValue) : Prop :=
  v.isNil ∨ ∃ s, v = .string s

def textFields : List String :=
  ["externalIP", "host", "path_prefix", "path_match_mode", "model_name", "name"]

-- The members that tell rows apart are of the types that a rule declares.
structure Declared (args : JsObject) : Prop where
  texts    : ∀ field ∈ textFields, IsText (args.get field)
  protocol : IsText (args.get "protocol")
  id       : IsText (args.get "id")
  port     : ∃ n, args.get "port" = .number n
  portMax  : (args.get "portMax").isNil ∨ ∃ n, args.get "portMax" = .number n

def Keyless (args : JsObject) : Prop :=
  JsString.trim (text <| args.get "id") = ""

-- One of two rules is not taken for the other.
def Differ (a b : JsObject) : Prop :=
  sameRule a b = false ∨ sameRule b a = false

-- A JSON text has the same for both: nothing, one number, or a number that is not finite.
inductive SameNumeral : JsValue → JsValue → Prop
  | absent {v w : JsValue} (hv : v.isNil) (hw : w.isNil) : SameNumeral v w
  | finite (d : Decimal) : SameNumeral (.number <| .finite d) (.number <| .finite d)
  | unbounded {m n : JsNumber} (hm : ∀ d, m ≠ .finite d) (hn : ∀ d, n ≠ .finite d) :
    SameNumeral (.number m) (.number n)

-- Two rules that have in common what a row is told by.
structure ShareRow (a b : JsObject) : Prop where
  texts    : ∀ field ∈ textFields, text (a.get field) = text (b.get field)
  protocol : JsString.toLowerCase (text <| a.get "protocol") =
    JsString.toLowerCase (text <| b.get "protocol")
  port     : SameNumeral (a.get "port") (b.get "port")
  portMax  : SameNumeral (a.get "portMax") (b.get "portMax")

-- What a confirmation looks at besides.
def Blurred (a b : JsObject) : Prop :=
  ShareRow a b ∧ ¬((a.get "port").strictEq (b.get "port") ∧
    (portMaxOf a).strictEq (portMaxOf b) ∧ (blockOf a).strictEq (blockOf b))

section SameRule

theorem name_strictEq (hb : IsText w) (h : text v = text w) (hn : text v ≠ "") :
    w.strictEq v = true := by
  obtain hb | ⟨t, rfl⟩ := hb
  · cases w <;> simp_all [JsValue.isNil, text]
  · cases v <;> simp_all [JsValue.strictEq, text]

-- Rules that share a row are the same rule if only the rest is the same.
theorem ShareRow.sameRule_iff (h : ShareRow a b) (hb : Declared b) :
    sameRule a b = true ↔ (a.get "port").strictEq (b.get "port") ∧
      (portMaxOf a).strictEq (portMaxOf b) ∧ (blockOf a).strictEq (blockOf b) := by
  have ht {field : String} (hf : field ∈ textFields) : text (b.get field) = text (a.get field) :=
    (h.texts field hf).symm
  have hm : matchMode b = matchMode a := by
    rw [matchMode, matchMode, ht (by decide)]
  have hn : (text (a.get "name") ≠ "" && !(b.get "name").strictEq (a.get "name")) = false := by
    by_cases hc : text (a.get "name") = ""
    · simp [hc]
    · simp [name_strictEq (hb.texts "name" (by decide)) (h.texts "name" (by decide)) hc]
  simp only [sameRule, @ht "externalIP" (by decide), @ht "host" (by decide),
    @ht "path_prefix" (by decide), @ht "model_name" (by decide), h.protocol, hm, hn, ne_eq,
    not_true_eq_false, if_false, Bool.false_eq_true, @JsValue.strictEq_comm (b.get "port"),
    @JsNumber.strictEq_comm (portMaxOf b)]
  grind

end SameRule

section Identity

-- What stands in the text of a row for a member.
def cell (v : JsValue) : Json :=
  (v.orElse (.string "")).json.getD .null

theorem cell_text (h : IsText v) : cell v = .string (text v) := by
  obtain h | ⟨t, rfl⟩ := h
  · cases v <;> simp_all [JsValue.isNil, JsValue.orElse, JsValue.json, text, cell]
  · rfl

theorem lowered_eq (h : IsText v) : lowered v = some (JsString.toLowerCase <| text v) := by
  obtain h | ⟨t, rfl⟩ := h
  · cases v <;> simp_all [JsValue.isNil, lowered, text] <;> rfl
  · rfl

theorem cell_nil (h : v.isNil) : cell v = .string "" := by
  rw [cell, JsValue.orElse, if_pos h]
  rfl

theorem cell_number_ne {n : JsNumber} {t : String} : cell (.number n) ≠ .string t := by
  cases n <;> simp [cell, JsValue.orElse, JsValue.isNil, JsValue.json]

theorem cell_number_eq_iff {m n : JsNumber} :
    cell (.number m) = cell (.number n) ↔ SameNumeral (.number m) (.number n) := by
  constructor
  case mp =>
    intro h
    cases m <;> cases n <;> simp only [cell, JsValue.orElse, JsValue.isNil, JsValue.json,
      Bool.false_eq_true, if_false, Option.getD_some, reduceCtorEq, Json.number.injEq] at h
    case finite.finite => exact h ▸ .finite _
    all_goals exact .unbounded (by simp) (by simp)
  case mpr =>
    intro h
    cases h
    case absent hv _     => contradiction
    case finite          => rfl
    case unbounded hm hn => cases m <;> cases n <;> first | rfl | simp_all

theorem cell_eq_iff (hv : v.isNil ∨ ∃ n, v = .number n) (hw : w.isNil ∨ ∃ n, w = .number n) :
    cell v = cell w ↔ SameNumeral v w := by
  obtain hv | ⟨m, rfl⟩ := hv <;> obtain hw | ⟨n, rfl⟩ := hw
  · exact iff_of_true (by rw [cell_nil hv, cell_nil hw]) <| .absent hv hw
  · rw [cell_nil hv]
    refine iff_of_false cell_number_ne.symm fun h => ?_
    cases h <;> contradiction
  · rw [cell_nil hw]
    refine iff_of_false cell_number_ne fun h => ?_
    cases h <;> contradiction
  · exact cell_number_eq_iff

def cells (args : JsObject) : List Json :=
  [cell (args.get "externalIP"), cell (args.get "port"), cell (args.get "portMax"),
    .string (JsString.toLowerCase <| text <| args.get "protocol"), cell (args.get "host"),
    cell (args.get "path_prefix"), cell (args.get "path_match_mode"), cell (args.get "model_name"),
    cell (args.get "name")]

theorem canonicalLBRuleIdentity_eq (hr : Declared r.serviceArguments) :
    canonicalLBRuleIdentity r = some (Json.text <| .array <| cells r.serviceArguments) := by
  rw [canonicalLBRuleIdentity, lowered_eq hr.protocol]
  exact JsValue.stringify_eq _

theorem cells_eq_iff (ha : Declared a) (hb : Declared b) : cells a = cells b ↔ ShareRow a b := by
  have ht (field : String) (hf : field ∈ textFields) :
      cell (a.get field) = cell (b.get field) ↔ text (a.get field) = text (b.get field) := by
    rw [cell_text <| ha.texts field hf, cell_text <| hb.texts field hf, Json.string.injEq]
  have hport := cell_eq_iff (.inr ha.port) (.inr hb.port)
  have hmax := cell_eq_iff ha.portMax hb.portMax
  simp only [textFields, List.forall_mem_cons] at ht
  simp only [cells, List.cons.injEq, hport, hmax, ht, Json.string.injEq, and_true]
  constructor
  case mp =>
    rintro ⟨hip, hport, hmax, hprotocol, hhost, hpath, hmode, hmodel, hname⟩
    refine ⟨?_, hprotocol, hport, hmax⟩
    simp [textFields, *]
  case mpr =>
    rintro ⟨htexts, hprotocol, hport, hmax⟩
    simp only [textFields, List.forall_mem_cons] at htexts
    obtain ⟨hip, hhost, hpath, hmode, hmodel, hname, -⟩ := htexts
    exact ⟨hip, hport, hmax, hprotocol, hhost, hpath, hmode, hmodel, hname⟩

-- The text of a row is what the rules of the row share.
theorem text_cells_eq_iff (ha : Declared a) (hb : Declared b) :
    Json.text (.array <| cells a) = Json.text (.array <| cells b) ↔ ShareRow a b := by
  rw [Json.text_injective.eq_iff, Json.array.injEq, cells_eq_iff ha hb]

end Identity

-- `lbAttr.find(a => lbRuleRowId(a) === id)`
def resolveRow (id : String) (list : List ServiceConfiguration) : Option ServiceConfiguration :=
  list.find? fun r => lbRuleRowId r = some id

-- What the rows of a list and the ids they are selected by owe one another.
structure Separates (rows : List ServiceConfiguration) : Prop where
  ids      : ∀ r ∈ rows, ∀ s ∈ rows, Keyless r.serviceArguments → Keyless s.serviceArguments →
    Differ r.serviceArguments s.serviceArguments → lbRuleRowId r ≠ lbRuleRowId s
  resolves : ∀ r ∈ rows, Keyless r.serviceArguments → ∀ list ⊆ rows, ∀ id s,
    lbRuleRowId r = some id → resolveRow id list = some s →
    Keyless s.serviceArguments ∧ ¬Differ r.serviceArguments s.serviceArguments
  gone     : ∀ deleted ⊆ rows, ∀ list ⊆ rows,
    (∀ d ∈ deleted ++ list, Keyless d.serviceArguments) →
    (∀ d ∈ deleted, ∀ r ∈ list, Differ d.serviceArguments r.serviceArguments) →
    lbRulesGone deleted list = some true

section Separates

theorem key_append_inj {t t' : String} (h : "key:" ++ t = "key:" ++ t') : t = t' := by
  have h := congrArg String.toList h
  rw [String.toList_append, String.toList_append, List.append_cancel_left_eq] at h
  exact String.toList_inj.mp h

theorem key_ne_id {t t' : String} : "key:" ++ t ≠ "id:" ++ t' := by
  intro h
  have h := congrArg String.toList h
  rw [String.toList_append, String.toList_append] at h
  cases h

theorem lbRuleRowId_keyless (hr : Declared r.serviceArguments) (hk : Keyless r.serviceArguments) :
    lbRuleRowId r = some ("key:" ++ Json.text (.array <| cells r.serviceArguments)) := by
  have hc := canonicalLBRuleIdentity_eq hr
  obtain h | ⟨t, h⟩ := hr.id
  · simp only [lbRuleRowId]
    split
    all_goals simp_all [JsValue.isNil]
  · rw [Keyless, h] at hk
    simp only [lbRuleRowId, h, hc]
    exact if_pos hk

theorem lbRuleRowId_id (hr : Declared r.serviceArguments) (hk : ¬Keyless r.serviceArguments) :
    lbRuleRowId r = some ("id:" ++ JsString.trim (text <| r.serviceArguments.get "id")) := by
  obtain h | ⟨t, h⟩ := hr.id
  · refine absurd ?_ hk
    have ht : text (r.serviceArguments.get "id") = "" := by
      generalize r.serviceArguments.get "id" = v at h
      cases v <;> simp_all [JsValue.isNil, text]
    rw [Keyless, ht]
    decide
  · rw [Keyless, h] at hk
    simp only [lbRuleRowId, h]
    exact if_neg hk

theorem lbRuleRowId_eq_iff (hr : Declared r.serviceArguments) (hs : Declared s.serviceArguments)
    (hrk : Keyless r.serviceArguments) : lbRuleRowId r = lbRuleRowId s ↔
      Keyless s.serviceArguments ∧ ShareRow r.serviceArguments s.serviceArguments := by
  rw [lbRuleRowId_keyless hr hrk]
  by_cases hsk : Keyless s.serviceArguments
  · rw [lbRuleRowId_keyless hs hsk, ← text_cells_eq_iff hr hs, Option.some_inj]
    constructor
    case mp  => exact fun h => ⟨hsk, key_append_inj h⟩
    case mpr => exact fun h => by rw [h.2]
  · rw [lbRuleRowId_id hs hsk, Option.some_inj]
    exact iff_of_false key_ne_id fun h => hsk h.1

theorem ShareRow.symm (h : ShareRow a b) (ha : Declared a) (hb : Declared b) : ShareRow b a :=
  (text_cells_eq_iff hb ha).mp ((text_cells_eq_iff ha hb).mpr h).symm

-- Rules of one row differ in what the row is not told by.
theorem ShareRow.differ_iff (h : ShareRow a b) (ha : Declared a) (hb : Declared b) :
    Differ a b ↔ Blurred a b := by
  have hab := h.sameRule_iff hb
  have hba := (h.symm ha hb).sameRule_iff ha
  rw [@JsValue.strictEq_comm (b.get "port"), @JsNumber.strictEq_comm (portMaxOf b),
    @JsNumber.strictEq_comm (blockOf b), ← hab] at hba
  rw [Differ, Blurred, ← hab, Bool.not_eq_true, ← Bool.not_eq_true (sameRule b a), hba,
    Bool.not_eq_true, or_self, and_iff_right h]

theorem mapM_canonicalLBRuleIdentity (hd : ∀ r ∈ rows, Declared r.serviceArguments) :
    rows.mapM canonicalLBRuleIdentity =
      some (rows.map fun r => Json.text <| .array <| cells r.serviceArguments) := by
  induction rows
  case nil => rfl
  case cons r rows hi =>
    obtain ⟨hr, hd⟩ := List.forall_mem_cons.mp hd
    rw [List.mapM_cons, canonicalLBRuleIdentity_eq hr, hi hd]
    rfl

theorem allM_eq_some {α : Type*} {f : α → Option Bool} {g : α → Bool} {l : List α}
    (h : ∀ a ∈ l, f a = some (g a)) : l.allM f = some (l.all g) := by
  induction l
  case nil => rfl
  case cons a l hi =>
    obtain ⟨ha, hl⟩ := List.forall_mem_cons.mp h
    rw [List.allM, ha, Option.bind_eq_bind, Option.bind_some, List.all_cons]
    cases g a
    · rfl
    · exact hi hl

theorem lbRulesGone_iff {deleted list : List ServiceConfiguration}
    (hd : ∀ d ∈ deleted, Declared d.serviceArguments)
    (hl : ∀ r ∈ list, Declared r.serviceArguments) : lbRulesGone deleted list = some true ↔
      ∀ d ∈ deleted, ∀ r ∈ list, ¬ShareRow r.serviceArguments d.serviceArguments := by
  let line (r : ServiceConfiguration) := Json.text (.array <| cells r.serviceArguments)
  have hgone : lbRulesGone deleted list =
      some (deleted.all fun d => decide (line d ∉ list.map line)) := by
    rw [lbRulesGone, mapM_canonicalLBRuleIdentity hl, Option.bind_eq_bind, Option.bind_some]
    refine allM_eq_some fun d h => ?_
    rw [canonicalLBRuleIdentity_eq <| hd d h]
    rfl
  rw [hgone, Option.some_inj, List.all_eq_true]
  refine forall₂_congr fun d h => ?_
  rw [decide_eq_true_eq, List.mem_map, not_exists]
  refine forall_congr' fun r => ?_
  rw [not_and]
  refine forall_congr' fun hr => not_congr ?_
  exact text_cells_eq_iff (hl r hr) (hd d h)

-- Rows keep rules apart, as far as two rules of one row have the same port and range, in numbers
-- that can be compared, and the same mark.
theorem separates_iff (hd : ∀ r ∈ rows, Declared r.serviceArguments) : Separates rows ↔
    ∀ r ∈ rows, ∀ s ∈ rows, Keyless r.serviceArguments → Keyless s.serviceArguments →
      ¬Blurred r.serviceArguments s.serviceArguments := by
  constructor
  case mp =>
    intro h r hr s hs hrk hsk hb
    refine h.ids r hr s hs hrk hsk ?_ ?_
    · exact (hb.1.differ_iff (hd r hr) (hd s hs)).mpr hb
    · exact (lbRuleRowId_eq_iff (hd r hr) (hd s hs) hrk).mpr ⟨hsk, hb.1⟩
  case mpr =>
    intro h
    have hids : ∀ r ∈ rows, ∀ s ∈ rows, Keyless r.serviceArguments → Keyless s.serviceArguments →
        ShareRow r.serviceArguments s.serviceArguments →
        ¬Differ r.serviceArguments s.serviceArguments := by
      intro r hr s hs hrk hsk hshare hdiffer
      exact h r hr s hs hrk hsk <| (hshare.differ_iff (hd r hr) (hd s hs)).mp hdiffer
    constructor
    case ids =>
      intro r hr s hs hrk hsk hdiffer he
      obtain ⟨-, hshare⟩ := (lbRuleRowId_eq_iff (hd r hr) (hd s hs) hrk).mp he
      exact hids r hr s hs hrk hsk hshare hdiffer
    case resolves =>
      intro r hr hrk list hl id s hid hs
      have hsl := hl <| List.mem_of_find?_eq_some hs
      have hsid := List.find?_some hs
      rw [decide_eq_true_eq, ← hid, eq_comm] at hsid
      obtain ⟨hsk, hshare⟩ := (lbRuleRowId_eq_iff (hd r hr) (hd s hsl) hrk).mp hsid
      exact ⟨hsk, hids r hr s hsl hrk hsk hshare⟩
    case gone =>
      intro deleted hdel list hl hk hdiffer
      refine (lbRulesGone_iff (fun d h => hd d <| hdel h) fun r h => hd r <| hl h).mpr ?_
      intro d hdm r hrm hshare
      have hrd := hd r <| hl hrm
      have hdd := hd d <| hdel hdm
      refine hids d (hdel hdm) r (hl hrm) ?_ ?_ (hshare.symm hrd hdd) <| hdiffer d hdm r hrm
      · exact hk d <| List.mem_append_left _ hdm
      · exact hk r <| List.mem_append_right _ hrm

def ruleWith (host : String) (block : Nat) : ServiceConfiguration where
  serviceArguments := ⟨[("externalIP", .string "192.0.2.10"), ("port", .number 80),
    ("protocol", .string "tcp"), ("host", .string host),
    ("block", .number <| .finite <| .ofInt block)], by simp⟩
  endpoints        := none
  secondaryIPs     := none
  allowedSources   := none

theorem declared_ruleWith {host : String} {block : Nat} :
    Declared (ruleWith host block).serviceArguments := by
  constructor
  case texts    =>
    simp only [textFields, List.forall_mem_cons, List.not_mem_nil, false_implies, implies_true,
      and_true]
    exact ⟨.inr ⟨_, rfl⟩, .inr ⟨_, rfl⟩, .inl rfl, .inl rfl, .inl rfl, .inl rfl⟩
  case protocol => exact .inr ⟨_, rfl⟩
  case id       => exact .inl rfl
  case port     => exact ⟨_, rfl⟩
  case portMax  => exact .inl rfl

theorem keyless_ruleWith {host : String} {block : Nat} :
    Keyless (ruleWith host block).serviceArguments := by
  have ht : text ((ruleWith host block).serviceArguments.get "id") = "" := rfl
  rw [Keyless, ht]
  decide

theorem separates_hosts : Separates [ruleWith "a.example" 0, ruleWith "b.example" 0] := by
  refine (separates_iff fun r hr => ?_).mpr fun r hr s hs _ _ hb => ?_
  · simp only [List.mem_cons, List.not_mem_nil, or_false] at hr
    obtain rfl | rfl := hr <;> exact declared_ruleWith
  · simp only [List.mem_cons, List.not_mem_nil, or_false] at hr hs
    obtain rfl | rfl := hr <;> obtain rfl | rfl := hs
    · exact hb.2 <| by decide
    · exact absurd (hb.1.texts "host" <| by decide) <| by decide
    · exact absurd (hb.1.texts "host" <| by decide) <| by decide
    · exact hb.2 <| by decide

-- Two rules of one tuple that differ by their mark alone: a confirmation tells them apart, and their
-- rows have one id.
theorem not_separates_block : ¬∀ rows, (∀ r ∈ rows, Declared r.serviceArguments) →
    Separates rows := by
  intro h
  have hs := h [ruleWith "a.example" 1, ruleWith "a.example" 2] fun r hr => by
    simp only [List.mem_cons, List.not_mem_nil, or_false] at hr
    obtain rfl | rfl := hr <;> exact declared_ruleWith
  exact hs.ids _ (.head _) _ (.tail _ <| .head _) keyless_ruleWith keyless_ruleWith
    (.inl <| by decide) rfl

end Separates

end LBRuleRows
