import LoxilbUi.Types.AuditConfig

-- What the audit forms accept comes back through the gateway's answer and the form again.

namespace AuditConfig

open JsNumber (ofNat maxSafe)

section Numbers

variable {n m k a b : Nat} {text : String} {value min max : JsNumber}

theorem value_ofNat : (Decimal.ofInt (n : Int)).value = n := by
  rw [Decimal.value_ofInt, Int.cast_natCast]

theorem lt_ofNat : (ofNat a).lt (ofNat b) = decide (a < b) := by
  have h : (Decimal.ofInt a).lt (.ofInt b) = decide (a < b) := by
    rw [← Bool.coe_iff_coe, Decimal.lt_iff, decide_eq_true_eq, value_ofNat, value_ofNat]
    exact_mod_cast Iff.rfl
  exact h

theorem strictEq_ofNat : (ofNat a).strictEq (ofNat b) = decide (a = b) := by
  rw [← Bool.coe_iff_coe, decide_eq_true_eq, JsNumber.strictEq_iff]
  exact ⟨fun h => JsNumber.ofNat_injective h.1, fun h => ⟨congrArg ofNat h, nofun⟩⟩

theorem zeroIfAbsent_ofNat : zeroIfAbsent (some <| ofNat n) = ofNat n :=
  rfl

theorem zeroIfAbsent_ne_nan {n : Option JsNumber} : zeroIfAbsent n ≠ .nan := by
  unfold zeroIfAbsent
  split <;> nofun

theorem isSafeInteger_ofNat (h : n ≤ maxSafe) : AI.isSafeInteger (ofNat n) = true := by
  have hmax : Decimal.lt (.ofInt 9007199254740991) (.ofInt n) = false := by
    rw [← Bool.not_eq_true, Decimal.lt_iff, value_ofNat, Decimal.value_ofInt, not_lt]
    exact_mod_cast h
  have hmin : (Decimal.ofInt n).lt (.ofInt (-9007199254740991)) = false := by
    rw [← Bool.not_eq_true, Decimal.lt_iff, value_ofNat, Decimal.value_ofInt, not_lt]
    exact_mod_cast (by omega : (-9007199254740991 : Int) ≤ n)
  simp [AI.isSafeInteger, ofNat, JsNumber.exponent_ofInt_nonneg, hmax, hmin]

theorem le_maxSafe (h : AI.isSafeInteger (ofNat n) = true) : n ≤ maxSafe := by
  simp only [AI.isSafeInteger, ofNat, Bool.and_eq_true, Bool.not_eq_true', decide_eq_true_eq] at h
  have hmax := h.1.2
  rw [← Bool.not_eq_true, Decimal.lt_iff, value_ofNat, Decimal.value_ofInt, not_lt] at hmax
  exact_mod_cast hmax

theorem toText_digits (h : n ≤ maxSafe) : (ofNat n).toText.toList = Nat.toDigits 10 n :=
  JsNumber.toText_ofNat <| Nat.lt_of_le_of_lt h <| by decide

theorem trim_toText (h : n ≤ maxSafe) : JsString.trim (ofNat n).toText = (ofNat n).toText := by
  refine JsString.trim_of_no_blank fun c hc => JsString.not_isBlank_of_isDigit ?_
  rw [toText_digits h] at hc
  exact Decimal.allDigits_toDigits n c hc

theorem toText_ne_empty : (ofNat n).toText ≠ "" :=
  JsNumber.toText_ne_empty

-- What is typed as the text of a number is taken for it, up to the largest one.
theorem wholeNumber_toText (h : n ≤ maxSafe) :
    wholeNumber (ofNat n).toText max = if max.lt (ofNat n) then .error .tooLarge else .ok (ofNat n) := by
  have hw : whole.test (ofNat n).toText.toList = true := by
    rw [Regex.test_iff, toText_digits h, whole, Regex.plus, Regex.mem_seq]
    obtain ⟨c, l, hl⟩ := List.exists_cons_of_ne_nil <| @Nat.toDigits_ne_nil n 10
    have hd := Decimal.allDigits_toDigits n
    rw [hl] at hd ⊢
    obtain ⟨hc, hd⟩ := List.forall_mem_cons.mp hd
    refine ⟨[c], ⟨c, hc, rfl⟩, l, Regex.mem_many.mpr ⟨l.map ([·]), Regex.flatten_singletons.symm, ?_⟩, rfl⟩
    rintro _ hw
    obtain ⟨d, hm, rfl⟩ := List.mem_map.mp hw
    exact ⟨d, hd d hm, rfl⟩
  simp only [wholeNumber, trim_toText h, hw, JsNumber.ofDigits_toText h, isSafeInteger_ofNat h, Bool.not_true,
    Bool.false_eq_true, if_false, Bool.false_or]

theorem wholeNumber_ok (h : wholeNumber text max = .ok value) :
    ∃ n ≤ maxSafe, value = ofNat n ∧ max.lt value = false := by
  simp only [wholeNumber] at h
  split at h
  case isTrue  => cases h
  case isFalse =>
    split at h
    case isTrue => cases h
    case isFalse hv =>
      obtain rfl := Except.ok.inj h
      simp only [Bool.or_eq_true, Bool.not_eq_true', not_or, Bool.not_eq_false, Bool.not_eq_true] at hv
      obtain ⟨hs, hm⟩ := hv
      cases hd : JsNumber.ofDigits (JsString.trim text).toList
      case finite d =>
        obtain ⟨n, hn⟩ := JsNumber.exists_nat_of_nearest hd
        rw [hd, hn] at hs hm
        exact ⟨n, le_maxSafe hs, hn, hn ▸ hm⟩
      all_goals rw [hd] at hs; cases hs

end Numbers

section Policy

-- What a field of the policy takes at most.
def bound (field : AuditPolicyField) : Nat :=
  if field ∈ secondsFields then 9223372036 else maxSafe

-- The form's bounds: whole numbers, and no quota below one segment.
structure InBounds (v : AuditPolicyValues) : Prop where
  whole   : ∀ field, ∃ k ≤ bound field, v field = ofNat k
  segment : ¬(JsNumber.lt 0 (v .retentionMaxBytes) ∧ JsNumber.lt 0 (v .maxSegmentBytes) ∧
    (v .retentionMaxBytes).lt (v .maxSegmentBytes))

-- The policy as the gateway gives it back, which leaves out what is zero.
def echo (v : AuditPolicyValues) : AuditPolicy :=
  fun field => if v field = 0 then none else some (v field)

def PolicyReturns (v : AuditPolicyValues) : Prop :=
  (parsePolicyForm (policyForm v)).values = some v ∧ (∀ field, (parsePolicyForm (policyForm v)).errors field = none) ∧
    policyDiff v (echo v) = []

variable {v : AuditPolicyValues} {field : AuditPolicyField}

theorem maxOf_eq : maxOf field = ofNat (bound field) := by
  rw [maxOf, bound]
  split <;> rfl

theorem bound_le_maxSafe : bound field ≤ maxSafe := by
  rw [bound]
  split <;> decide

theorem wholeNumber_policyForm (h : InBounds v) : wholeNumber (policyForm v field) (maxOf field) = .ok (v field) := by
  obtain ⟨k, hk, hv⟩ := h.whole field
  have hn : (ofNat <| bound field).lt (ofNat k) = false := by simpa [lt_ofNat] using hk
  rw [policyForm, maxOf_eq, hv, wholeNumber_toText <| hk.trans bound_le_maxSafe, hn]
  rfl

theorem parsePolicyForm_policyForm (h : InBounds v) : parsePolicyForm (policyForm v) = ⟨some v, fun _ => none⟩ := by
  have hs := h.segment
  simp only [parsePolicyForm, wholeNumber_policyForm h]
  simp [hs]

theorem zeroIfAbsent_echo (h : InBounds v) : zeroIfAbsent (echo v field) = v field := by
  obtain ⟨k, -, hv⟩ := h.whole field
  rw [echo]
  split
  case isTrue hz  => exact hz.symm
  case isFalse    => rw [hv, zeroIfAbsent_ofNat]

theorem policyValues_echo (h : InBounds v) : policyValues (echo v) = policyValues fun field => some (v field) := by
  funext field
  obtain ⟨k, -, hv⟩ := h.whole field
  simp only [policyValues, zeroIfAbsent_echo h, hv, zeroIfAbsent_ofNat]

theorem policyValues_ne_nan (read : AuditPolicy) : policyValues read field ≠ .nan := by
  simp only [policyValues]
  split
  case isTrue  => nofun
  case isFalse => exact zeroIfAbsent_ne_nan

theorem policyDiff_echo (h : InBounds v) : policyDiff v (echo v) = [] := by
  rw [policyDiff, List.filter_eq_nil_iff]
  intro field _
  rw [policyValues_echo h, JsNumber.strictEq_iff.mpr ⟨rfl, policyValues_ne_nan _⟩]
  decide

end Policy

section Form

variable {key : String} {error : Option AuditInputError} {errors : SinkErrors} {form : NamedSinkForm}
  {b : NamedSinkWrite}

theorem size_note : (note key error errors).size = 0 ↔ error = none ∧ errors.size = 0 := by
  cases error <;> simp [note, Dict.size_set_ne_zero]

theorem errorIf_eq_none_iff {c : Bool} {e : AuditInputError} : errorIf c e = none ↔ c = false := by
  cases c <;> simp [errorIf]

def enterpriseOf (text : String) : OptionalNumber :=
  if JsString.trim text = "" then ⟨0, some .required⟩ else optionalNumber text 1 auditMaxEnterpriseNumber

def servicesOf (text : String) : List String :=
  if JsString.trim text ≠ "" then (JsString.split text ',').map JsString.trim else []

def limit : SinkNumber → JsNumber
  | .facility      => auditMaxFacility
  | .maxFrameBytes => auditMaxFrameBytes

def numberOf (form : NamedSinkForm) (field : SinkNumber) : OptionalNumber :=
  optionalNumber (form.number field) 0 (limit field)

-- The body that is sent when no field has an error.
def bodyOf (form : NamedSinkForm) : NamedSinkWrite where
  text             := fun field => JsString.trim <| form.text field
  number           := fun field => (numberOf form field).value
  enterpriseNumber := (enterpriseOf form.enterpriseNumber).value
  filter           := normalFilter <| some {
    streams    := some form.streams
    services   := some <| servicesOf form.services
    outcome    := some form.outcome
    dataSample := some (optionalNumber form.dataSample 0 maxSafeInteger).value
  }

structure NoError (form : NamedSinkForm) : Prop where
  name       : form.name ≠ auditReservedSinkName ∧ auditSinkNameRe.test form.name.toList
  address    : JsString.trim (form.text .address) ≠ "" ∧ hostPort.test (JsString.trim <| form.text .address).toList
  caBundle   : JsString.trim (form.text .caBundlePath) ≠ ""
  pair       : JsString.trim (form.text .clientCertPath) = "" ↔ JsString.trim (form.text .clientKeyPath) = ""
  number     : ∀ field, (numberOf form field).error = none
  enterprise : (enterpriseOf form.enterpriseNumber).error = none
  services   : "" ∉ servicesOf form.services
  sample     : (optionalNumber form.dataSample 0 maxSafeInteger).error = none

def errorsOf (form : NamedSinkForm) : SinkErrors :=
  let trimmed (field : SinkText) := JsString.trim (form.text field)
  let services := (JsString.split form.services ',').map JsString.trim
  .empty
    |> note "name" (if form.name = auditReservedSinkName then some .reservedName
      else errorIf (!auditSinkNameRe.test form.name.toList) .name)
    |> note "address" (if trimmed .address = "" then some .required
      else errorIf (!hostPort.test (trimmed .address).toList) .address)
    |> note "ca_bundle_path" (errorIf (trimmed .caBundlePath = "") .required)
    |> note (if trimmed .clientCertPath = "" then "client_cert_path" else "client_key_path")
      (errorIf (decide (trimmed .clientCertPath = "") ≠ decide (trimmed .clientKeyPath = "")) .pair)
    |> note "facility" (numberOf form .facility).error
    |> note "max_frame_bytes" (numberOf form .maxFrameBytes).error
    |> note "enterprise_number" (enterpriseOf form.enterpriseNumber).error
    |> note "services" (errorIf (JsString.trim form.services ≠ "" && services.any (· = "")) .service)
    |> note "data_sample" (optionalNumber form.dataSample 0 maxSafeInteger).error

theorem parseNamedSinkForm_eq : parseNamedSinkForm form =
    if (errorsOf form).size > 0 then ⟨none, none, errorsOf form⟩
    else ⟨some form.name, some (bodyOf form), errorsOf form⟩ := by
  have hn : (fun field => (numberOf form field).value) = (parseShared form.toSinkForm .empty).1.number := by
    funext field
    cases field <;> simp only [numberOf, limit, parseShared]
  rw [bodyOf, hn]
  rfl

theorem refusedOr_eq_none_iff {p : Prop} [Decidable p] {c : Bool} {e e' : AuditInputError} :
    (if p then some e else errorIf (!c) e') = none ↔ ¬p ∧ c = true := by
  split <;> simp_all [errorIf_eq_none_iff]

theorem services_eq_none_iff {text : String} :
    errorIf (JsString.trim text ≠ "" && ((JsString.split text ',').map JsString.trim).any (· = "")) .service = none ↔
      "" ∉ servicesOf text := by
  rw [errorIf_eq_none_iff, servicesOf]
  split <;> simp_all

theorem size_errorsOf : (errorsOf form).size = 0 ↔ NoError form := by
  simp only [errorsOf, size_note, refusedOr_eq_none_iff, services_eq_none_iff]
  constructor
  case mp =>
    rintro ⟨hd, hs, he, hm, hf, hp, hc, ha, hn, -⟩
    exact ⟨hn, ha, by simpa [errorIf_eq_none_iff] using hc, by simpa [errorIf_eq_none_iff] using hp,
      fun | .facility => hf | .maxFrameBytes => hm, he, hs, hd⟩
  case mpr =>
    intro h
    exact ⟨h.sample, h.services, h.enterprise, h.number _, h.number _, by simpa [errorIf_eq_none_iff] using h.pair,
      by simpa [errorIf_eq_none_iff] using h.caBundle, h.address, h.name, rfl⟩

theorem parse_of_noError (h : NoError form) :
    parseNamedSinkForm form = ⟨some form.name, some (bodyOf form), .empty⟩ := by
  have hs := size_errorsOf.mpr h
  rw [parseNamedSinkForm_eq, if_neg (by omega), Dict.eq_empty_of_size hs]

theorem body_of_noError (h : NoError form) : (parseNamedSinkForm form).body = some (bodyOf form) :=
  congrArg (·.body) <| parse_of_noError h

theorem noError_of_body (h : (parseNamedSinkForm form).body = some b) : NoError form ∧ bodyOf form = b := by
  rw [parseNamedSinkForm_eq] at h
  split at h
  case isTrue     => cases h
  case isFalse hs => exact ⟨size_errorsOf.mp <| Nat.eq_zero_of_not_pos hs, Option.some.inj h⟩

end Form

section Numbers

variable {n m k a b : Nat} {text : String}

theorem blankIfZero_zero : blankIfZero (some <| ofNat 0) = "" :=
  rfl

theorem blankIfZero_pos (h : k ≠ 0) : blankIfZero (some <| ofNat k) = (ofNat k).toText := by
  have hz : (ofNat k).strictEq 0 = false := strictEq_ofNat.trans <| decide_eq_false h
  rw [blankIfZero, hz]
  rfl

-- A number that may be left blank comes back from its text, where zero is blank.
theorem optionalNumber_blankIfZero (h : k ≤ maxSafe) (hb : k ≠ 0 → a ≤ k ∧ k ≤ b) :
    optionalNumber (blankIfZero <| some (ofNat k)) (ofNat a) (ofNat b) = ⟨ofNat k, none⟩ := by
  by_cases hk : k = 0
  · obtain rfl := hk
    rw [blankIfZero_zero, optionalNumber, if_pos JsString.trim_empty]
    rfl
  · obtain ⟨ha, hb⟩ := hb hk
    have hs : maxSafeInteger.lt (ofNat k) = false := by simpa [maxSafeInteger, lt_ofNat] using h
    simp [optionalNumber, blankIfZero_pos hk, trim_toText h, toText_ne_empty, wholeNumber_toText h, hs, lt_ofNat, ha, hb]

theorem optionalNumber_ok (h : (optionalNumber text (ofNat a) (ofNat b)).error = none) :
    ∃ k ≤ maxSafe, (optionalNumber text (ofNat a) (ofNat b)).value = ofNat k ∧ (k ≠ 0 → a ≤ k ∧ k ≤ b) ∧
      (JsString.trim text ≠ "" → a ≤ k) := by
  rw [optionalNumber] at h ⊢
  split at h
  case isTrue ht  => exact ⟨0, Nat.zero_le _, by rw [if_pos ht]; rfl, fun h => absurd rfl h, fun h => absurd ht h⟩
  case isFalse ht =>
    rw [if_neg ht]
    cases hw : wholeNumber text maxSafeInteger
    case error e  => simp [hw] at h
    case ok value =>
      obtain ⟨k, hk, rfl, -⟩ := wholeNumber_ok hw
      simp only [hw, lt_ofNat] at h ⊢
      split at h
      case isTrue     => cases h
      case isFalse hr =>
        rw [if_neg hr]
        simp only [Bool.or_eq_true, decide_eq_true_eq, not_or, not_lt] at hr
        exact ⟨k, hk, rfl, fun _ => hr, fun _ => hr.1⟩

end Numbers

section Services

variable {text : String} {ss : List String}

theorem servicesOf_empty : servicesOf "" = [] := by
  rw [servicesOf, if_neg <| not_not.mpr JsString.trim_empty]

theorem mem_servicesOf {s : String} (h : s ∈ servicesOf text) : JsString.trim s = s ∧ ',' ∉ s.toList := by
  rw [servicesOf] at h
  split at h
  case isFalse => cases h
  case isTrue  =>
    obtain ⟨t, ht, rfl⟩ := List.mem_map.mp h
    exact ⟨JsString.trim_trim, fun hc => JsString.not_mem_of_mem_split ht <| JsString.mem_of_mem_trim hc⟩

-- Services that are put behind each other with a comma and a blank are taken apart again.
theorem servicesOf_intercalate (h : ∀ s ∈ ss, JsString.trim s = s ∧ ',' ∉ s.toList) (hn : "" ∉ ss) :
    servicesOf (", ".intercalate ss) = ss := by
  cases ss
  case nil => exact servicesOf_empty
  case cons s ss =>
    obtain ⟨⟨ht, hc⟩, h⟩ := List.forall_mem_cons.mp h
    have hs : JsString.trim (", ".intercalate (s :: ss)) ≠ "" := fun he => by
      rw [JsString.trim_eq_empty_iff] at he
      refine hn <| List.mem_cons.mpr <| .inl ?_
      rw [eq_comm, ← ht, JsString.trim_eq_empty_iff]
      exact fun c hm => he c <| JsString.mem_intercalate_head hm
    have hb : ∀ t ∈ s :: ss.map (" " ++ ·), ',' ∉ t.toList := by
      refine List.forall_mem_cons.mpr ⟨hc, ?_⟩
      intro t ht
      obtain ⟨u, hu, rfl⟩ := List.mem_map.mp ht
      simpa using (h u hu).2
    have ht' : ∀ t ∈ ss, JsString.trim (" " ++ t) = t := fun t hm => by
      rw [JsString.trim_append_left <| List.all_eq_true.mp (by decide), (h t hm).1]
    rw [servicesOf, if_pos hs, JsString.intercalate_commaBlank, JsString.joinComma, JsString.split,
      JsString.splitOn_intercalate rfl (by simp) hb]
    simp only [List.map_cons, List.map_map, Function.comp_def, String.ofList_toList, ht]
    exact congrArg _ <| (List.map_congr_left ht').trans <| List.map_id' _

end Services

-- What the gateway reports of a sink: a member that is zero or empty is left out, and so is a sample that `keep`
-- does not hold of.
section Reported

section Told

variable {α : Type*} [DecidableEq α] {e a : α} {m n : Option α}

-- A member, left out when it is `e`.
def told (e : α) (n : Option α) : Option α :=
  n.filter (· ≠ e)

theorem getD_told : (told e n).getD e = n.getD e := by
  cases n
  case none   => rfl
  case some a => by_cases h : a = e <;> simp [told, Option.filter_some, h]

theorem told_eq_iff : told e m = told e n ↔ m.getD e = n.getD e := by
  constructor
  case mp  => exact fun h => by rw [← getD_told, h, getD_told]
  case mpr =>
    have ht {n : Option α} : told e n = told e (some <| n.getD e) := by
      cases n <;> simp [told, Option.filter_some]
    exact fun h => by rw [ht, h, ← ht]

theorem told_some : told e (some a) = if a = e then none else some a := by
  by_cases h : a = e <;> simp [told, Option.filter_some, h]

end Told

variable {keep : JsNumber → Bool} {r : SinkRead} {b : NamedSinkWrite} {f g : Option FilterRead}

def finite (n : Option JsNumber) : Option JsNumber :=
  n.filter fun
    | .finite _ => true
    | _         => false

def reportedMembers (keep : JsNumber → Bool) (f : Option FilterRead) : FilterRead where
  streams    := told [] <| f.bind (·.streams)
  services   := told [] <| f.bind (·.services)
  outcome    := told "" <| f.bind (·.outcome)
  dataSample := (finite <| f.bind (·.dataSample)).filter keep

-- A filter with no member left is left out itself.
def reportedFilter (keep : JsNumber → Bool) (f : Option FilterRead) : Option FilterRead :=
  told ⟨none, none, none, none⟩ <| some <| reportedMembers keep f

def reported (keep : JsNumber → Bool) (r : SinkRead) : SinkRead where
  enabled          := none
  text             := fun field => told "" <| r.text field
  number           := fun field => told 0 <| finite <| r.number field
  enterpriseNumber := told 0 <| finite r.enterpriseNumber
  filter           := reportedFilter keep r.filter

def asRead (b : NamedSinkWrite) : SinkRead where
  enabled          := none
  text             := fun field => some (b.text field)
  number           := fun field => some (b.number field)
  enterpriseNumber := some b.enterpriseNumber
  filter           := b.filter.map filterRead

abbrev readBack (keep : JsNumber → Bool) (b : NamedSinkWrite) : SinkRead :=
  reported keep (asRead b)

-- The round trip of a body that is sent for the sink `name`.
structure SinkReturns (keep : JsNumber → Bool) (name : String) (b : NamedSinkWrite) : Prop where
  echoed  : sinkDiff (.named b) (some <| readBack keep b) = []
  differs : ∀ r, reported keep r ≠ readBack keep b → sinkDiff (.named b) (some r) ≠ []
  parsed  : parseNamedSinkForm (namedSinkForm name <| some <| readBack keep b) = ⟨some name, some b, .empty⟩

-- Zero and one keep every record.
def notZeroOrOne (n : JsNumber) : Bool :=
  n ≠ 0 && n ≠ 1

def aboveOne (n : JsNumber) : Bool :=
  JsNumber.lt 1 n

theorem zeroIfAbsent_eq {n : Option JsNumber} : zeroIfAbsent n = (finite n).getD 0 := by
  obtain _ | _ | _ | d := n <;> rfl

theorem zeroIfAbsent_zeroIfAbsent {n : Option JsNumber} : zeroIfAbsent (some <| zeroIfAbsent n) = zeroIfAbsent n := by
  obtain _ | _ | _ | d := n <;> rfl

theorem finite_filter {n : Option JsNumber} {p : JsNumber → Bool} : finite ((finite n).filter p) = (finite n).filter p := by
  simp only [finite, Option.filter_filter]
  congr 1
  funext n
  cases n <;> simp

-- The members of a filter, those that are not there filled in.
def filled (f : Option FilterRead) : SinkFilter where
  streams    := (f.bind (·.streams)).getD []
  services   := (f.bind (·.services)).getD []
  outcome    := (f.bind (·.outcome)).getD ""
  dataSample := ((finite <| f.bind (·.dataSample)).filter aboveOne).getD 0

theorem sample_eq {n : Option JsNumber} :
    (if JsNumber.lt 1 (zeroIfAbsent n) then zeroIfAbsent n else 0) = ((finite n).filter aboveOne).getD 0 := by
  rw [zeroIfAbsent_eq]
  cases finite n
  case none   => rfl
  case some a => by_cases h : JsNumber.lt 1 a <;> simp [aboveOne, Option.filter_some, h]

theorem told_filter_aboveOne {n : Option JsNumber} : told 0 (n.filter aboveOne) = n.filter aboveOne := by
  rw [told, Option.filter_filter]
  congr 1
  funext n
  by_cases h : n = 0
  · subst h
    decide
  · simp [h]

theorem normalFilter_eq : normalFilter f = told ⟨[], [], "", 0⟩ (some <| filled f) := by
  simp only [normalFilter, told_some, filled, sample_eq, SinkFilter.mk.injEq, List.length_eq_zero_iff,
    JsNumber.strictEq_zero_iff]

theorem normalFilter_eq_iff : normalFilter f = normalFilter g ↔ filled f = filled g := by
  rw [normalFilter_eq, normalFilter_eq, told_eq_iff, Option.getD_some, Option.getD_some]

theorem bind_reportedFilter {β : Type*} {member : FilterRead → Option β} (h : member ⟨none, none, none, none⟩ = none) :
    (reportedFilter keep f).bind member = member (reportedMembers keep f) := by
  rw [reportedFilter, told_some]
  split
  case isTrue hn => rw [hn, h]; rfl
  case isFalse   => rfl

theorem filter_finite_filter {n : Option JsNumber} {p : JsNumber → Bool} :
    (finite ((finite n).filter p)).filter p = (finite n).filter p := by
  rw [finite_filter, Option.filter_filter]
  simp

theorem filled_reportedFilter : filled (reportedFilter aboveOne f) = filled f := by
  simp only [filled, bind_reportedFilter, reportedMembers, getD_told, filter_finite_filter]

theorem reportedFilter_eq_iff : reportedFilter aboveOne f = reportedFilter aboveOne g ↔ filled f = filled g := by
  constructor
  case mp  => exact fun h => by rw [← filled_reportedFilter, h, filled_reportedFilter]
  case mpr =>
    intro h
    simp only [filled, SinkFilter.mk.injEq] at h
    obtain ⟨hs, hv, ho, hd⟩ := h
    have hm : reportedMembers aboveOne f = reportedMembers aboveOne g := by
      rw [reportedMembers, reportedMembers, told_eq_iff.mpr hs, told_eq_iff.mpr hv, told_eq_iff.mpr ho,
        ← told_filter_aboveOne, told_eq_iff.mpr hd, told_filter_aboveOne]
    rw [reportedFilter, reportedFilter, hm]

theorem filled_filterRead : filled (some <| filterRead <| filled f) = filled f := by
  have hs : ((finite <| some <| ((finite <| f.bind (·.dataSample)).filter aboveOne).getD 0).filter aboveOne).getD 0 =
      ((finite <| f.bind (·.dataSample)).filter aboveOne).getD 0 := by
    rw [← sample_eq, ← sample_eq]
    split
    case isTrue h  => rw [zeroIfAbsent_zeroIfAbsent, if_pos h]
    case isFalse h => rfl
  simp only [filled, filterRead, Option.bind_some, Option.getD_some, hs]

theorem filled_normalFilter : filled ((normalFilter f).map filterRead) = filled f := by
  rw [normalFilter_eq, told_some]
  split
  case isTrue h  => rw [h]; rfl
  case isFalse h => exact filled_filterRead

theorem filled_dataSample_ne_nan : (filled f).dataSample ≠ .nan := by
  rw [filled, ← sample_eq]
  split
  case isTrue  => exact zeroIfAbsent_ne_nan
  case isFalse => nofun

theorem sameFilter_iff : sameFilter (normalFilter f) (normalFilter g) = true ↔ normalFilter f = normalFilter g := by
  have hn := filled_dataSample_ne_nan (f := f)
  simp only [normalFilter_eq, told_some]
  generalize filled f = a at hn
  generalize filled g = c
  obtain ⟨as, av, ao, ad⟩ := a
  obtain ⟨cs, cv, co, cd⟩ := c
  split <;> split
  all_goals simp_all [sameFilter, JsNumber.strictEq_iff, and_assoc]

-- The numbers of a body are finite.
structure FiniteBody (b : NamedSinkWrite) : Prop where
  number     : ∀ field, finite (some <| b.number field) = some (b.number field)
  enterprise : finite (some b.enterpriseNumber) = some b.enterpriseNumber

theorem strictEq_zeroIfAbsent_iff {n : JsNumber} {m : Option JsNumber} (h : finite (some n) = some n) :
    n.strictEq (zeroIfAbsent m) = true ↔ told 0 (finite m) = told 0 (finite <| some n) := by
  have hn : n ≠ .nan := by
    rintro rfl
    cases h
  rw [told_eq_iff, zeroIfAbsent_eq, JsNumber.strictEq_iff, h, Option.getD_some, and_iff_left hn, eq_comm]

theorem mem_sinkTextFields {field : SinkText} : field ∈ sinkTextFields := by
  cases field <;> decide

theorem mem_sinkNumberFields {field : SinkNumber} : field ∈ sinkNumberFields := by
  cases field <;> decide

theorem sinkDiff_eq_nil_iff (h : FiniteBody b) :
    sinkDiff (.named b) (some r) = [] ↔ reported aboveOne r = readBack aboveOne b := by
  have ht : (sinkTextFields.filter fun field => b.text field ≠ (r.text field).getD "") = [] ↔
      (fun field => told "" (r.text field)) = fun field => told "" (some <| b.text field) := by
    simp only [List.filter_eq_nil_iff, mem_sinkTextFields, forall_const, funext_iff, told_eq_iff, Option.getD_some,
      decide_eq_true_eq, ne_eq, not_not]
    exact forall_congr' fun _ => eq_comm
  have hn : (sinkNumberFields.filter fun field => !(b.number field).strictEq (zeroIfAbsent <| r.number field)) = [] ↔
      (fun field => told 0 <| finite <| r.number field) = fun field => told 0 <| finite <| some <| b.number field := by
    simp [List.filter_eq_nil_iff, mem_sinkNumberFields, funext_iff, strictEq_zeroIfAbsent_iff (h.number _)]
  have hf : sameFilter (normalFilter <| b.filter.map filterRead) (normalFilter r.filter) = true ↔
      reportedFilter aboveOne r.filter = reportedFilter aboveOne (b.filter.map filterRead) := by
    rw [sameFilter_iff, normalFilter_eq_iff, reportedFilter_eq_iff, eq_comm]
  simp only [sinkDiff, sharedDiff, List.append_eq_nil_iff, List.map_eq_nil_iff, ht, hn, readBack, reported, asRead,
    SinkRead.mk.injEq, true_and, ite_eq_left_iff, reduceCtorEq, imp_false, not_not, and_assoc,
    strictEq_zeroIfAbsent_iff h.enterprise, hf]

end Reported

section Form

variable {name : String} {b : NamedSinkWrite} {form : NamedSinkForm} {n : Option JsNumber}

theorem blankIfZero_getD : blankIfZero (some <| n.getD 0) = blankIfZero n := by
  cases n <;> rfl

theorem blankIfZero_told : blankIfZero (told 0 n) = blankIfZero n := by
  rw [← blankIfZero_getD, getD_told, blankIfZero_getD]

-- The form that the body `b` is edited in.
def formOf (name : String) (b : NamedSinkWrite) : NamedSinkForm :=
  let filter := filled <| b.filter.map filterRead
  {
    text             := b.text
    number           := fun field => blankIfZero <| some <| b.number field
    name             := name
    enterpriseNumber := blankIfZero <| some b.enterpriseNumber
    streams          := filter.streams
    services         := ", ".intercalate filter.services
    outcome          := filter.outcome
    dataSample       := blankIfZero <| some filter.dataSample
  }

theorem namedSinkForm_readBack (h : FiniteBody b) :
    namedSinkForm name (some <| readBack aboveOne b) = formOf name b := by
  simp only [namedSinkForm, formOf, sinkForm, reported, asRead, filled, Option.bind_some, bind_reportedFilter,
    reportedMembers, getD_told, blankIfZero_told, blankIfZero_getD, h.number, h.enterprise, Option.getD_some]

def filterOf (form : NamedSinkForm) : FilterRead where
  streams    := some form.streams
  services   := some <| servicesOf form.services
  outcome    := some form.outcome
  dataSample := some (optionalNumber form.dataSample 0 maxSafeInteger).value

theorem bodyOf_number {field : SinkNumber} : (bodyOf form).number field = (numberOf form field).value := by
  simp only [bodyOf]

theorem bodyOf_enterpriseNumber : (bodyOf form).enterpriseNumber = (enterpriseOf form.enterpriseNumber).value := by
  simp only [bodyOf]

theorem filled_services : (filled <| some <| filterOf form).services = servicesOf form.services := by
  simp only [filled, filterOf, Option.bind_some, Option.getD_some]

theorem formOf_enterpriseNumber : (formOf name b).enterpriseNumber = blankIfZero (some b.enterpriseNumber) :=
  rfl

theorem formOf_number {field : SinkNumber} : (formOf name b).number field = blankIfZero (some <| b.number field) :=
  rfl

theorem bodyOf_filter : (bodyOf form).filter = normalFilter (some <| filterOf form) :=
  rfl

theorem numberOf_ok (h : NoError form) (field : SinkNumber) : ∃ k ≤ maxSafe, (numberOf form field).value = ofNat k ∧
    optionalNumber (blankIfZero <| some <| ofNat k) 0 (limit field) = ⟨ofNat k, none⟩ := by
  have hl : ∃ m, limit field = ofNat m := by
    cases field
    case facility      => exact ⟨23, rfl⟩
    case maxFrameBytes => exact ⟨1073741824, rfl⟩
  have he := h.number field
  obtain ⟨m, hm⟩ := hl
  rw [numberOf, hm] at he ⊢
  obtain ⟨k, hk, hv, hb, -⟩ := optionalNumber_ok (a := 0) he
  exact ⟨k, hk, hv, optionalNumber_blankIfZero (a := 0) hk hb⟩

theorem enterpriseOf_ok {text : String} (h : (enterpriseOf text).error = none) :
    ∃ k ≤ maxSafe, (enterpriseOf text).value = ofNat k ∧ enterpriseOf (blankIfZero <| some <| ofNat k) = ⟨ofNat k, none⟩ := by
  by_cases ht : JsString.trim text = ""
  · rw [enterpriseOf, if_pos ht] at h
    cases h
  · have hf : enterpriseOf text = optionalNumber text (ofNat 1) (ofNat 4294967295) := if_neg ht
    rw [hf] at h ⊢
    obtain ⟨k, hk, hv, hb, hp⟩ := optionalNumber_ok h
    have hz : k ≠ 0 := Nat.ne_of_gt <| hp ht
    have hn : JsString.trim (blankIfZero <| some <| ofNat k) ≠ "" := by
      rw [blankIfZero_pos hz, trim_toText hk]
      exact toText_ne_empty
    refine ⟨k, hk, hv, ?_⟩
    rw [enterpriseOf, if_neg hn]
    exact optionalNumber_blankIfZero (a := 1) (b := 4294967295) hk hb

theorem finite_ofNat {k : Nat} : finite (some <| ofNat k) = some (ofNat k) :=
  rfl

theorem sample_ok (h : NoError form) : ∃ k ≤ maxSafe, (filled <| some <| filterOf form).dataSample = ofNat k := by
  obtain ⟨k, hk, hv, -⟩ := optionalNumber_ok (a := 0) (b := maxSafe) h.sample
  have hf : (filterOf form).dataSample = some (ofNat k) := congrArg some hv
  simp only [filled, Option.bind_some, hf, finite_ofNat, Option.filter_some]
  split
  case isTrue  => exact ⟨k, hk, rfl⟩
  case isFalse => exact ⟨0, Nat.zero_le _, rfl⟩

theorem finiteBody_bodyOf (h : NoError form) : FiniteBody (bodyOf form) where
  number field := by
    obtain ⟨k, -, hv, -⟩ := numberOf_ok h field
    rw [bodyOf_number, hv, finite_ofNat]
  enterprise := by
    obtain ⟨k, -, hv, -⟩ := enterpriseOf_ok h.enterprise
    rw [bodyOf_enterpriseNumber, hv, finite_ofNat]

theorem enterpriseOf_formOf (h : NoError form) : enterpriseOf (formOf name <| bodyOf form).enterpriseNumber =
    ⟨(enterpriseOf form.enterpriseNumber).value, none⟩ := by
  obtain ⟨k, -, hv, hb⟩ := enterpriseOf_ok h.enterprise
  rw [formOf_enterpriseNumber, bodyOf_enterpriseNumber, hv, hb]

theorem numberOf_formOf (h : NoError form) (field : SinkNumber) :
    numberOf (formOf name <| bodyOf form) field = ⟨(numberOf form field).value, none⟩ := by
  obtain ⟨k, -, hv, hb⟩ := numberOf_ok h field
  rw [numberOf, formOf_number, bodyOf_number, hv, hb]

-- The form that an accepted body is edited in has its services, its numbers and its sample again.
theorem services_formOf (h : NoError form) :
    servicesOf (formOf name <| bodyOf form).services = servicesOf form.services := by
  have hs : (formOf name <| bodyOf form).services = ", ".intercalate (servicesOf form.services) := by
    simp only [formOf, bodyOf_filter, filled_normalFilter, filled_services]
  rw [hs, servicesOf_intercalate (fun s hs => mem_servicesOf hs) h.services]

theorem sample_formOf (h : NoError form) : optionalNumber (formOf name <| bodyOf form).dataSample 0 maxSafeInteger =
    ⟨(filled <| some <| filterOf form).dataSample, none⟩ := by
  obtain ⟨k, hk, hv⟩ := sample_ok h
  have hd : (formOf name <| bodyOf form).dataSample = blankIfZero (some <| ofNat k) := by
    rw [formOf, bodyOf_filter, filled_normalFilter, hv]
  rw [hd, hv]
  exact optionalNumber_blankIfZero (a := 0) (b := maxSafe) hk fun _ => ⟨Nat.zero_le _, hk⟩

theorem noError_formOf (h : NoError form) : NoError (formOf form.name <| bodyOf form) where
  name       := h.name
  address    := by simpa [formOf, bodyOf, JsString.trim_trim] using h.address
  caBundle   := by simpa [formOf, bodyOf, JsString.trim_trim] using h.caBundle
  pair       := by simpa [formOf, bodyOf, JsString.trim_trim] using h.pair
  number     := fun field => by rw [numberOf_formOf h field]
  enterprise := by rw [enterpriseOf_formOf h]
  services   := by rw [services_formOf h]; exact h.services
  sample     := by rw [sample_formOf h]

theorem filter_formOf (h : NoError form) : (bodyOf <| formOf name <| bodyOf form).filter = (bodyOf form).filter := by
  have hf : filterOf (formOf name <| bodyOf form) = filterRead (filled <| some <| filterOf form) := by
    rw [filterOf, services_formOf h, sample_formOf h, filterRead, filled_services]
    simp only [formOf, bodyOf_filter, filled_normalFilter]
  rw [bodyOf_filter, bodyOf_filter, hf, normalFilter_eq_iff, filled_filterRead]

theorem bodyOf_formOf (h : NoError form) : bodyOf (formOf name <| bodyOf form) = bodyOf form := by
  have ht : (bodyOf <| formOf name <| bodyOf form).text = (bodyOf form).text := by
    funext field
    exact JsString.trim_trim
  have hn : (bodyOf <| formOf name <| bodyOf form).number = (bodyOf form).number := by
    funext field
    rw [bodyOf_number, numberOf_formOf h, bodyOf_number]
  have he : (bodyOf <| formOf name <| bodyOf form).enterpriseNumber = (bodyOf form).enterpriseNumber := by
    rw [bodyOf_enterpriseNumber, enterpriseOf_formOf h, bodyOf_enterpriseNumber]
  exact NamedSinkWrite.ext ht hn he <| filter_formOf h

theorem parse_formOf (h : NoError form) :
    parseNamedSinkForm (formOf form.name <| bodyOf form) = ⟨some form.name, some (bodyOf form), .empty⟩ := by
  rw [parse_of_noError <| noError_formOf h, bodyOf_formOf h]
  rfl

end Form

theorem reported_readBack {b : NamedSinkWrite} : reported aboveOne (readBack aboveOne b) = readBack aboveOne b := by
  have hn (n : Option JsNumber) : told 0 (finite <| told 0 <| finite n) = told 0 (finite n) := by
    rw [told_eq_iff, told, finite_filter]
    exact getD_told
  have ht (t : Option String) : told "" (told "" t) = told "" t :=
    told_eq_iff.mpr getD_told
  have hf (f : Option FilterRead) : reportedFilter aboveOne (reportedFilter aboveOne f) = reportedFilter aboveOne f :=
    reportedFilter_eq_iff.mpr filled_reportedFilter
  simp only [readBack, reported, hn, ht, hf]

theorem sinkReturns_bodyOf {form : NamedSinkForm} (h : NoError form) :
    SinkReturns aboveOne form.name (bodyOf form) where
  echoed         := (sinkDiff_eq_nil_iff <| finiteBody_bodyOf h).mpr reported_readBack
  differs r hr h' := hr <| (sinkDiff_eq_nil_iff <| finiteBody_bodyOf h).mp h'
  parsed         := by rw [namedSinkForm_readBack <| finiteBody_bodyOf h, parse_formOf h]

-- What the form accepts comes back of the gateway and of the form again. A sample that is not above one keeps every
-- record.
theorem audit_config_returns :
    (∀ v, InBounds v → PolicyReturns v) ∧
    ∀ form b, (parseNamedSinkForm form).body = some b → SinkReturns aboveOne form.name b := by
  refine ⟨fun v h => ?_, fun form b h => ?_⟩
  · rw [PolicyReturns, parsePolicyForm_policyForm h]
    exact ⟨rfl, fun _ => rfl, policyDiff_echo h⟩
  · obtain ⟨hn, rfl⟩ := noError_of_body h
    exact sinkReturns_bodyOf hn

section Instances

theorem auditPolicyStart_inBounds : InBounds auditPolicyStart where
  whole field := by
    cases field
    case maxSegmentBytes          => exact ⟨67108864, by decide, rfl⟩
    case maxSegmentAgeSeconds     => exact ⟨86400, by decide, rfl⟩
    case retentionMaxPrunePerPass => exact ⟨1, by decide, rfl⟩
    all_goals exact ⟨0, by decide, rfl⟩
  segment := by decide

def siem : NamedSinkForm where
  text
    | .address      => "siem.example:6514"
    | .caBundlePath => "/ca.pem"
    | _             => ""
  number           := fun _ => ""
  name             := "edr"
  enterpriseNumber := "32473"
  streams          := []
  services         := ""
  outcome          := ""
  dataSample       := ""

theorem siem_noError : NoError siem where
  name       := by decide
  address    := by decide
  caBundle   := by decide
  pair       := by decide
  number     := fun field => by cases field <;> decide
  enterprise := by
    have ht : JsString.trim siem.enterpriseNumber ≠ "" := by decide
    have he : siem.enterpriseNumber = blankIfZero (some <| ofNat 32473) := by decide
    rw [enterpriseOf, if_neg ht, he]
    exact congrArg (·.error) <| optionalNumber_blankIfZero (k := 32473) (a := 1) (b := 4294967295) (by decide) (by decide)
  services   := by decide
  sample     := by decide

-- The same sink, for every tenth failed record of two services.
def filteredSiem : NamedSinkForm :=
  { siem with streams := ["mgmt", "data"], services := "llm , chat", outcome := "failed", dataSample := "10" }

theorem filteredSiem_sample : optionalNumber filteredSiem.dataSample 0 maxSafeInteger = ⟨ofNat 10, none⟩ := by
  have hs : filteredSiem.dataSample = blankIfZero (some <| ofNat 10) := by decide
  rw [hs]
  exact optionalNumber_blankIfZero (k := 10) (a := 0) (b := maxSafe) (by decide) (by decide)

theorem filteredSiem_noError : NoError filteredSiem :=
  { siem_noError with
    services := by decide
    sample   := congrArg (·.error) filteredSiem_sample }

theorem filteredSiem_filter :
    (bodyOf filteredSiem).filter = some ⟨["mgmt", "data"], ["llm", "chat"], "failed", ofNat 10⟩ := by
  rw [bodyOf, filteredSiem_sample]
  decide

theorem filteredSiem_returns : PolicyReturns auditPolicyStart ∧ SinkReturns aboveOne "edr" (bodyOf filteredSiem) ∧
    (bodyOf filteredSiem).filter = some ⟨["mgmt", "data"], ["llm", "chat"], "failed", ofNat 10⟩ :=
  ⟨audit_config_returns.1 _ auditPolicyStart_inBounds,
    audit_config_returns.2 filteredSiem _ <| body_of_noError filteredSiem_noError, filteredSiem_filter⟩

-- A negative sample is not told from none.
theorem not_audit_config_returns :
    ¬((∀ v, InBounds v → PolicyReturns v) ∧
      ∀ form b, (parseNamedSinkForm form).body = some b → SinkReturns notZeroOrOne form.name b) := by
  intro h
  have hs := h.2 siem (bodyOf siem) <| body_of_noError siem_noError
  have hb : (bodyOf siem).filter = none := by decide
  let read : SinkRead := { asRead (bodyOf siem) with filter := some ⟨none, none, none, some (-3)⟩ }
  refine hs.differs read (fun hr => ?_) ((sinkDiff_eq_nil_iff <| finiteBody_bodyOf siem_noError).mpr ?_)
  · have hf := congrArg SinkRead.filter hr
    simp only [reported, asRead, hb] at hf
    revert hf
    decide
  · have hf : reportedFilter aboveOne (some ⟨none, none, none, some (-3)⟩) =
        reportedFilter aboveOne ((bodyOf siem).filter.map filterRead) := by
      rw [hb]
      decide
    simp only [readBack, reported, asRead, read, hf]

end Instances

end AuditConfig
