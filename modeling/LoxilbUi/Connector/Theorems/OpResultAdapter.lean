import LoxilbUi.Connector.OpResultAdapter

namespace OpResultAdapter

variable {clock : Clock} {resp : SimpleResponse} {n : JsNumber} {op : String} {kind : OpKind}
variable {e : Thrown} {data : JsValue}

theorem isMutationFailure_iff : isMutationFailure n data [n] = true ↔ IsFailureEnvelope data := by
  simp only [isMutationFailure, includes, List.any_cons, List.any_nil, decide_true, Bool.true_or,
    Bool.not_true, Bool.false_eq_true, if_false, IsFailureEnvelope]
  split
  case h_1 result h => simp [h]
  case h_2 h =>
    have : ∀ result, data.get "result" ≠ .string result := h
    simp [this]

-- The answer was lost on the way.
def Lost (n : JsNumber) : Prop :=
  n = 502 ∨ n = 504 ∨ n = 0

theorem Lost.not_isSuccess (h : Lost n) : isSuccess n = false := by
  obtain rfl | rfl | rfl := h <;> decide

theorem lt_ofInt {a b : Int} : JsNumber.lt (.finite <| .ofInt a) (.finite <| .ofInt b) = true ↔ a < b := by
  rw [JsNumber.lt, Decimal.lt_iff, Decimal.value_ofInt, Decimal.value_ofInt]
  exact Int.cast_lt

theorem ofInt_eq_iff {a b : Int} :
    JsNumber.finite (.ofInt a) = .finite (.ofInt b) ↔ a = b := by
  rw [JsNumber.finite.injEq, Decimal.ofInt_injective.eq_iff]

theorem isSuccess_ofInt {code : Int} :
    isSuccess (.finite <| .ofInt code) = true ↔ 200 ≤ code ∧ code ≤ 299 := by
  have hl := @lt_ofInt 200 code
  have hu := @lt_ofInt code 300
  have he := @ofInt_eq_iff code 200
  simp only [isSuccess, Bool.and_eq_true, Bool.or_eq_true, decide_eq_true_eq]
  rw [show (200 : JsNumber) = .finite (.ofInt 200) from rfl,
    show (300 : JsNumber) = .finite (.ofInt 300) from rfl, hl, hu, he]
  omega

-- All that a number can be told as, where `Bad` says that a body is no good.
inductive Told (n : JsNumber) (kind : OpKind) (Bad : Prop) : OpStatus → Bool → Prop
  | denied      : ¬Lost n → isSuccess n = false → Told n kind Bad .denied false
  | invalid     : ¬Lost n → isSuccess n = false → Told n kind Bad .invalid false
  | failed      : ¬Lost n → (isSuccess n = true → Bad) → Told n kind Bad .failed false
  | limited     : n = 429 → Told n kind Bad .denied true
  | unavailable : n = 503 → Told n kind Bad .unavailable true
  | outage      : Lost n → kind = .read → Told n kind Bad .unavailable true
  | unknown     : Lost n → kind ≠ .read → Told n kind Bad .unknown false
  | confirmed   : isSuccess n = true → ¬Bad → Told n kind Bad .confirmed false

abbrev Tells (n : JsNumber) (kind : OpKind) (Bad : Prop) (r : OpResult) : Prop :=
  Told n kind Bad r.status r.retryable

theorem Tells.ite {Bad c : Prop} [Decidable c] {r r' : OpResult} (h : c → Tells n kind Bad r)
    (h' : ¬c → Tells n kind Bad r') : Tells n kind Bad (if c then r else r') := by
  split
  case isTrue hc  => exact h hc
  case isFalse hc => exact h' hc

-- A code that names its own cause is neither lost nor a success.
theorem refused {codes : List JsNumber} (h : n ∈ codes)
    (hc : ∀ c ∈ codes, ¬(c = 502 ∨ c = 504 ∨ c = 0) ∧ isSuccess c = false) :
    ¬Lost n ∧ isSuccess n = false :=
  hc n h

theorem fromCode_tells : Tells n kind (IsFailureEnvelope resp.data ∨ resp.parseFailed = true)
    (fromCode clock resp n op kind) := by
  unfold fromCode
  extract_lets fails
  refine .ite (fun h => ?_) fun _ => .ite (fun h => ?_) fun _ => .ite (fun h => ?_) fun _ => ?_
  · have ⟨hl, hs⟩ := @refused n [401, 403] (by simpa using h) (by decide)
    exact .denied hl hs
  · have ⟨hl, hs⟩ := @refused n [400, 422] (by simpa using h) (by decide)
    exact .invalid hl hs
  · have ⟨hl, hs⟩ := @refused n [409] (by simpa using h) (by decide)
    exact .invalid hl hs
  refine .ite .limited fun _ => .ite (fun h => ?_) fun _ => .ite (fun h => ?_) fun _ => ?_
  · have ⟨hl, hs⟩ := @refused n [402] (by simpa using h) (by decide)
    exact .denied hl hs
  · have ⟨hl, hs⟩ := @refused n [412] (by simpa using h) (by decide)
    exact .failed hl fun h => absurd h <| by simp [hs]
  refine .ite (fun h => ?_) fun _ => .ite .unavailable fun _ => .ite (fun h => ?_) fun hl => ?_
  · have ⟨hl, hs⟩ := @refused n [501] (by simpa using h) (by decide)
    exact .failed hl fun h => absurd h <| by simp [hs]
  · have hl : Lost n := by simpa [Lost, or_assoc] using h
    exact .ite (.outage hl) (.unknown hl)
  have hl : ¬Lost n := by simpa [Lost, or_assoc] using hl
  refine .ite (fun hs => .ite (fun hf => ?_) fun hf => .ite (fun hp => ?_) fun hp => ?_) fun hs => ?_
  · exact .failed hl fun _ => .inl <| isMutationFailure_iff.mp hf
  · exact .failed hl fun _ => .inr hp
  · exact .confirmed hs <| not_or.mpr ⟨mt isMutationFailure_iff.mpr hf, hp⟩
  · exact .failed hl fun h => absurd h hs

section Told

variable {Bad : Prop} {status : OpStatus} {retryable : Bool}

theorem Told.confirmed_iff (h : Told n kind Bad status retryable) :
    status = .confirmed ↔ isSuccess n = true ∧ ¬Bad := by
  cases h
  case denied h | invalid h          => simp [h]
  case failed h                      => simpa using h
  case limited h                     => simp [h, show isSuccess 429 = false by decide]
  case unavailable h                 => simp [h, show isSuccess 503 = false by decide]
  case outage h _ | unknown h _      => simp [h.not_isSuccess]
  case confirmed hs hb               => simp [hs, hb]

theorem Told.retryable_mutation (h : Told n kind Bad status true) (hk : kind ≠ .read) :
    n = 429 ∨ n = 503 := by
  cases h
  case limited h     => exact .inl h
  case unavailable h => exact .inr h
  case outage h      => exact absurd h hk

theorem Told.lost_mutation (h : Told n kind Bad status retryable) (hl : Lost n) (hk : kind ≠ .read) :
    status = .unknown ∧ retryable = false := by
  cases h
  case unknown => exact ⟨rfl, rfl⟩
  case outage h => exact absurd h hk
  case denied h _ | invalid h _ | failed h _ => exact absurd hl h
  case confirmed h _ => simp [hl.not_isSuccess] at h
  case limited h | unavailable h =>
    subst h
    exact absurd hl <| by unfold Lost; decide

theorem Told.read (h : Told n .read Bad status retryable) : status ≠ .unknown := by
  cases h
  case unknown h => contradiction
  all_goals simp

end Told

theorem fromSimpleResponse_number (h : resp.code = .number n) :
    fromSimpleResponse clock (some resp) op kind = fromCode clock resp n op kind := by
  simp only [fromSimpleResponse, h]

-- What is no response, or has no number for a code, is told as a failure.
theorem fromSimpleResponse_cases (resp : Option SimpleResponse) :
    (∃ r n, resp = some r ∧ r.code = .number n ∧
      fromSimpleResponse clock resp op kind = fromCode clock r n op kind) ∨
    fromSimpleResponse clock resp op kind = malformedResponse op := by
  cases resp
  case none => exact .inr rfl
  case some r =>
    cases hc : r.code
    case number n => exact .inl ⟨r, n, rfl, hc, fromSimpleResponse_number hc⟩
    all_goals exact .inr <| by simp only [fromSimpleResponse, hc]

theorem fromSimpleResponse_read (resp : Option SimpleResponse) :
    (fromSimpleResponse clock resp op .read).status ≠ .unknown := by
  obtain ⟨r, n, _, _, h⟩ | h := @fromSimpleResponse_cases clock op .read resp
  · exact h ▸ fromCode_tells.read
  · simp [h, malformedResponse]

theorem fromNetworkError_read : (fromNetworkError op e .read).status = .unavailable :=
  rfl

-- A thrown success is no success: its status is sent back to the mapping only when it is none.
theorem fromThrownError_status :
    (fromThrownError clock op e).status ∉ [.confirmed, .unknown, .invalid] := by
  have hn : (fromNetworkError op e .read).status ∉ [.confirmed, .unknown, .invalid] := by
    rw [fromNetworkError_read]
    decide
  unfold fromThrownError
  split
  case h_2 => exact hn
  case h_1 status message response =>
    split
    case isTrue => exact hn
    case isFalse hs =>
      extract_lets resp result mapped
      have ht : Tells status .read (IsFailureEnvelope resp.data ∨ resp.parseFailed = true)
        (fromCode clock resp status op .read) := fromCode_tells
      have hm : mapped.status = (fromCode clock resp status op .read).status := rfl
      split
      case isFalse => simp
      case isTrue hi =>
        have hc : mapped.status ≠ .confirmed := by
          rw [hm, Ne, ht.confirmed_iff]
          simp_all
        have hu : mapped.status ≠ .unknown := hm ▸ ht.read
        simp [hc, hu, hi]

theorem mapsOutcomes (clock : Clock) : MapsOutcomes clock where
  confirmed resp code op kind hc := by
    rw [fromSimpleResponse_number hc, fromCode_tells.confirmed_iff, isSuccess_ofInt, not_or, and_assoc,
      Bool.not_eq_true]
  retryable resp op hr := by
    obtain ⟨r, n, rfl, hc, h⟩ | h := @fromSimpleResponse_cases clock op .mutation resp
    · have ht := @fromCode_tells clock r n op .mutation
      rw [Tells, ← h, hr] at ht
      refine ⟨r, rfl, (ht.retryable_mutation nofun).imp ?_ ?_⟩
      all_goals
        rintro rfl
        exact hc
    · simp [h, malformedResponse] at hr
  lost resp code op hc hl := by
    rw [fromSimpleResponse_number hc]
    refine fromCode_tells.lost_mutation ?_ nofun
    obtain rfl | rfl | rfl := hl
    · exact .inr <| .inr rfl
    · exact .inl rfl
    · exact .inr <| .inl rfl
  thrown op e := ⟨_, rfl, rfl, rfl⟩
  read resp _ := fromSimpleResponse_read resp
  resolves op call := by
    cases call
    case error e => exact ⟨_, rfl⟩
    case ok resp => exact ⟨_, rfl⟩
  thrownRead _ _ := fromThrownError_status

end OpResultAdapter
