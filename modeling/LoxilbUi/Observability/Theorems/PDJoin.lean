import LoxilbUi.Library.Verdict
import LoxilbUi.Observability.PDJoin

-- What the index of the endpoints says of a pair, whatever the order of the info series.

namespace Observability

variable {samples : List MetricSample} {snapshot : MetricsSnapshot} {s : MetricSample}
variable {service epIdx ep key : String}

-- The endpoints of the pairs whose text is the key, and of a pair itself.
def epsAt (samples : List MetricSample) (key : String) : List String :=
  samples.filterMap fun s => (epInfoOf s).bind fun (service, epIdx, ep) =>
    if keyOf service epIdx = key then some ep else none

def epsOf (samples : List MetricSample) (service epIdx : String) : List String :=
  samples.filterMap fun s => (epInfoOf s).bind fun (service', epIdx', ep) =>
    if service' = service ∧ epIdx' = epIdx then some ep else none

section Index

-- What the index holds for a key of which the values say so.
def entryOf : Verdict String → Option EpJoinResult
  | .none    => none
  | .one ep  => some <| .ok ep
  | .several => some .ambiguous

theorem epsAt_concat : epsAt (samples ++ [s]) key = epsAt samples key ++ epsAt [s] key := by
  simp [epsAt]

theorem get?_addEpInfo {index : EpJoinIndex}
    (h : ∀ key, index.get? key = entryOf (.ofList <| epsAt samples key)) (key : String) :
    (addEpInfo index s).get? key = entryOf (.ofList <| epsAt (samples ++ [s]) key) := by
  rw [epsAt_concat, addEpInfo]
  cases hs : epInfoOf s
  case none =>
    have he : epsAt [s] key = [] := by simp [epsAt, hs]
    rw [he, List.append_nil, ← h key]
  case some info =>
    obtain ⟨service, epIdx, ep⟩ := info
    have he : epsAt [s] key = if keyOf service epIdx = key then [ep] else [] := by
      by_cases hk : keyOf service epIdx = key <;> simp [epsAt, hs, hk]
    rw [he]
    by_cases hk : keyOf service epIdx = key
    case neg =>
      have hk' : key ≠ keyOf service epIdx := fun h => hk h.symm
      rw [if_neg hk, List.append_nil, ← h key]
      simp only
      repeat' split
      all_goals simp [Dict.get?_set, hk']
    case pos =>
      subst hk
      rw [if_pos rfl, Verdict.ofList_concat]
      have hi := h (keyOf service epIdx)
      cases hv : Verdict.ofList (epsAt samples <| keyOf service epIdx) <;> rw [hv] at hi
      case none => simp [hi, entryOf, Dict.get?_set, Verdict.add]
      case one other =>
        simp only [hi, entryOf, Verdict.add]
        split
        case isTrue  => simp [hi, entryOf]
        case isFalse => simp [Dict.get?_set]
      case several => simp [hi, entryOf, Verdict.add]

theorem get?_foldl_addEpInfo :
    (samples.foldl addEpInfo .empty).get? key = entryOf (.ofList <| epsAt samples key) := by
  induction samples using List.reverseRecOn generalizing key
  case nil => rfl
  case append_singleton samples s hi =>
    rw [List.foldl_concat]
    exact get?_addEpInfo (fun _ => hi) key

theorem get?_buildEpJoinIndex : (buildEpJoinIndex snapshot).get? key =
    entryOf (.ofList <| epsAt (selectSamples snapshot epInfoFamily) key) :=
  get?_foldl_addEpInfo

end Index

section Join

theorem mem_epsAt : ep ∈ epsAt samples key ↔
    ∃ s ∈ samples, ∃ service epIdx, epInfoOf s = some (service, epIdx, ep) ∧ keyOf service epIdx = key := by
  simp only [epsAt, List.mem_filterMap, Option.bind_eq_some_iff, Option.ite_none_right_eq_some, Option.some.injEq]
  constructor
  case mp =>
    rintro ⟨s, hs, ⟨service, epIdx, ep⟩, hi, hk, rfl⟩
    exact ⟨s, hs, service, epIdx, hi, hk⟩
  case mpr =>
    rintro ⟨s, hs, service, epIdx, hi, hk⟩
    exact ⟨s, hs, (service, epIdx, ep), hi, hk, rfl⟩

theorem mem_epsOf : ep ∈ epsOf samples service epIdx ↔
    ∃ s ∈ samples, epInfoOf s = some (service, epIdx, ep) := by
  simp only [epsOf, List.mem_filterMap, Option.bind_eq_some_iff, Option.ite_none_right_eq_some, Option.some.injEq]
  constructor
  case mp =>
    rintro ⟨s, hs, ⟨service, epIdx, ep⟩, hi, ⟨rfl, rfl⟩, rfl⟩
    exact ⟨s, hs, hi⟩
  case mpr =>
    rintro ⟨s, hs, hi⟩
    exact ⟨s, hs, (service, epIdx, ep), hi, ⟨rfl, rfl⟩, rfl⟩

theorem mem_epsAt_of_mem_epsOf (h : ep ∈ epsOf samples service epIdx) :
    ep ∈ epsAt samples (keyOf service epIdx) := by
  obtain ⟨s, hs, hi⟩ := mem_epsOf.mp h
  exact mem_epsAt.mpr ⟨s, hs, service, epIdx, hi, rfl⟩

-- The answer for a pair says which endpoints the info series of that pair carry.
structure JoinsStrictly (snapshot : MetricsSnapshot) (service epIdx : String) : Prop where
  ok        : ∀ ep, joinEp (buildEpJoinIndex snapshot) service epIdx = .ok ep ↔
    ep ∈ epsOf (selectSamples snapshot epInfoFamily) service epIdx ∧
      ∀ other ∈ epsOf (selectSamples snapshot epInfoFamily) service epIdx, other = ep
  ambiguous : joinEp (buildEpJoinIndex snapshot) service epIdx = .ambiguous ↔
    ∃ ep ∈ epsOf (selectSamples snapshot epInfoFamily) service epIdx,
      ∃ other ∈ epsOf (selectSamples snapshot epInfoFamily) service epIdx, ep ≠ other
  unknown   : joinEp (buildEpJoinIndex snapshot) service epIdx = .unknown ↔
    ∀ ep, ep ∉ epsOf (selectSamples snapshot epInfoFamily) service epIdx

-- The index does not hang on the order of the info series.
def OrderFree (snapshot : MetricsSnapshot) : Prop :=
  ∀ snapshot', (selectSamples snapshot' epInfoFamily).Perm (selectSamples snapshot epInfoFamily) →
    ∀ key, (buildEpJoinIndex snapshot').get? key = (buildEpJoinIndex snapshot).get? key

-- The pair has two endpoints itself, or none that is another pair's with the same text is new to it.
def ToldApart (snapshot : MetricsSnapshot) (service epIdx : String) : Prop :=
  (∃ ep ∈ epsOf (selectSamples snapshot epInfoFamily) service epIdx,
    ∃ other ∈ epsOf (selectSamples snapshot epInfoFamily) service epIdx, ep ≠ other) ∨
  ∀ s ∈ selectSamples snapshot epInfoFamily, ∀ service' epIdx' ep, epInfoOf s = some (service', epIdx', ep) →
    keyOf service' epIdx' = keyOf service epIdx → ep ∈ epsOf (selectSamples snapshot epInfoFamily) service epIdx

def resultOf : Verdict String → EpJoinResult
  | .none    => .unknown
  | .one ep  => .ok ep
  | .several => .ambiguous

theorem resultOf_injective : Function.Injective resultOf := by
  intro v w h
  cases v <;> cases w <;> simp_all [resultOf]

theorem joinEp_eq : joinEp (buildEpJoinIndex snapshot) service epIdx =
    resultOf (.ofList <| epsAt (selectSamples snapshot epInfoFamily) <| keyOf service epIdx) := by
  rw [joinEp, get?_buildEpJoinIndex]
  generalize Verdict.ofList (epsAt (selectSamples snapshot epInfoFamily) <| keyOf service epIdx) = v
  cases v <;> rfl

theorem orderFree (snapshot : MetricsSnapshot) : OrderFree snapshot := by
  intro snapshot' h key
  rw [get?_buildEpJoinIndex, get?_buildEpJoinIndex]
  refine congrArg entryOf <| Verdict.ofList_congr fun ep => ?_
  simp only [mem_epsAt, h.mem_iff]

theorem resultOf_ofList_eq_iff {l : List String} {v : Verdict String} :
    resultOf (.ofList l) = resultOf v ↔ Verdict.Holds l v :=
  resultOf_injective.eq_iff.trans Verdict.ofList_eq_iff

theorem holds_one_iff {l : List String} : Verdict.Holds l (.one ep) ↔ ep ∈ l ∧ ∀ other ∈ l, other = ep := by
  constructor
  case mp =>
    rintro ⟨hn, ha⟩
    obtain ⟨x, hx⟩ := List.exists_mem_of_ne_nil l hn
    exact ⟨ha x hx ▸ hx, ha⟩
  case mpr => exact fun ⟨hm, ha⟩ => ⟨List.ne_nil_of_mem hm, ha⟩

theorem joinsStrictly_iff_eq : JoinsStrictly snapshot service epIdx ↔
    joinEp (buildEpJoinIndex snapshot) service epIdx =
      resultOf (.ofList <| epsOf (selectSamples snapshot epInfoFamily) service epIdx) := by
  constructor
  case mp =>
    intro h
    have hv := Verdict.holds_ofList <| epsOf (selectSamples snapshot epInfoFamily) service epIdx
    cases hl : Verdict.ofList (epsOf (selectSamples snapshot epInfoFamily) service epIdx) <;> rw [hl] at hv
    case none    => exact h.unknown.mpr <| List.eq_nil_iff_forall_not_mem.mp hv
    case one ep  => exact (h.ok ep).mpr <| holds_one_iff.mp hv
    case several => exact h.ambiguous.mpr hv
  case mpr =>
    intro h
    refine ⟨fun ep => ?ok, ?ambiguous, ?unknown⟩
    case ok =>
      rw [h, ← holds_one_iff]
      exact resultOf_ofList_eq_iff (v := .one ep)
    case ambiguous =>
      rw [h]
      exact resultOf_ofList_eq_iff (v := .several)
    case unknown =>
      rw [h, ← List.eq_nil_iff_forall_not_mem]
      exact resultOf_ofList_eq_iff (v := .none)

theorem joinsStrictly_iff : JoinsStrictly snapshot service epIdx ↔ ToldApart snapshot service epIdx := by
  rw [joinsStrictly_iff_eq, joinEp_eq, resultOf_injective.eq_iff,
    Verdict.ofList_eq_of_subset_iff fun _ => mem_epsAt_of_mem_epsOf]
  refine or_congr_right ?_
  constructor
  case mp  => exact fun h s hs service' epIdx' ep hi hk => h ep <| mem_epsAt.mpr ⟨s, hs, service', epIdx', hi, hk⟩
  case mpr =>
    intro h ep hm
    obtain ⟨s, hs, service', epIdx', hi, hk⟩ := mem_epsAt.mp hm
    exact h s hs service' epIdx' ep hi hk

-- The index is that of the info series in any order, and strict just if the pairs are told apart.
theorem epJoin_iff (snapshot : MetricsSnapshot) :
    (OrderFree snapshot ∧ ∀ service epIdx, JoinsStrictly snapshot service epIdx) ↔
      ∀ service epIdx, ToldApart snapshot service epIdx := by
  simp only [joinsStrictly_iff, orderFree snapshot, true_and]

-- The pairs of labels without the NUL character are told apart.
theorem toldApart_of_no_nul (h : ∀ s ∈ selectSamples snapshot epInfoFamily, ∀ service epIdx ep,
    epInfoOf s = some (service, epIdx, ep) → Char.ofNat 0 ∉ service.toList ∧ Char.ofNat 0 ∉ epIdx.toList)
    (service epIdx : String) : ToldApart snapshot service epIdx := by
  refine .inr fun s hs service' epIdx' ep hi hk => ?_
  obtain ⟨hs', hi'⟩ := h s hs service' epIdx' ep hi
  have hk := congrArg String.toList hk
  simp only [keyOf, String.toList_append, String.toList_singleton, List.append_assoc, List.singleton_append] at hk
  -- There is one such character in the text, and so it is not in the index.
  have hc := congrArg (List.count <| Char.ofNat 0) hk
  rw [List.count_append, List.count_append, List.count_cons_self, List.count_cons_self,
    List.count_eq_zero_of_not_mem hs', List.count_eq_zero_of_not_mem hi'] at hc
  have hn : Char.ofNat 0 ∉ epIdx.toList := List.count_eq_zero.mp <| by omega
  obtain ⟨hl, hr⟩ := JsString.append_cons_inj hi' hn hk
  obtain rfl := String.toList_inj.mp hl
  obtain rfl := String.toList_inj.mp hr
  exact mem_epsOf.mpr ⟨s, hs, hi⟩

-- The service of one pair ends where the index of another begins, with the NUL character in both.
def nulSnapshot : MetricsSnapshot where
  receivedAtMs := 0
  available    := true
  failure      := none
  families     := .ofList [(epInfoFamily, ⟨epInfoFamily, [{
    name   := epInfoFamily
    labels := .ofList [("service", "a\x00b"), ("ep_idx", "c"), ("ep", "192.0.2.1")]
    value  := .finite 1 }]⟩)]

theorem not_epJoin : ¬∀ snapshot, OrderFree snapshot ∧ ∀ service epIdx, JoinsStrictly snapshot service epIdx := by
  intro h
  have hu := ((h nulSnapshot).2 "a" "b\x00c").unknown.mpr <| by
    have he : epsOf (selectSamples nulSnapshot epInfoFamily) "a" "b\x00c" = [] := by decide +kernel
    simp [he]
  exact absurd hu <| by decide +kernel

end Join

end Observability
