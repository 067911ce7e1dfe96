import LoxilbUi.Hooks.InputForm

namespace InputForm

open JsValue

section Merge

variable {d v w : JsValue} {key : String} {ds ms merged : List (String × JsValue)}
variable {seen : List String}

theorem lookup_mergeMembers : (mergeMembers ds merged seen ms).lookup key =
    if key ∈ seen then merged.lookup key
    else ((ms.lookup key).map (mergeDefaultsUnder ((object ds).get key))).or (merged.lookup key) := by
  induction ms generalizing merged seen
  case nil => simp [mergeMembers]
  case cons m ms hi =>
    obtain ⟨j, u⟩ := m
    rw [mergeMembers, Dict.lookup_cons]
    by_cases hs : j ∈ seen
    · rw [if_pos hs, hi]
      by_cases hk : key ∈ seen
      · simp only [if_pos hk]
      · have hj : key ≠ j := fun he => hk <| he ▸ hs
        simp only [if_neg hk, if_neg hj]
    · rw [if_neg hs, hi, Dict.lookup_put]
      by_cases hj : key = j
      · subst hj
        simp [hs]
      · simp [hj]

theorem get_merge_object : (mergeDefaultsUnder (object ds) (object ms)).get key =
    mergeDefaultsUnder ((object ds).get key) ((object ms).get key) := by
  simp only [mergeDefaultsUnder, JsValue.get, lookup_mergeMembers, List.not_mem_nil, if_false]
  cases ms.lookup key
  case none   => simp [mergeDefaultsUnder]
  case some u => simp

theorem merge_of_isNil (h : v.isNil = true) : mergeDefaultsUnder d v = d := by
  cases v <;> simp only [isNil, Bool.false_eq_true] at h
  all_goals simp only [mergeDefaultsUnder]

theorem same_merge (h : ¬Fills d v) : Same (mergeDefaultsUnder d v) v := by
  intro path
  induction path generalizing d v
  case nil =>
    by_cases hn : v.isNil = true
    · have hd : d = v := by_contra fun hd => h <| .gap hn hd
      rw [merge_of_isNil hn, hd]
    · cases v <;> cases d <;> simp_all [mergeDefaultsUnder, isNil, look, flat]
  case cons key path hi =>
    by_cases hn : v.isNil = true
    · have hd : d = v := by_contra fun hd => h <| .gap hn hd
      rw [merge_of_isNil hn, hd]
    · cases v
      case object ms =>
        cases d
        case object ds =>
          have hm := hi fun hf => h <| .member key hf
          rw [← get_merge_object] at hm
          exact hm
        all_goals simp only [mergeDefaultsUnder]
      all_goals first | exact absurd rfl hn | simp only [mergeDefaultsUnder]

theorem not_same_merge (h : Fills d v) : ¬Same (mergeDefaultsUnder d v) v := by
  induction h
  case gap hn hd =>
    intro hs
    rw [merge_of_isNil hn] at hs
    exact hd <| flat_eq_some <| hs.flat_eq.trans <| flat_of_isNil hn
  case member key _ hi =>
    intro hs
    exact hi <| get_merge_object ▸ hs.get

-- Laying defaults under a value leaves it as it is just if they fill no gap of it.
theorem same_merge_iff : Same (mergeDefaultsUnder d v) v ↔ ¬Fills d v where
  mp hs hf := not_same_merge hf hs
  mpr      := same_merge

theorem Fills.of_same (h : Fills d v) (hs : Same v w) : Fills d w := by
  induction h generalizing w
  case gap hn hd =>
    obtain rfl := flat_eq_some <| hs.flat_eq.symm.trans <| flat_of_isNil hn
    exact .gap hn hd
  case member key _ hi =>
    obtain ⟨ms, rfl⟩ := flat_eq_none hs.flat_eq.symm
    exact .member key <| hi hs.get

end Merge

section Carries

variable {written entries : List (String × JsValue)} {form defaults : Form}

-- The other fields are what the new form takes from the one that it is built on.
theorem Carries.assign (c : ∀ field v, written.lookup field = some v → field ∉ entries.map Prod.fst →
    Same ((object form).get field) v) : Carries (assign written entries) (assign form entries) := by
  intro field v hv
  simp only [JsValue.get, lookup_assign] at hv ⊢
  cases he : entries.reverse.lookup field
  case none =>
    simp only [he, Option.none_or] at hv ⊢
    refine c field v hv fun hm => ?_
    obtain ⟨e, hmem, rfl⟩ := List.mem_map.mp hm
    simpa using List.lookup_eq_none_iff.mp he e <| List.mem_reverse.mpr hmem
  case some u =>
    simp only [he, Option.some_or, Option.some.injEq] at hv
    exact hv ▸ .refl

theorem Carries.merge (c : Carries written form)
    (h : ∀ field v, written.lookup field = some v → ¬Fills ((object defaults).get field) v) :
    Carries written ((Update.merge defaults).apply form) := by
  intro field v hv
  have hs := c field v hv
  have hm := same_merge_iff.mpr fun hf => h field v hv <| hf.of_same hs
  rw [← get_merge_object] at hm
  exact hm.trans hs

theorem upcoming_concat {queue : List Update} {u : Update} :
    upcoming form (queue ++ [u]) = u.apply (upcoming form queue) := by
  simp [upcoming]

end Carries

-- What holds along a run in step. The mirror carries every write, unless its effect was overtaken.
structure Follows (h : Hook) : Prop where
  upcoming : Carries h.written (upcoming h.latest.form h.queue)
  rendered : h.queue.any (·.isSet) = false → Carries h.written h.latest.form
  mirror   : h.overtaken = false → ∀ m, h.mergedRef = some m → Carries h.written m
  unset    : h.mergedRef = none → h.written = []
  payload  : h.written ≠ [] → ∃ p, h.payload = some p ∧ Carries h.written p

namespace Follows

variable {h h' : Hook} {number : JsValue → JsNumber} {e : Event}

theorem fields_entries {c : Change} {params : Params} :
    (c.entries number params).map Prod.fst = c.fields := by
  cases c <;> rfl

theorem carries_nil {form : Form} : Carries [] form :=
  nofun

theorem mount {fetched : Bool} {params : Params} : Follows (.mount fetched params) where
  upcoming     := carries_nil
  rendered _   := carries_nil
  mirror _     := nofun
  unset _      := rfl
  payload hw   := absurd rfl hw

theorem base {fields : List String} (f : Follows h)
    (ho : h.overtaken = true → ∀ field v, h.written.lookup field = some v → field ∉ fields →
      ∃ m, h.mergedRef = some m ∧ Same ((object m).get field) v) (form : Form) :
    ∀ field v, h.written.lookup field = some v → field ∉ fields →
      Same ((object (h.mergedRef.getD form)).get field) v := by
  intro field v hv hf
  cases hm : h.mergedRef
  case none => simp [f.unset hm] at hv
  case some m =>
    by_cases hb : h.overtaken = true
    · obtain ⟨m', hm', hs⟩ := ho hb field v hv hf
      obtain rfl : m = m' := Option.some.inj <| hm.symm.trans hm'
      exact hs
    · exact f.mirror (by simpa using hb) m hm field v hv

theorem write {c : Change} {r : Render} (f : Follows h) (hr : r.fetched = true)
    (ho : h.overtaken = true → ∀ field v, h.written.lookup field = some v → field ∉ c.fields →
      ∃ m, h.mergedRef = some m ∧ Same ((object m).get field) v) :
    Follows (h.write number c r) := by
  simp only [Hook.write, hr, if_true, Hook.apply]
  have hc : Carries (assign h.written (c.entries number r.params))
      (assign (h.mergedRef.getD r.form) (c.entries number r.params)) :=
    .assign fun field v hv hf => f.base ho r.form field v hv <| fields_entries ▸ hf
  exact {
    upcoming := by
      rw [upcoming_concat]
      exact hc
    rendered hq := by simp [Update.isSet] at hq
    mirror _ m hm := Option.some.inj hm ▸ hc
    unset hm := nomatch hm
    payload _ := ⟨_, rfl, hc⟩ }

theorem render {fetched : Bool} {params : Params} (f : Follows h) :
    Follows (h.render fetched params) :=
  { f with
    upcoming   := f.upcoming
    rendered _ := f.upcoming }

theorem record {due : Bool} {merged : Option (Bool × Nat)} (f : Follows h) :
    Follows { h with due, merged } :=
  { f with }

theorem defaultsEffect (f : Follows h) (hs : Merges h → ∀ field v, h.written.lookup field = some v →
    ¬Fills ((object h.latest.params.defaults).get field) v) : Follows h.defaultsEffect := by
  unfold Hook.defaultsEffect
  split
  case isTrue => exact f
  case isFalse hm =>
    extract_lets h₁
    have f₁ : Follows h₁ := f.record
    split
    case isFalse => exact f₁
    case isTrue hf =>
      exact { f₁ with
        upcoming := by
          rw [upcoming_concat]
          exact f₁.upcoming.merge <| hs ⟨hm, hf⟩
        rendered hq := f₁.rendered <| by simpa [Update.isSet] using hq }

theorem mirrorEffect (f : Follows h) : Follows h.mirrorEffect := by
  unfold Hook.mirrorEffect
  split
  case isFalse => exact f
  case isTrue =>
    exact { f with
      mirror ho m hm := Option.some.inj hm ▸ f.rendered ho
      unset hm := nomatch hm }

theorem step (f : Follows h) (hi : InStep h e) (hs : h.step number e = some h') : Follows h' := by
  cases e <;> simp only [Hook.step] at hs
  case write r c =>
    obtain ⟨render, hr, rfl⟩ := Option.map_eq_some_iff.mp hs
    exact f.write (hi.1 render hr) hi.2
  case render =>
    split at hs <;> cases hs
    exact f.render
  case effects =>
    split at hs <;> cases hs
    have f' : Follows { h with due := false } := f.record
    exact (f'.defaultsEffect hi).mirrorEffect

end Follows

-- In a run in step no write is lost.
theorem kept_of_inStep {number : JsValue → JsNumber} {fetched : Bool} {params : Params}
    {es : List Event} {h : Hook} (r : Reaches number (.mount fetched params) es h)
    (a : Run.Along (Hook.step number) (.mount fetched params) InStep es) (hs : h.Settled) : Kept h := by
  have f : Follows h := r.history_along (P := fun _ h => Follows h) .mount
    (fun _ _ _ _ _ f hi hs => f.step hi hs) a
  have hq : h.queue.any (·.isSet) = false := by simp [hs.2]
  exact ⟨f.rendered hq, f.payload⟩

section Runs

-- No field is an integer, so nothing is converted.
def plain (_ : JsValue) : JsNumber :=
  .nan

def named : Params where
  id       := 0
  type _   := none
  defaults := [("name", .string "")]

-- Two child components write when they are mounted.
def childWrites : List Event :=
  [.write 0 (.field "protocol" (.string "tcp")), .write 0 (.field "action" (.string "allow")), .effects,
    .render true named, .effects]

theorem kept_of_inStep_childWrites : ∃ h, Reaches plain (.mount true named) childWrites h ∧
    h.latest.form =
      [("name", .string ""), ("protocol", .string "tcp"), ("action", .string "allow")] ∧ Kept h := by
  have hg : ∀ {d : JsValue} {s : String}, ¬Fills d (.string s) := nofun
  have a : Run.Along (Hook.step plain) (.mount true named) InStep childWrites := by
    refine Run.along_cons rfl ⟨?_, nofun⟩ <| Run.along_cons rfl ⟨?_, nofun⟩ <|
      Run.along_cons rfl ?_ <| Run.along_cons rfl trivial <| Run.along_cons rfl ?_ Run.along_nil
    · rintro render ⟨⟩
      rfl
    · rintro render ⟨⟩
      rfl
    · intro _ field v hv
      have hv : (field, v) ∈ [("protocol", JsValue.string "tcp"), ("action", .string "allow")] :=
        Dict.mem_of_lookup hv
      simp only [List.mem_cons, List.not_mem_nil, or_false, Prod.mk.injEq] at hv
      obtain ⟨_, rfl⟩ | ⟨_, rfl⟩ := hv <;> exact hg
    · exact fun hm => absurd rfl hm.1
  have r : Reaches plain (.mount true named) childWrites _ := Run.of_exec rfl
  exact ⟨_, r, rfl, kept_of_inStep r a ⟨rfl, rfl⟩⟩

-- The second child component writes one render later, before the mirror is assigned the form of that
-- render.
def lateWrite : List Event :=
  [.write 0 (.field "protocol" (.string "tcp")), .effects, .render true named,
    .write 0 (.field "action" (.string "allow")), .effects, .render true named, .effects]

theorem not_kept_lateWrite : ¬∀ number fetched params es h,
    Reaches number (.mount fetched params) es h → h.Settled → Kept h := by
  intro ha
  have ⟨h, r, hs, hw, hf⟩ : ∃ h, Reaches plain (.mount true named) lateWrite h ∧ h.Settled ∧
      h.written.lookup "protocol" = some (.string "tcp") ∧
      h.latest.form = [("name", .string ""), ("action", .string "allow")] :=
    ⟨_, Run.of_exec rfl, ⟨rfl, rfl⟩, rfl, rfl⟩
  have hk := (ha _ _ _ _ h r hs).1 "protocol" _ hw
  rw [hf] at hk
  nomatch hk.flat_eq

end Runs

end InputForm
