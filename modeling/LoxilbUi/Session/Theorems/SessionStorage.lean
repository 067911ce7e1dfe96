import LoxilbUi.Session.Theorems.Session

open JsString

namespace Session

variable {root path t token key : String} {store : Storage}

section Redirect

-- `withoutRoot` in `rememberRedirectTarget`
def withoutRoot (root path : String) : String :=
  if root ≠ "" && startsWith path (root ++ "/") then slice path root.length else path

theorem isEntry_iff {s : String} : IsEntry s ↔
    (splitHead (splitHead s '#') '?' = "/login" || splitHead (splitHead s '#') '?' = "/") = true := by
  simp [IsEntry]

theorem rememberRedirectTarget_stored (hl : IsLocal path) (he : ¬IsEntry (withoutRoot root path)) :
    rememberRedirectTarget root path store =
      store.insert redirectKey (splitHead (withoutRoot root path) '#') := by
  rw [isEntry_iff] at he
  simp only [rememberRedirectTarget, hl.1, hl.2, Bool.not_true, Bool.or_self, Bool.false_eq_true,
    if_false]
  exact if_neg he

theorem rememberRedirectTarget_refused (h : ¬IsLocal path ∨ IsEntry (withoutRoot root path)) :
    rememberRedirectTarget root path store = store := by
  simp only [rememberRedirectTarget]
  split
  case isTrue => rfl
  case isFalse hl =>
    obtain h | h := h
    · exact absurd (by simpa [IsLocal] using hl) h
    · exact if_pos (isEntry_iff.mp h)

theorem withoutRoot_below (hr : root ≠ "") (h : startsWith path (root ++ "/")) :
    root ++ withoutRoot root path = path := by
  obtain ⟨rest, hp⟩ := startsWith_iff.mp h
  simp only [withoutRoot, hr, h, ne_eq, not_false_eq_true, decide_true, Bool.and_self, if_true]
  refine String.toList_inj.mp ?_
  simp [slice, ← hp, ← String.length_toList]

theorem withoutRoot_outside (h : root = "" ∨ ¬startsWith path (root ++ "/")) :
    withoutRoot root path = path := by
  obtain h | h := h <;> simp [withoutRoot, h]

theorem withoutRoot_self : withoutRoot root root = root := by
  refine withoutRoot_outside <| .inr fun hc => ?_
  have hc := (startsWith_iff.mp hc).length_le
  simp only [String.toList_append, List.length_append] at hc
  exact absurd hc <| by simp

-- What is stored begins where a path below the root goes on.
theorem startsWith_withoutRoot {t : String} (hr : root ≠ "") (h : startsWith path (root ++ "/")) :
    startsWith (withoutRoot root path) t = startsWith path (root ++ t) := by
  refine Bool.eq_iff_iff.mpr ?_
  rw [startsWith_iff, startsWith_iff]
  nth_rw 2 [← withoutRoot_below hr h]
  simp

theorem IsEntry.host {cut : String} (h : IsEntry cut) : ¬startsWith cut "//" := by
  rw [← startsWith_splitHead (c := '#') (by decide), ← startsWith_splitHead (c := '?') (by decide)]
  simp only [IsEntry, List.mem_cons, List.not_mem_nil, or_false] at h
  obtain h | h := h <;> rw [h] <;> decide

theorem Targets.of_splitHead {cut : String} (hs : startsWith cut "/") (hh : ¬startsWith cut "//")
    (he : ¬IsEntry cut) (hb : IsUnder root path → root ++ splitHead cut '#' = splitHead path '#')
    (ho : ¬IsUnder root path → splitHead cut '#' = splitHead path '#') :
    Targets root path (splitHead cut '#') := by
  refine ⟨?_, ?_, ?_, ?_, hb, ho⟩
  case refine_1 => rwa [startsWith_splitHead (by decide)]
  case refine_2 => rwa [startsWith_splitHead (by decide)]
  case refine_3 =>
    intro hc
    rw [splitHead_toList] at hc
    simpa using List.mem_takeWhile_imp hc
  case refine_4 => simpa [IsEntry, not_or] using he

theorem targets_withoutRoot (hl : IsLocal path) (hr : Recognised root path)
    (he : ¬IsEntry (withoutRoot root path)) :
    Targets root path (splitHead (withoutRoot root path) '#') := by
  by_cases hc : root = "" ∨ ¬startsWith path (root ++ "/")
  case pos =>
    rw [withoutRoot_outside hc] at he ⊢
    refine .of_splitHead hl.1 hl.2 he (fun hu => ?_) fun _ => rfl
    obtain hu | hu := hu
    · exact absurd (hr.atRoot hu) (hu ▸ he)
    · obtain hc | hc := hc
      · simp [hc]
      · exact absurd hu hc
  case neg =>
    obtain ⟨hn, hu⟩ := not_or.mp hc
    have hu := not_not.mp hu
    refine .of_splitHead ?_ ?_ he (fun _ => ?_) fun ho => absurd (.inr hu) ho
    · rwa [startsWith_withoutRoot hn hu]
    · rw [startsWith_withoutRoot hn hu]
      exact hr.host hn
    · have hf : '#' ∉ root.toList := by
        intro hf
        refine he ?_
        simpa [withoutRoot, hn, hu] using hr.fragment hf hu
      refine String.toList_inj.mp ?_
      conv_rhs => rw [← withoutRoot_below hn hu]
      rw [String.toList_append, splitHead_toList, splitHead_toList, String.toList_append,
        List.takeWhile_append_of_pos fun x hx => by simpa using ne_of_mem_of_not_mem hx hf]

theorem insert_ne_empty {t : String} : (∅ : Storage).insert redirectKey t ≠ ∅ := by
  intro h
  have h := congrArg (AList.lookup redirectKey) h
  rw [AList.lookup_insert] at h
  contradiction

theorem insert_inj {t t' : String}
    (h : (∅ : Storage).insert redirectKey t = (∅ : Storage).insert redirectKey t') : t = t' := by
  have h := congrArg (AList.lookup redirectKey) h
  rwa [AList.lookup_insert, AList.lookup_insert, Option.some_inj] at h

-- What is stored at a page that is not refused is a target for it.
theorem Redirects.targets (h : Redirects root path) (hl : IsLocal path)
    (he : ¬IsEntry (withoutRoot root path)) :
    Targets root path (splitHead (withoutRoot root path) '#') := by
  obtain hs | ⟨t, ht, hs⟩ := h.stores ∅
  · rw [rememberRedirectTarget_stored hl he] at hs
    exact absurd hs insert_ne_empty
  · rw [rememberRedirectTarget_stored hl he] at hs
    exact insert_inj hs ▸ ht

theorem redirects_iff : Redirects root path ↔ (IsLocal path → Recognised root path) := by
  constructor
  case mp =>
    intro h hl
    refine ⟨fun hn hc => ?_, fun hp => ?_, fun hf hu => ?_⟩
    · have hu : startsWith path (root ++ "/") := by
        refine startsWith_iff.mpr <| .trans ?_ <| startsWith_iff.mp hc
        exact ⟨['/'], by simp⟩
      have hd : startsWith (withoutRoot root path) "//" := by rwa [startsWith_withoutRoot hn hu]
      refine (h.targets hl fun he => he.host hd).host ?_
      rwa [startsWith_splitHead (by decide)]
    · by_contra he
      have hs := h.atRoot hp ∅
      rw [rememberRedirectTarget_stored hl (by rwa [hp, withoutRoot_self])] at hs
      exact insert_ne_empty hs
    · have hn : root ≠ "" := by
        rintro rfl
        simp at hf
      by_contra he
      have hw : withoutRoot root path = slice path root.length := by simp [withoutRoot, hn, hu]
      have ht := (h.targets hl (by rwa [hw])).below <| .inr hu
      have hm : '#' ∈ (splitHead path '#').toList := by
        rw [← ht]
        simp [hf]
      rw [splitHead_toList] at hm
      simpa using List.mem_takeWhile_imp hm
  case mpr =>
    intro hr
    by_cases hc : ¬IsLocal path ∨ IsEntry (withoutRoot root path)
    case pos =>
      exact ⟨fun _ => .inl <| rememberRedirectTarget_refused hc,
        fun _ _ => rememberRedirectTarget_refused hc⟩
    case neg =>
      obtain ⟨hl, he⟩ := not_or.mp hc
      have hl := not_not.mp hl
      refine ⟨fun _ => .inr ⟨_, targets_withoutRoot hl (hr hl) he,
        rememberRedirectTarget_stored hl he⟩, fun hp => ?_⟩
      rw [hp, withoutRoot_self] at he
      exact absurd ((hr hl).atRoot hp) he

-- The second slash is behind the root when the check for it is made.
theorem not_redirects_hostBelowRoot : ¬∀ root path,
    (root = "" ∨ startsWith root "/" ∧ ¬endsWith root "/") → Redirects root path := by
  intro h
  have hr := h "/ui" "/ui//evil.example/steal" <| .inr ⟨by decide, by decide⟩
  have he : ¬IsEntry (withoutRoot "/ui" "/ui//evil.example/steal") := by
    rw [isEntry_iff]
    decide
  exact (hr.targets ⟨by decide, by decide⟩ he).host <| by decide

end Redirect

section Purge

theorem isDoomed_iff {value : String} (hn : token ≠ "") (h : store.lookup key = some value) :
    isDoomed token store key = true ↔ IsSessionData token key value := by
  simp [isDoomed, IsSessionData, h, hn, or_assoc]

theorem purgeStore_purges_iff (hn : token ≠ "") : Purges token store (purgeStore token store) ↔
    ∀ value, store.lookup "" = some value → ¬includes value token := by
  constructor
  case mp =>
    intro h value hv hi
    refine h.gone "" value ?_ <| .inr <| .inr <| .inr hi
    simpa [lookup_purgeStore] using hv
  case mpr =>
    intro h
    have hold : ∀ key value, (purgeStore token store).lookup key = some value →
        store.lookup key = some value := by
      intro key value hv
      rw [lookup_purgeStore] at hv
      split at hv
      · contradiction
      · exact hv
    refine ⟨fun key value hv hd => ?_, fun key value hv hd => ?_, hold⟩
    · have hs := hold key value hv
      by_cases hk : key = ""
      · subst hk
        obtain hd | hd | hd | hd := hd
        · exact absurd hd (by decide)
        · exact absurd hd (by decide)
        · exact absurd hd (by decide)
        · exact h value hs hd
      · simp [lookup_purgeStore, hk, (isDoomed_iff hn hs).mpr hd] at hv
    · rw [lookup_purgeStore, if_neg fun hc => hd ((isDoomed_iff hn hv).mp hc.2), hv]

-- The scan takes all session data and nothing else from both stores, unless the token stands under
-- the empty key of one of them.
theorem purgeSessionStorage_purges_iff {s : Tab} (hn : token ≠ "") :
    (Purges token s.localStorage (s.purgeSessionStorage token).localStorage ∧
      Purges token s.sessionStorage (s.purgeSessionStorage token).sessionStorage) ↔
    ∀ value, s.localStorage.lookup "" = some value ∨ s.sessionStorage.lookup "" = some value →
      ¬includes value token := by
  simp only [Tab.purgeSessionStorage, purgeStore_purges_iff hn]
  constructor
  case mp =>
    rintro ⟨hl, hs⟩ value (hv | hv)
    · exact hl value hv
    · exact hs value hv
  case mpr => exact fun h => ⟨fun value hv => h value <| .inl hv, fun value hv => h value <| .inr hv⟩

def leftUnderNoName : Tab :=
  .load ((∅ : Storage).insert "" "Bearer tok") ((∅ : Storage).insert tokenKey "tok") ⟨"/", "/"⟩

theorem purgeSessionStorage_purges_preference :
    let s := Tab.load ((∅ : Storage).insert "i18nextLng" "ko") ∅ ⟨"/", "/"⟩
    Purges "tok" s.localStorage (s.purgeSessionStorage "tok").localStorage ∧
      Purges "tok" s.sessionStorage (s.purgeSessionStorage "tok").sessionStorage :=
  purgeSessionStorage_purges_iff (by decide) |>.mpr fun value hv => by
    obtain hv | hv := hv <;> contradiction

-- The loop passes over the empty key before it looks at the value.
theorem not_purges_emptyKey : ¬∀ (token : String) (s : Tab), token ≠ "" →
    Purges token s.localStorage (s.purgeSessionStorage token).localStorage ∧
      Purges token s.sessionStorage (s.purgeSessionStorage token).sessionStorage := by
  intro h
  have hl := (h "tok" leftUnderNoName (by decide)).1
  exact purgeStore_purges_iff (by decide) |>.mp hl "Bearer tok" (by decide) (by decide)

end Purge

end Session
