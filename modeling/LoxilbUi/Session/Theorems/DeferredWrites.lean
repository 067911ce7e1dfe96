import LoxilbUi.Session.DeferredWrites
import LoxilbUi.Session.Theorems.Session

open Session (Tab App Begins Teardown Verify)

namespace DeferredWrites

section Storage

variable {token key value : String} {store : Storage}

theorem isResidue_doomed (h : IsResidue key) : key ≠ "" ∧ Session.isDoomed token store key = true := by
  constructor
  case left =>
    rintro rfl
    revert h
    unfold IsResidue
    decide
  case right => obtain rfl | rfl | h := h <;> simp [Session.isDoomed, *]

theorem clean_purgeStore : Clean (Session.purgeStore token store) := by
  intro key hk hr
  have hl := @Session.lookup_purgeStore token key store
  rw [if_pos (isResidue_doomed hr)] at hl
  exact AList.lookup_eq_none.mp hl hk

theorem Clean.insert (h : Clean store) (hk : ¬IsResidue key) : Clean (store.insert key value) := by
  intro k hm
  obtain rfl | hm := AList.mem_insert _ |>.mp hm
  · exact hk
  · exact h k hm

theorem clean_rememberRedirectTarget {root path : String} (h : Clean store) :
    Clean (Session.rememberRedirectTarget root path store) := by
  have hk : ¬IsResidue redirectKey := by
    unfold IsResidue
    decide
  unfold Session.rememberRedirectTarget
  split
  case isTrue  => exact h
  case isFalse =>
    extract_lets
    split
    · exact h
    · exact h.insert hk

theorem includes_iff {s t : String} : JsString.includes s t = true ↔ t.toList <:+: s.toList := by
  simp [JsString.includes]

theorem isResidue_storageKey {id : Nat} : IsResidue (storageKey id) := by
  refine .inr <| .inr <| includes_iff.mpr ⟨"conntrack".toList, id.repr.toList, ?_⟩
  simp [storageKey, seriesKey, seriesKeyMark]

end Storage

def Scrubbed (s : Tab) : Prop :=
  Clean s.localStorage ∧ Clean s.sessionStorage

theorem tearDown_scrubbed {app : App} {s : Tab} {reason : SessionEndReason} {token : String} :
    Scrubbed (s.tearDown app reason token) := by
  have hk : ¬IsResidue reasonKey := by
    unfold IsResidue
    decide
  exact ⟨clean_purgeStore, clean_rememberRedirectTarget <| clean_purgeStore.insert hk⟩

-- What a step does to the teardowns: the one that it ends leaves clean stores.
inductive Advances (s s' : Tab) : Prop
  | kept : s'.teardowns = s.teardowns → Advances s s'
  | begun (d) : s'.teardowns = s.teardowns ++ [d] → (d.left = 0 → Scrubbed s') → Advances s s'
  | awaited (k d d') : s.teardowns[k]? = some d → d.left ≠ 0 → s'.teardowns = s.teardowns.set k d' →
      (d'.left = 0 → Scrubbed s') → Advances s s'

namespace Advances

variable {app : App} {s s₁ s' : Tab} {reason : SessionEndReason} {token : String}
variable {e : Session.Event}

theorem of_terminateSession (h : s₁.teardowns = s.teardowns) :
    Advances s (s₁.terminateSession app reason) := by
  rcases Bool.eq_false_or_eq_true s₁.terminating with ht | ht
  · rw [Tab.terminateSession_guarded ht]
    exact .kept h
  · refine .begun ⟨reason, s₁.loadToken, app.purges⟩ ?_ fun hl => ?_
    · rw [Tab.terminateSession_teardowns ht, h]
    · have hp : app.purges = 0 := hl
      simp only [Tab.terminateSession, ht, Bool.false_eq_true, if_false, hp, if_true]
      exact tearDown_scrubbed

theorem of_confirmEnd (h : s₁.teardowns = s.teardowns) : Advances s (s₁.confirmEnd app token).2 := by
  by_cases ht : s₁.loadToken = token
  · rw [Tab.confirmEnd_installed ht]
    exact .of_terminateSession h
  · rw [Tab.confirmEnd_replaced ht]
    exact .kept h

theorem of_step (h : s.step app e = some s') : Advances s s' := by
  cases e <;> simp only [Tab.step] at h
  case login => split at h <;> cases h; exact .kept rfl
  case locate | send | revoke => cases h; exact .kept rfl
  case terminate => cases h; exact .of_terminateSession rfl
  case handle | settle | fail =>
    obtain ⟨_, rfl⟩ := Tab.advance_inv h
    exact .kept rfl
  case purged k =>
    obtain ⟨reason, token, left, hk, rfl⟩ := Tab.purged_inv h
    refine .awaited k _ ⟨reason, token, left⟩ hk (by simp) ?_ fun hl => ?_
    · split <;> rfl
    · rw [if_pos hl]
      exact tearDown_scrubbed
  case unauthorized i verdict =>
    obtain ⟨token, requests, _, ⟨_, rfl⟩ | ⟨_, rfl⟩ | ⟨_, rfl⟩⟩ := Tab.unauthorized_inv h
    · exact .kept rfl
    · exact .of_terminateSession rfl
    · simp only [Tab.endSessionIfOAMConfirms]
      split
      · exact .of_confirmEnd rfl
      · obtain ⟨_, ht, _⟩ := @Tab.oamSessionEnded_same { s with requests } token
        exact .kept ht
  case resume j =>
    obtain ⟨token, _, _, _, _, _, _, ⟨_, rfl⟩ | ⟨_, rfl⟩⟩ := Tab.resume_inv h
    · exact .kept rfl
    · cases @Advances.of_confirmEnd app s s token rfl
      case kept ht             => exact .kept ht
      case begun d ht hd       => exact .begun d ht hd
      case awaited k d d' hk hl ht hd => exact .awaited k d d' hk hl ht hd

-- A teardown that comes to its end leaves clean stores.
theorem scrubbed {k : Nat} {d : Teardown} (h : Advances s s') (hd : s'.teardowns[k]? = some d)
    (hl : d.left = 0) (hn : ∀ d, s.teardowns[k]? = some d → d.left ≠ 0) : Scrubbed s' := by
  cases h
  case kept h => exact absurd hl <| hn d <| h ▸ hd
  case begun d' h hs =>
    rw [h, List.getElem?_append] at hd
    split at hd
    case isTrue  => exact absurd hl <| hn d hd
    case isFalse =>
      rw [List.getElem?_singleton] at hd
      split at hd <;> cases hd
      exact hs hl
  case awaited i d₀ d' hi hl₀ h hs =>
    rw [h, List.getElem?_set] at hd
    split at hd
    case isTrue =>
      split at hd <;> cases hd
      exact hs hl
    case isFalse => exact absurd hl <| hn d hd

end Advances

variable {app : App} {p p' p₀ : Page} {e : Event} {es : List Event} {k : Nat}

namespace Page

-- What an event does to a page.
theorem step_inv (h : p.step app e = some p') :
    (∃ ev tab, e = .tab ev ∧ p.tab.step app ev = some tab ∧ p' = p.enter tab) ∨
    (∃ key value, IsResidue key ∧ p' = p.defer key value) ∨
    ∃ i w, e = .write i ∧ p.writes[i]? = some w ∧
      p' = { p with writes := p.writes.eraseIdx i }.save w := by
  cases e <;> simp only [step] at h
  case tab ev =>
    obtain ⟨tab, ht, rfl⟩ := Option.map_eq_some_iff.mp h
    exact .inl ⟨ev, tab, rfl, ht, rfl⟩
  case update id series => exact .inr <| .inl ⟨_, _, isResidue_storageKey, (Option.some.inj h).symm⟩
  case change cache     => exact .inr <| .inl ⟨_, _, .inr <| .inl rfl, (Option.some.inj h).symm⟩
  case write i =>
    obtain ⟨w, hw, rfl⟩ := Option.map_eq_some_iff.mp h
    exact .inr <| .inr ⟨i, w, rfl, hw, rfl⟩

end Page

-- Each write that is left would leave residue, and a teardown began after as many as were made by then.
structure Pending (p : Page) : Prop where
  residue : ∀ w ∈ p.writes, IsResidue w.key
  began   : ∀ b ∈ p.began, b ≤ p.made

theorem load_pending {l s : Storage} {location : Session.Location} :
    Pending (.load l s location) where
  residue _ h := absurd h List.not_mem_nil
  began _ h   := absurd h List.not_mem_nil

theorem Pending.step (h : Pending p) (hs : p.step app e = some p') : Pending p' := by
  obtain ⟨ev, tab, -, ht, rfl⟩ | ⟨key, value, hk, rfl⟩ | ⟨i, w, -, hw, rfl⟩ := Page.step_inv hs
  · refine ⟨h.residue, fun b hb => ?_⟩
    simp only [Page.enter] at hb
    split at hb
    case isTrue =>
      obtain hb | rfl := by simpa using hb
      · exact h.began b hb
      · exact Nat.le_refl _
    case isFalse => exact h.began b hb
  · refine ⟨fun w hw => ?_, fun b hb => Nat.le_succ_of_le <| h.began b hb⟩
    obtain hw | rfl := by simpa [Page.defer] using hw
    · exact h.residue w hw
    · exact hk
  · exact ⟨fun w hw => h.residue w <| List.mem_of_mem_eraseIdx hw, h.began⟩

theorem Pending.beganAt_le (h : Pending p) : p.beganAt k ≤ p.made := by
  rw [Page.beganAt, List.getD_eq_getElem?_getD]
  cases hk : p.began[k]?
  case none   => simp
  case some b => exact h.began b <| List.mem_of_getElem? hk

-- Nothing that was put off before `b` writes had been made is left, nor ever will be.
structure Past (b : Nat) (p : Page) : Prop where
  made   : b ≤ p.made
  writes : ∀ w ∈ p.writes, b ≤ w.id

theorem Past.step {b : Nat} (h : Past b p) (hs : p.step app e = some p') : Past b p' := by
  obtain ⟨ev, tab, -, ht, rfl⟩ | ⟨key, value, hk, rfl⟩ | ⟨i, w, -, hw, rfl⟩ := Page.step_inv hs
  · exact ⟨h.made, h.writes⟩
  · refine ⟨Nat.le_succ_of_le h.made, fun w hw => ?_⟩
    obtain hw | rfl := by simpa [Page.defer] using hw
    · exact h.writes w hw
    · exact h.made
  · exact ⟨h.made, fun w hw => h.writes w <| List.mem_of_mem_eraseIdx hw⟩

-- Only the session itself brings a teardown to its end, and the writes wait meanwhile.
theorem Completes.inv (h : Completes p p' k) (hs : p.step app e = some p') :
    Scrubbed p'.tab ∧ p'.writes = p.writes ∧ p'.made = p.made ∧ p'.beganAt k = p.beganAt k := by
  obtain ⟨hn, d, hd, hl⟩ := h
  obtain ⟨ev, tab, -, ht, rfl⟩ | ⟨key, value, hk, rfl⟩ | ⟨i, w, -, hw, rfl⟩ := Page.step_inv hs
  · refine ⟨(Advances.of_step ht).scrubbed hd hl fun d hd hl => hn ⟨d, hd, hl⟩, rfl, rfl, ?_⟩
    simp only [Page.beganAt, Page.enter, List.getD_eq_getElem?_getD]
    split
    case isFalse => rfl
    case isTrue =>
      rw [List.getElem?_append]
      split
      case isTrue  => rfl
      case isFalse hk =>
        rw [List.getElem?_eq_none (Nat.not_lt.mp hk), List.getElem?_singleton]
        split <;> rfl
  · exact absurd ⟨d, hd, hl⟩ hn
  · exact absurd ⟨d, hd, hl⟩ hn

theorem Past.staysClean (h : Past (p.beganAt k) p) : StaysClean app p k := by
  intro es p' p'' i w r _ hw _ hb
  have hp := r.invariant h fun _ _ _ h hs => h.step hs
  have := hp.writes w <| List.mem_of_getElem? hw
  omega

theorem StaysClean.writes (h : StaysClean app p k) (hp : Pending p) : ∀ w ∈ p.writes, p.beganAt k ≤ w.id := by
  intro w hw
  by_contra hb
  obtain ⟨i, hi⟩ := List.getElem?_of_mem hw
  have hs : p.step app (.write i) = some ({ p with writes := p.writes.eraseIdx i }.save w) := by
    simp [Page.step, hi]
  exact h [] p _ i w .nil nofun hi hs (by omega) <| hp.residue w hw

-- Teardowns leave nothing behind just if each of them, when it ends, has outlasted the writes that were
-- put off before it began.
theorem leavesNothing_iff_drained {l s : Storage} {location : Session.Location}
    (r : Reaches app (.load l s location) es p) : LeavesNothing app (.load l s location) es ↔
      Run.Along (Page.step app) (.load l s location) (Drained app) es := by
  rw [← Run.eachStep_iff_along r]
  refine Run.eachStep_congr ?_
  rintro es₁ e es₂ p₁ p₂ rfl r₁ hs
  have hp : Pending p₁ := r₁.invariant load_pending fun _ _ _ h hs => h.step hs
  constructor
  case mp =>
    intro h p₂' k hs' hc
    obtain rfl : p₂ = p₂' := Option.some.inj <| hs.symm.trans hs'
    obtain ⟨-, -, hst⟩ := h k hc
    obtain ⟨-, hw, -, hb⟩ := hc.inv hs
    exact hw ▸ hb ▸ hst.writes (hp.step hs)
  case mpr =>
    intro h k hc
    obtain ⟨hc', hw, hm, hb⟩ := hc.inv hs
    refine ⟨hc'.left, hc'.right, Past.staysClean ⟨?_, ?_⟩⟩
    · exact (hp.step hs).beganAt_le
    · rw [hw, hb]
      exact h p₂ k hs hc

section Runs

-- A point of a series whose write is still to come when the session ends.
def endRun : List Event :=
  [.tab (.login "t"), .update 1 "[]", .tab (.terminate .revoked), .tab (.purged 0)]

def freshPage : Page :=
  .load ∅ ∅ { href := "/instance", path := "/instance" }

theorem endRun_reaches : ∃ p, Reaches Session.app₁ freshPage endRun p :=
  ⟨_, Run.of_exec rfl⟩

theorem leavesNothing_iff_drained_endRun : ∃ p, Reaches Session.app₁ freshPage endRun p ∧
    (LeavesNothing Session.app₁ freshPage endRun ↔
      Run.Along (Page.step Session.app₁) freshPage (Drained Session.app₁) endRun) :=
  endRun_reaches.imp fun _ r => ⟨r, leavesNothing_iff_drained r⟩

theorem not_leavesNothing_endRun :
    ¬∀ app l s location es p, Reaches app (.load l s location) es p →
      LeavesNothing app (.load l s location) es := by
  intro h
  obtain ⟨p, r⟩ := endRun_reaches
  obtain ⟨-, -, h⟩ := h _ _ _ _ _ _ r [.tab (.login "t"), .update 1 "[]", .tab (.terminate .revoked)] _ []
    _ _ rfl (Run.of_exec rfl) rfl 0 ⟨by rintro ⟨_, ⟨⟩, ⟨⟩⟩, _, rfl, rfl⟩
  exact h [] _ _ 0 _ .nil nofun rfl rfl (by decide) isResidue_storageKey

end Runs

end DeferredWrites
