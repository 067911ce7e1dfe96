import LoxilbUi.Session.Session

namespace Session

variable {app : App} {s s' s₀ : Tab} {e : Event} {es : List Event} {reason : SessionEndReason}
variable {token key : String} {store : Storage}

section Storage

theorem lookup_foldl_erase {doomed : List String} :
    (doomed.foldl (fun store key => store.erase key) store).lookup key =
      if key ∈ doomed then none else store.lookup key := by
  induction doomed generalizing store
  case nil => simp
  case cons k doomed hi =>
    rw [List.foldl_cons, hi]
    by_cases h : key = k
    · subst h
      simp [AList.lookup_erase]
    · simp [h, AList.lookup_erase_ne h]

-- The scan removes what is doomed, the empty key apart, and keeps the rest.
theorem lookup_purgeStore : (purgeStore token store).lookup key =
    if key ≠ "" ∧ isDoomed token store key = true then none else store.lookup key := by
  simp only [purgeStore, lookup_foldl_erase, List.mem_filter, bne_iff_ne, Bool.and_eq_true]
  by_cases h : key ∈ store
  · simp [AList.mem_keys.mp h]
  · simp [AList.lookup_eq_none.mpr h]

theorem lookup_purgeStore_token : (purgeStore token store).lookup tokenKey = none := by
  simp [lookup_purgeStore, isDoomed, tokenKey]

end Storage

namespace Tab

@[simp]
theorem tearDown_loadToken : (s.tearDown app reason token).loadToken = "" := by
  simp [loadToken, tearDown, lookup_purgeStore_token]

@[simp]
theorem tearDown_teardowns : (s.tearDown app reason token).teardowns = s.teardowns :=
  rfl

@[simp]
theorem tearDown_terminating : (s.tearDown app reason token).terminating = s.terminating :=
  rfl

theorem terminateSession_guarded (h : s.terminating = true) : s.terminateSession app reason = s := by
  simp [terminateSession, h]

theorem terminateSession_teardowns (h : s.terminating = false) :
    (s.terminateSession app reason).teardowns =
      s.teardowns ++ [{ reason, token := s.loadToken, left := app.purges }] := by
  simp only [terminateSession, h, Bool.false_eq_true, if_false]
  split <;> rfl

@[simp]
theorem terminateSession_terminating : (s.terminateSession app reason).terminating = true := by
  simp only [terminateSession]
  split
  case isTrue h => exact h
  case isFalse  => split <;> simp

theorem purged_inv {k : Nat} (h : s.purged app k = some s') :
    ∃ reason token left, s.teardowns[k]? = some ⟨reason, token, left + 1⟩ ∧
      s' = if left = 0
        then { s with teardowns := s.teardowns.set k ⟨reason, token, left⟩ }.tearDown app reason token
        else { s with teardowns := s.teardowns.set k ⟨reason, token, left⟩ } := by
  simp only [purged] at h
  split at h <;> cases h
  case h_1 reason token left hk => exact ⟨reason, token, left, hk, rfl⟩

theorem confirmEnd_replaced (h : s.loadToken ≠ token) : s.confirmEnd app token = (.replaced, s) := by
  simp [confirmEnd, h]

theorem confirmEnd_installed (h : s.loadToken = token) :
    s.confirmEnd app token = (.terminated, s.terminateSession app .revoked) := by
  simp [confirmEnd, h]

-- Asking OAM changes what is known about probes and nothing else.
theorem oamSessionEnded_same : (s.oamSessionEnded token).2.loadToken = s.loadToken ∧
    (s.oamSessionEnded token).2.teardowns = s.teardowns ∧
    (s.oamSessionEnded token).2.terminating = s.terminating := by
  simp only [oamSessionEnded]
  split
  · split <;> exact ⟨rfl, rfl, rfl⟩
  · exact ⟨rfl, rfl, rfl⟩

theorem advance_inv {p : Nat} {f : Probe → Option Answer} (h : s.advance p f = some s') :
    ∃ probes, s' = { s with probes } := by
  simp only [advance] at h
  split at h
  case h_1 =>
    obtain ⟨_, _, rfl⟩ := Option.map_eq_some_iff.mp h
    exact ⟨_, rfl⟩
  case h_2 => contradiction

end Tab

-- An event without a login begins no teardown, or the first one since the guard was lifted.
inductive Begins (s : Tab) (s' : Tab) : Prop
  | none : s'.teardowns.length = s.teardowns.length → s'.terminating = s.terminating → Begins s s'
  | one : s.terminating = false → s'.teardowns.length = s.teardowns.length + 1 →
      s'.terminating = true → Begins s s'

theorem Begins.of_terminateSession {s₁ : Tab} (hl : s₁.teardowns.length = s.teardowns.length)
    (ht : s₁.terminating = s.terminating) : Begins s (s₁.terminateSession app reason) := by
  rcases Bool.eq_false_or_eq_true s₁.terminating with h | h
  · exact .none (by rw [Tab.terminateSession_guarded h, hl]) (by simp [← ht, h])
  · exact .one (ht ▸ h) (by simp [Tab.terminateSession_teardowns h, hl]) (by simp)

theorem Begins.of_confirmEnd {s₁ : Tab} (hl : s₁.teardowns.length = s.teardowns.length)
    (ht : s₁.terminating = s.terminating) : Begins s (s₁.confirmEnd app token).2 := by
  by_cases h : s₁.loadToken = token
  · rw [Tab.confirmEnd_installed h]
    exact .of_terminateSession hl ht
  · rw [Tab.confirmEnd_replaced h]
    exact .none hl ht

namespace Tab

theorem unauthorized_inv {i : Nat} {verdict : UnauthorizedVerdict}
    (h : s.unauthorized app i verdict = some s') :
    ∃ token requests, s.requests[i]? = some ⟨token, false⟩ ∧
      ((verdict = .inline ∧ s' = { s with requests }) ∨
      (verdict = .expire ∧ s' = { s with requests }.terminateSession app .revoked) ∨
      (verdict = .verify ∧ s' = { s with requests }.endSessionIfOAMConfirms app token)) := by
  simp only [unauthorized] at h
  split at h
  case h_1 token hi =>
    refine ⟨token, s.requests.set i { token, answered := true }, hi, ?_⟩
    cases verdict <;> cases h
    case inline => exact .inl ⟨rfl, rfl⟩
    case expire => exact .inr <| .inl ⟨rfl, rfl⟩
    case verify => exact .inr <| .inr ⟨rfl, rfl⟩
  case h_2 => contradiction

theorem resume_inv {j : Nat} (h : s.resume app j = some s') :
    ∃ token p t ended verifies, s.verifies[j]? = some ⟨token, p, .waiting⟩ ∧
      s.probes[p]? = some ⟨t, .settled ended⟩ ∧
      ((ended = false ∧ s' = { s with verifies }) ∨
      (ended = true ∧ s' = { (s.confirmEnd app token).2 with verifies })) := by
  simp only [resume] at h
  split at h
  case h_1 token p hj =>
    split at h
    case h_1 t ended hp =>
      cases ended <;> cases h
      case false => exact ⟨_, _, _, _, _, hj, hp, .inl ⟨rfl, rfl⟩⟩
      case true  => exact ⟨_, _, _, _, _, hj, hp, .inr ⟨rfl, rfl⟩⟩
    case h_2 => contradiction
  case h_2 => contradiction

end Tab

theorem step_begins (h : s.step app e = some s') (hl : ¬e.IsLogin) : Begins s s' := by
  cases e <;> simp only [Tab.step] at h
  case login => exact absurd trivial hl
  case locate | send | revoke => cases h; exact .none rfl rfl
  case terminate => cases h; exact .of_terminateSession rfl rfl
  case handle | settle | fail =>
    obtain ⟨_, rfl⟩ := Tab.advance_inv h
    exact .none rfl rfl
  case purged k =>
    obtain ⟨_, _, _, _, rfl⟩ := Tab.purged_inv h
    split <;> exact .none (by simp) rfl
  case unauthorized i verdict =>
    obtain ⟨token, requests, _, ⟨_, rfl⟩ | ⟨_, rfl⟩ | ⟨_, rfl⟩⟩ := Tab.unauthorized_inv h
    · exact .none rfl rfl
    · exact .of_terminateSession rfl rfl
    · simp only [Tab.endSessionIfOAMConfirms]
      split
      · exact .of_confirmEnd rfl rfl
      · have ⟨_, ht, hg⟩ := @Tab.oamSessionEnded_same { s with requests } token
        exact .none (congrArg List.length ht) hg
  case resume j =>
    obtain ⟨token, _, _, _, _, _, _, ⟨_, rfl⟩ | ⟨_, rfl⟩⟩ := Tab.resume_inv h
    · exact .none rfl rfl
    · cases @Begins.of_confirmEnd app s token s rfl rfl
      case none hl ht   => exact .none hl ht
      case one ht hl hg => exact .one ht hl hg

theorem once_begins {es₂ : List Event} (r : Reaches app s es₂ s') (hl : ∀ e ∈ es₂, ¬e.IsLogin) :
    s'.teardowns.length + (if s'.terminating then 0 else 1) ≤
      s.teardowns.length + (if s.terminating then 0 else 1) := by
  induction r
  case nil => exact Nat.le_refl _
  case snoc r hs hi =>
    have hi := hi fun e he => hl e <| by simp [he]
    cases step_begins hs <| hl _ <| by simp
    case none h₁ h₂   => simpa [h₁, h₂] using hi
    case one h₀ h₁ h₂ =>
      simp only [h₀, h₁, h₂] at hi ⊢
      simpa using hi

theorem endSession_spares (h : s.loadToken ≠ token) :
    (s.endSessionIfOAMConfirms app token).loadToken = s.loadToken ∧
      (s.endSessionIfOAMConfirms app token).teardowns = s.teardowns := by
  simp only [Tab.endSessionIfOAMConfirms]
  split
  · simp [Tab.confirmEnd_replaced h]
  · have ⟨hl, ht, _⟩ := @Tab.oamSessionEnded_same s token
    exact ⟨hl, ht⟩

theorem spares_of_addressed (hs : s.step app e = some s') (ha : Addressed s e) : Spares s e s' := by
  constructor
  case answered =>
    intro token he h₁ h₂
    cases e <;> simp only [Tab.step, Event.Answers] at hs he
    case unauthorized i verdict =>
      obtain ⟨q, hq, rfl⟩ := he
      obtain ⟨t, requests, hi, hv⟩ := Tab.unauthorized_inv hs
      obtain rfl := Option.some.inj (hq.symm.trans hi)
      obtain ⟨_, rfl⟩ | ⟨rfl, rfl⟩ | ⟨_, rfl⟩ := hv
      · exact ⟨rfl, rfl⟩
      · obtain ht | ht | ht := ha _ hq
        · rw [@Tab.terminateSession_guarded app { s with requests } .revoked ht]
          exact ⟨rfl, rfl⟩
        · exact absurd ht h₁
        · exact absurd ht h₂
      · exact @endSession_spares app { s with requests } t h₂
    case resume j =>
      obtain ⟨v, hv, rfl⟩ := he
      obtain ⟨t, _, _, _, _, hj, _, ⟨_, rfl⟩ | ⟨_, rfl⟩⟩ := Tab.resume_inv hs
      · exact ⟨rfl, rfl⟩
      · obtain rfl := Option.some.inj (hv.symm.trans hj)
        rw [Tab.confirmEnd_replaced h₂]
        exact ⟨rfl, rfl⟩
  case tornDown =>
    rintro k d rfl hd h₁ h₂
    obtain ⟨_, _, left, hk, rfl⟩ := Tab.purged_inv hs
    obtain rfl := Option.some.inj (hd.symm.trans hk)
    split
    case isTrue hz =>
      obtain h | h := ha _ hd (by simp [hz])
      · exact absurd h h₁
      · exact absurd h h₂
    case isFalse => rfl

theorem addressed_of_spares (hs : s.step app e = some s') (h : Spares s e s') : Addressed s e := by
  cases e <;> simp only [Addressed]
  case unauthorized i verdict =>
    cases verdict <;> simp only
    intro q hq
    by_contra hn
    simp only [not_or, Bool.not_eq_true] at hn
    obtain ⟨hg, h₁, h₂⟩ := hn
    simp only [Tab.step] at hs
    obtain ⟨t, requests, hi, ⟨h, _⟩ | ⟨_, rfl⟩ | ⟨h, _⟩⟩ := Tab.unauthorized_inv hs <;> try contradiction
    have ht := (h.answered q.token ⟨q, hq, rfl⟩ h₁ h₂).right
    simp [@Tab.terminateSession_teardowns app { s with requests } .revoked hg] at ht
  case purged k =>
    intro d hd hl
    by_contra hn
    obtain ⟨h₁, h₂⟩ := not_or.mp hn
    simp only [Tab.step] at hs
    obtain ⟨_, _, left, hk, rfl⟩ := Tab.purged_inv hs
    obtain rfl := Option.some.inj (hd.symm.trans hk)
    obtain rfl : left = 0 := by simpa using hl
    have ht := h.tornDown k _ rfl hd h₁ h₂
    simp only [if_true, Tab.tearDown_loadToken] at ht
    exact h₁ ht.symm

-- A run leaves every session to itself exactly when each 401 that needs no second opinion, and each
-- storage scan, is about the token that is installed.
theorem isolated_iff_addressed (r : Reaches app s₀ es s) :
    Isolated app s₀ es ↔ Run.Along (Tab.step app) s₀ Addressed es := by
  rw [← Run.eachStep_iff_along r]
  have hs : Run.EachStep (Tab.step app) s₀ (fun _ => Spares) es ↔
      Run.EachStep (Tab.step app) s₀ (fun _ s₁ e _ => Addressed s₁ e) es :=
    Run.eachStep_congr fun _ _ _ _ _ _ _ hs => ⟨addressed_of_spares hs, spares_of_addressed hs⟩
  rw [← hs]
  refine ⟨Isolated.spares, fun h => ⟨h, fun es₁ es₂ s₁ s₂ _ _ r₂ hl => ?_⟩⟩
  have := once_begins r₂ hl
  split at this <;> split at this <;> omega

section Expired

def noStorage : Storage :=
  ∅

def loginPage : Location where
  href := "https://ui/login"
  path := "/login"

def app₁ : App where
  purges := 1
  root   := ""

def freshTab : Tab :=
  .load noStorage noStorage loginPage

-- A request of the first session is answered after the second one has begun.
def expiredRun : List Event :=
  [.login "first", .send, .login "second", .unauthorized 0 .expire]

theorem expiredRun_reaches : ∃ s, Reaches app₁ freshTab expiredRun s :=
  ⟨_, Run.of_exec rfl⟩

theorem isolated_iff_addressed_expiredRun :
    Isolated app₁ freshTab expiredRun ↔
      Run.Along (Tab.step app₁) freshTab Addressed expiredRun :=
  have ⟨_, r⟩ := expiredRun_reaches
  isolated_iff_addressed r

theorem not_isolated_expiredRun :
    ¬∀ app localStorage sessionStorage location es s,
      Reaches app (.load localStorage sessionStorage location) es s →
      Isolated app (.load localStorage sessionStorage location) es := by
  intro h
  obtain ⟨s, r⟩ := expiredRun_reaches
  have h := (h _ _ _ _ _ _ r).spares [.login "first", .send, .login "second"] _ [] _ _ rfl
    (Run.of_exec rfl) rfl
  have ⟨_, ht⟩ := h.answered "first" ⟨_, rfl, rfl⟩ (by decide) (by decide)
  exact absurd (congrArg List.length ht) (by decide)

end Expired

theorem confirmedByProbe_iff {s₁ s₂ : Tab} (hs : s₁.step app e = some s₂) :
    (∀ v, Decides app s₀ es s₁ e v → s₂.terminating = true) ↔
      ConfirmedByProbe app s₀ es s₁ e s₂ := by
  refine forall₂_congr fun v hd => ?_
  obtain ⟨j, rfl, hj, _, ht⟩ := hd
  simp only [Tab.step] at hs
  obtain ⟨token, p, t, ended, _, hv, hp, hr⟩ := Tab.resume_inv hs
  obtain rfl := Option.some.inj (hj.symm.trans hv)
  obtain ⟨rfl, rfl⟩ | ⟨rfl, rfl⟩ := hr
  · simp [hp]
  · simp [Tab.confirmEnd_installed ht, hp]

theorem resume_isSome {j : Nat} {v : Verify} {p : Probe} {ended : Bool}
    (hv : s.verifies[j]? = some v) (ho : v.outcome = .waiting) (hp : s.probes[v.probe]? = some p)
    (ha : p.answer = .settled ended) : (s.step app (.resume j)).isSome := by
  obtain ⟨token, probe, outcome⟩ := v
  obtain ⟨t, answer⟩ := p
  simp only at ho hp ha
  subst ho ha
  simp [Tab.step, Tab.resume, hv, hp]

-- Every unattributed 401 that comes after OAM has ended the session of the installed token ends it
-- here too, exactly when the probe it was given, new or shared, is one that OAM answers with a 401.
theorem endsRevoked_iff_confirmedByProbe :
    EndsRevoked app s₀ es ↔ Run.EachStep (Tab.step app) s₀ (ConfirmedByProbe app s₀) es := by
  have hs : Run.EachStep (Tab.step app) s₀ (fun es s e s' =>
      ∀ v, Decides app s₀ es s e v → s'.terminating = true) es ↔
      Run.EachStep (Tab.step app) s₀ (ConfirmedByProbe app s₀) es :=
    Run.eachStep_congr fun _ _ _ _ _ _ _ hs => confirmedByProbe_iff hs
  rw [← hs]
  exact ⟨EndsRevoked.terminates, fun h => ⟨h, fun _ _ _ _ _ _ _ _ hv ho hp => resume_isSome hv ho hp⟩⟩

section Outage

-- The probe of the first 401 meets an outage of the network; by the second, OAM has ended the session.
def outageRun : List Event :=
  [.login "token", .send, .send, .unauthorized 0 .verify, .fail 0, .resume 0, .revoke "token",
    .unauthorized 1 .verify, .resume 1]

theorem outageRun_reaches : ∃ s, Reaches app₁ freshTab outageRun s :=
  ⟨_, Run.of_exec rfl⟩

theorem not_endsRevoked_outageRun :
    ¬∀ app localStorage sessionStorage location es s,
      Reaches app (.load localStorage sessionStorage location) es s →
      EndsRevoked app (.load localStorage sessionStorage location) es := by
  intro h
  obtain ⟨s, r⟩ := outageRun_reaches
  have h := (h _ _ _ _ _ _ r).terminates (outageRun.take 8) (.resume 1) [] _ _ rfl
    (Run.of_exec rfl) rfl _ ⟨1, rfl, rfl, ?_, by decide⟩
  case refine_1 =>
    refine ⟨outageRun.take 7, .unauthorized 1 .verify, [], _, rfl, Run.of_exec rfl, ?_⟩
    exact ⟨1, _, rfl, rfl, by decide, by decide, by decide, rfl⟩
  exact absurd h (by decide)

end Outage
end Session
