import Mathlib.Data.List.Perm.Subperm
import LoxilbUi.Snapshot.WizardLogic

-- The gate of the restore wizard.

namespace Snapshot

section SameSet

variable {a b : List String}

theorem sameSet_iff : sameSet a b = true ↔ a.length = b.length ∧ a ⊆ b := by
  simp only [sameSet, Bool.and_eq_true, decide_eq_true_eq, List.all_eq_true]
  exact Iff.rfl

-- As many names as there are, all among them, leave none out and repeat none.
theorem perm_of_covers (hb : b.Nodup) (hc : b ⊆ a) (hl : a.length ≤ b.length) : b.Perm a :=
  (List.subperm_of_subset hb hc).perm_of_length_le hl

theorem sameSet_iff_of_nodup (ha : a.Nodup) (hb : b.Nodup) :
    sameSet a b = true ↔ ∀ x, x ∈ a ↔ x ∈ b := by
  rw [sameSet_iff]
  constructor
  case mp =>
    rintro ⟨hl, hs⟩ x
    exact (perm_of_covers ha hs hl.ge).mem_iff
  case mpr =>
    intro h
    have hp := (List.perm_ext_iff_of_nodup ha hb).mpr h
    exact ⟨hp.length_eq, hp.subset⟩

-- What a comparison by length makes of a list that may repeat a name.
theorem sameSet_exact_iff (hb : b.Nodup) : (sameSet a b = true ↔ ∀ x, x ∈ a ↔ x ∈ b) ↔
    (a ⊆ b → a.Nodup ∨ a.length ≠ b.length ∧ ¬b ⊆ a) := by
  constructor
  case mp =>
    intro h hs
    refine or_iff_not_imp_left.mpr fun ha => ⟨fun hl => ?_, fun hc => ?_⟩
    · have hm := h.mp <| sameSet_iff.mpr ⟨hl, hs⟩
      have hp := perm_of_covers hb (fun x hx => (hm x).mpr hx) hl.le
      exact ha <| hp.nodup_iff.mp hb
    · obtain ⟨hl, _⟩ := sameSet_iff.mp <| h.mpr fun x => ⟨fun hx => hs hx, fun hx => hc hx⟩
      have hp := perm_of_covers hb hc hl.le
      exact ha <| hp.nodup_iff.mp hb
  case mpr =>
    intro h
    by_cases hs : a ⊆ b
    case neg =>
      exact iff_of_false (fun hc => hs (sameSet_iff.mp hc).right) fun hm => hs fun x => (hm x).mp
    case pos =>
      obtain ha | ⟨hl, hc⟩ := h hs
      · exact sameSet_iff_of_nodup ha hb
      · exact iff_of_false (fun h => hl (sameSet_iff.mp h).left) fun hm => hc fun x => (hm x).mpr

end SameSet

section Plan

variable {seen : List String} {plan : List JsValue} {item : JsValue} {d : String}

theorem addDomain_nodup (h : seen.Nodup) : (addDomain seen item).Nodup := by
  simp only [addDomain]
  split
  case h_2 => exact h
  case h_1 name _ =>
    split
    case isFalse   => exact h
    case isTrue hn =>
      simp only [Bool.and_eq_true, decide_eq_true_eq] at hn
      exact List.nodup_append.mpr ⟨h, by simp, fun x hx y hy he => hn.right <| by simp_all⟩

theorem mem_addDomain : d ∈ addDomain seen item ↔
    d ∈ seen ∨ item.get "domain" = .string d ∧ d ≠ "" := by
  simp only [addDomain]
  split
  case h_2 hn =>
    have : ∀ d, item.get "domain" ≠ .string d := hn
    simp [this]
  case h_1 name hi =>
    rw [hi, JsValue.string.injEq]
    split
    case isTrue hn =>
      simp only [Bool.and_eq_true, decide_eq_true_eq] at hn
      rw [List.mem_append, List.mem_singleton]
      refine or_congr_right ⟨?_, ?_⟩
      · rintro rfl
        exact ⟨rfl, hn.left⟩
      · exact fun h => h.left.symm
    case isFalse hn =>
      refine (or_iff_left_of_imp ?_).symm
      rintro ⟨rfl, he⟩
      simpa [he] using hn

theorem foldl_addDomain_nodup (h : seen.Nodup) : (plan.foldl addDomain seen).Nodup := by
  induction plan generalizing seen
  case nil             => exact h
  case cons item _ hi  => exact hi <| addDomain_nodup h

theorem mem_foldl_addDomain : d ∈ plan.foldl addDomain seen ↔
    d ∈ seen ∨ ∃ item ∈ plan, item.get "domain" = .string d ∧ d ≠ "" := by
  induction plan generalizing seen
  case nil            => simp
  case cons item _ hi => rw [List.foldl_cons, hi, mem_addDomain, or_assoc, List.exists_mem_cons_iff]

theorem planDomains_nodup {outcome : Option RestoreOutcome} : (planDomains outcome).Nodup := by
  simp only [planDomains]
  split
  case h_2 => exact List.nodup_nil
  case h_1 =>
    split
    · exact foldl_addDomain_nodup List.nodup_nil
    · exact List.nodup_nil

end Plan

variable {o : RestoreOutcome} {outcome : Option RestoreOutcome} {oamError : Option String}
variable {loading : Bool} {sent : Option (List String)} {body gw : JsValue} {d : String}

theorem asRestoreResult_inv (h : asRestoreResult body = some gw) : gw = body := by
  simp only [asRestoreResult] at h
  split at h <;> cases h <;> rfl

theorem asRestoreResult_dryRun (h : body.get "mode" = .string "dry-run") :
    asRestoreResult body = some body := by
  simp only [asRestoreResult, h]

theorem isPlan_iff {v : JsValue} : isPlan v = true ↔ ∃ plan, v = .array plan := by
  cases v <;> simp [isPlan]

theorem mem_planDomains (h : asRestoreResult o.gatewayResponse = some gw) :
    d ∈ planDomains (some o) ↔ o.Plans d := by
  obtain rfl := asRestoreResult_inv h
  simp only [planDomains, Option.bind_some, h, RestoreOutcome.Plans]
  split
  case h_1 plan hp =>
    rw [mem_foldl_addDomain]
    simp [hp]
  case h_2 hp =>
    have : ∀ plan, o.gatewayResponse.get "plan" ≠ .array plan := hp
    simp [this]

theorem pass_iff {answers : Bool} :
    (if answers then DryRunVerdict.pass else .otherDomains) = .pass ↔ answers = true := by
  cases answers <;> simp

theorem answersSelection_iff (hn : ∀ domains, sent = some domains → domains.Nodup)
    (hp : ∀ d, d ∈ planDomains (some o) ↔ o.Plans d) : answersSelection (some o) sent = true ↔
      (∀ domains, sent = some domains → ∀ d, o.Plans d ↔ d ∈ domains) ∧
      ∀ domains, sent = some domains → sameSet o.reported domains = true := by
  cases sent
  case none => simp [answersSelection]
  case some domains =>
    have hs := sameSet_iff_of_nodup (@planDomains_nodup <| some o) <| hn domains rfl
    simp only [hp] at hs
    simp only [answersSelection, Bool.and_eq_true, hs, Option.bind_some, Option.some.injEq,
      forall_eq', RestoreOutcome.reported, and_comm]

-- The gateway's half is all there is to the gate, but for the list that OAM reports.
theorem classifyDryRun_pass_iff (hn : ∀ domains, sent = some domains → domains.Nodup) :
    classifyDryRun (some o) none sent = .pass ↔
      o.Passes sent ∧ ∀ domains, sent = some domains → sameSet o.reported domains = true := by
  simp only [classifyDryRun]
  split
  case h_1 ha =>
    refine iff_of_false ?_ fun h => ?_
    · split
      · nofun
      · split <;> nofun
    · simp [asRestoreResult_dryRun h.left.mode] at ha
  case h_2 gw ha =>
    have hp d : d ∈ planDomains (some o) ↔ o.Plans d := mem_planDomains ha
    obtain rfl := asRestoreResult_inv ha
    split
    case isTrue hr =>
      refine iff_of_false nofun fun h => ?_
      simp [h.left.status, h.left.compatible, h.left.errors, JsValue.strictEq] at hr
    case isFalse hr =>
      simp only [Bool.or_eq_true, decide_eq_true_eq, not_or, not_not, Bool.not_eq_true] at hr
      obtain ⟨⟨hs, -⟩, he⟩ := hr
      split
      case isTrue hu =>
        refine iff_of_false nofun fun h => ?_
        obtain ⟨plan, hplan⟩ := h.left.plan
        simp [h.left.mode, h.left.compatible, h.left.result, hplan, JsValue.strictEq, isPlan] at hu
      case isFalse hu =>
        simp only [Bool.not_eq_true', Bool.not_eq_false, Bool.and_eq_true, isPlan_iff] at hu
        obtain ⟨⟨⟨hm, hc⟩, hr⟩, hplan⟩ := hu
        have hm := JsValue.strictEq_inv hm
        have hc := JsValue.strictEq_inv hc
        have hr := JsValue.strictEq_inv hr
        rw [pass_iff, answersSelection_iff hn hp]
        exact and_congr_left fun _ => ⟨fun hd => ⟨hs, hm, hc, hr, hplan, he, hd⟩, fun h => h.planned⟩

theorem canContinueToCommit_iff (hn : ∀ domains, sent = some domains → domains.Nodup) :
    canContinueToCommit outcome oamError loading sent = true ↔
      loading = false ∧ oamError = none ∧ ∃ o, outcome = some o ∧ o.Passes sent ∧
        ∀ domains, sent = some domains → sameSet o.reported domains = true := by
  simp only [canContinueToCommit, Bool.and_eq_true, Bool.not_eq_true', decide_eq_true_eq]
  refine and_congr_right fun _ => ?_
  cases oamError
  case some error => simp [classifyDryRun]
  case none =>
    cases outcome
    case none   => simp [classifyDryRun]
    case some o => simp [classifyDryRun_pass_iff hn]

-- The gate is exact just if the list that OAM reports counts out.
theorem gateOpen_iff_countsOut (hn : ∀ domains, sent = some domains → domains.Nodup) :
    (canContinueToCommit outcome oamError loading sent = true ↔
      GateOpen outcome oamError loading sent) ↔ CountsOut outcome oamError loading sent := by
  have hg : GateOpen outcome oamError loading sent ↔
      loading = false ∧ oamError = none ∧ ∃ o, outcome = some o ∧ o.Passes sent ∧
        ∀ domains, sent = some domains → ∀ d, d ∈ o.reported ↔ d ∈ domains :=
    ⟨fun ⟨h₁, h₂, h₃⟩ => ⟨h₁, h₂, h₃⟩, fun ⟨h₁, h₂, h₃⟩ => ⟨h₁, h₂, h₃⟩⟩
  rw [canContinueToCommit_iff hn, hg]
  constructor
  case mp =>
    rintro h o domains hl he rfl hp rfl
    refine sameSet_exact_iff (hn domains rfl) |>.mp ?_
    simpa [hl, he, hp] using h
  case mpr =>
    intro h
    refine and_congr_right fun hl => and_congr_right fun he => exists_congr fun o => ?_
    refine and_congr_right fun ho => and_congr_right fun hp => forall_congr' fun domains => ?_
    refine forall_congr' fun hs => sameSet_exact_iff (hn domains hs) |>.mpr ?_
    exact h o domains hl he ho hp hs

section Repeated

-- OAM reports one of two domains twice, and the gateway planned both.
def repeated : RestoreOutcome where
  gatewayStatus := 200
  gatewayResponse := .object [
    ("mode", .string "dry-run"), ("compatible", .bool true), ("result", .string "ok"),
    ("plan", .array [.object [("domain", .string "firewall")], .object [("domain", .string "auditsink")]]) ]
  components := some ["firewall", "firewall"]
  preRestoreSnapshotId := none

theorem gateOpen_iff_countsOut_repeated :
    (canContinueToCommit (some repeated) none false (some ["firewall", "auditsink"]) = true ↔
      GateOpen (some repeated) none false (some ["firewall", "auditsink"])) ↔
    CountsOut (some repeated) none false (some ["firewall", "auditsink"]) :=
  gateOpen_iff_countsOut <| by simp

theorem not_gateOpen_repeated : ¬∀ outcome oamError loading sent,
    (∀ domains, sent = some domains → domains.Nodup) →
      (canContinueToCommit outcome oamError loading sent = true ↔
        GateOpen outcome oamError loading sent) := by
  intro h
  have hc : canContinueToCommit (some repeated) none false (some ["firewall", "auditsink"]) = true := by
    decide
  obtain ⟨_, ho, _, hr⟩ := h _ _ _ _ (by simp) |>.mp hc |>.passed
  cases ho
  have := (hr _ rfl "auditsink").mpr <| by simp
  simp [RestoreOutcome.reported, repeated] at this

end Repeated

end Snapshot
