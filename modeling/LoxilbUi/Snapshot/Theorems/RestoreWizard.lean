import LoxilbUi.Snapshot.RestoreWizard

namespace Snapshot

variable {w w' : Wizard} {trail : List Entry} {e : Entry} {ev : Event} {es : List Event}
variable {sid : String} {cs : Option (List String)} {o : RestoreOutcome} {h h' : Hooks}

-- A render shows another target, which only the queued updates of an answer can bring, or the same.
theorem Wizard.render_cases {urgent : Bool} (h : w.render urgent = some w') :
    ∃ due, ((w.nextView urgent).hooks.target.ref ≠ w.view.hooks.target.ref ∧
      w' = { w with
        urgent := (w.nextView urgent).hooks
        view   := w.nextView urgent
        due
        trail  := w.trail ++ [.targeted (w.nextView urgent).hooks.target.snapshotId] }) ∨
    ((w.nextView urgent).hooks.target.ref = w.view.hooks.target.ref ∧
      w' = { w with urgent := (w.nextView urgent).hooks, view := w.nextView urgent, due }) := by
  simp only [Wizard.render] at h
  split at h <;> cases h
  by_cases hr : (w.nextView urgent).hooks.target.ref = w.view.hooks.target.ref
  case neg => exact ⟨true, .inl ⟨hr, by simp [hr]⟩⟩
  case pos => exact ⟨(w.nextView urgent).isOpen ≠ w.view.isOpen, .inr ⟨hr, by simp [hr]⟩⟩

section Logic

theorem canContinueToCommit_inv {outcome : Option RestoreOutcome} {error : Option String}
    {loading : Bool} (h : canContinueToCommit outcome error loading cs = true) :
    ∃ o, outcome = some o ∧ classifyDryRun (some o) none cs = .pass := by
  simp only [canContinueToCommit, Bool.and_eq_true, decide_eq_true_eq] at h
  obtain ⟨_, h⟩ := h
  cases error <;> cases outcome <;> simp_all [classifyDryRun]

theorem restoreSelection_some {domains checked components : List String}
    (h : restoreSelection domains checked = .some components) :
    components ≠ [] ∧ components ⊆ domains := by
  simp only [restoreSelection] at h
  split at h <;> try contradiction
  split at h <;> try contradiction
  split at h <;> try contradiction
  cases h
  exact ⟨‹_›, List.filter_subset_self ..⟩

end Logic

namespace View

variable {v : View} {components : List String} {p : PickedDryRun}

theorem components_inv (h : v.components = some components) :
    v.selection = .some components ∧ components ≠ [] ∧
      components ⊆ planDomains v.hooks.dryRunOutcome := by
  simp only [View.components] at h
  split at h <;> cases h
  case h_1 hs =>
    refine ⟨hs, (restoreSelection_some hs).left, fun d hd => ?_⟩
    have hd := (restoreSelection_some hs).right hd
    simp only [domains] at hd
    split at hd
    · exact hd
    · simp at hd

theorem pickedNow_inv (h : v.pickedNow = some p) :
    ∃ components, v.components = some components ∧ v.hooks.picked = some p ∧
      JsString.joinComma p.components = JsString.joinComma components := by
  simp only [pickedNow] at h
  split at h
  case h_1 components picked hc hp =>
    split at h <;> cases h
    exact ⟨_, hc, hp, ‹_›⟩
  case h_2 => contradiction

end View

section Trail

-- The snapshot is the one that became the target last.
def Current (trail : List Entry) (sid : String) : Prop :=
  ∃ before between, trail = before ++ .targeted sid :: between ∧ ∀ sid, .targeted sid ∉ between

-- Since then request `i`, a dry-run of it, has been sent.
def Sent (trail : List Entry) (sid : String) (cs : Option (List String)) (i : Nat) : Prop :=
  ∃ before between after,
    trail = before ++ .targeted sid :: (between ++ .dryRun i sid cs :: after) ∧
    ∀ sid, .targeted sid ∉ between ++ after

variable {i : Nat}

theorem current_targeted : Current (trail ++ [.targeted sid]) sid :=
  ⟨trail, [], by simp, by simp⟩

theorem Current.snoc (h : Current trail sid) (he : ∀ sid, e ≠ .targeted sid) :
    Current (trail ++ [e]) sid := by
  obtain ⟨before, between, rfl, hn⟩ := h
  exact ⟨before, between ++ [e], by simp, fun sid => by simpa [hn sid] using (he sid).symm⟩

theorem Current.sent (h : Current trail sid) : Sent (trail ++ [.dryRun i sid cs]) sid cs i := by
  obtain ⟨before, between, rfl, hn⟩ := h
  exact ⟨before, between, [], by simp, by simpa using hn⟩

theorem Sent.snoc (h : Sent trail sid cs i) (he : ∀ sid, e ≠ .targeted sid) :
    Sent (trail ++ [e]) sid cs i := by
  obtain ⟨before, between, after, rfl, hn⟩ := h
  refine ⟨before, between, after ++ [e], by simp, fun sid => ?_⟩
  rw [← List.append_assoc, List.mem_append, not_or]
  exact ⟨hn sid, by simpa using (he sid).symm⟩

theorem Sent.answered (h : Sent trail sid cs i) :
    DryRunAnswered (trail ++ [.answered i (.confirmed o)]) sid cs o := by
  obtain ⟨before, between, after, rfl, hn⟩ := h
  refine ⟨before, between, after ++ [.answered i (.confirmed o)], i, by simp, fun sid => ?_, by simp⟩
  rw [← List.append_assoc, List.mem_append, not_or]
  exact ⟨hn sid, by simp⟩

theorem DryRunAnswered.snoc (h : DryRunAnswered trail sid cs o) (he : ∀ sid, e ≠ .targeted sid) :
    DryRunAnswered (trail ++ [e]) sid cs o := by
  obtain ⟨before, between, after, i, rfl, hn, ha⟩ := h
  refine ⟨before, between, after ++ [e], i, by simp, fun sid => ?_, by simp [ha]⟩
  rw [← List.append_assoc, List.mem_append, not_or]
  exact ⟨hn sid, by simpa using (he sid).symm⟩

theorem DryRunAnswered.mem (h : DryRunAnswered trail sid cs o) : ∃ i, .dryRun i sid cs ∈ trail := by
  obtain ⟨_, _, _, i, rfl, _⟩ := h
  exact ⟨i, by simp⟩

end Trail

-- The answers that the hooks hold are answers to dry-runs of the target.
structure Backed (trail : List Entry) (sid : String) (h : Hooks) : Prop where
  whole  : ∀ o, h.dryRunOutcome = some o → DryRunAnswered trail sid none o
  picked : ∀ p o, h.picked = some p → p.outcome = some o →
    DryRunAnswered trail sid (some p.components) o

-- No domain that the hooks name has a comma, and a selection has a domain.
structure Plain (h : Hooks) : Prop where
  domains : ∀ o, h.dryRunOutcome = some o → ∀ d ∈ planDomains (some o), ',' ∉ d.toList
  picked  : ∀ p, h.picked = some p → p.components ≠ [] ∧ ∀ d ∈ p.components, ',' ∉ d.toList

-- What is known of hooks while a render shows the target `t`.
structure Held (trail : List Entry) (t : RestoreTarget) (h : Hooks) : Prop where
  backed : h.resetFor = some t.ref → Backed trail t.snapshotId h
  past   : ∀ ref, h.resetFor = some ref → ref ≤ t.ref
  plain  : Plain h

-- What the wizard may rely on when a request is answered.
def Expects (w : Wizard) (i : Nat) : Continuation → Prop
  | .whole run _       => run ≤ w.run ∧ (run = w.run →
      w.hooks.resetFor = some w.view.hooks.target.ref →
      Sent w.trail w.view.hooks.target.snapshotId none i)
  | .picked run _ mine => (run ≤ w.run ∧ (run = w.run →
      w.hooks.resetFor = some w.view.hooks.target.ref →
      Sent w.trail w.view.hooks.target.snapshotId (some mine) i)) ∧
      mine ≠ [] ∧ ∀ d ∈ mine, ',' ∉ d.toList
  | _                  => True

-- Only the render that shows a new target may hold answers that are not its own, and then it does
-- not offer anything.
structure Sound (w : Wizard) : Prop where
  current : Current w.trail w.view.hooks.target.snapshotId
  target  : w.view.hooks.target.ref ≤ w.hooks.target.ref ∧
    (w.hooks.target.ref = w.view.hooks.target.ref → w.hooks.target = w.view.hooks.target)
  same    : w.urgent.target = w.view.hooks.target
  hooks   : Held w.trail w.view.hooks.target w.hooks
  urgent  : Held w.trail w.view.hooks.target w.urgent
  seen    : Held w.trail w.view.hooks.target w.view.hooks
  offered : w.view.offers = true → w.view.hooks.resetFor = some w.view.hooks.target.ref
  waiting : ∀ i c, w.waiting[i]? = some (some c) → Expects w i c

theorem Backed.snoc (hb : Backed trail sid h) (he : ∀ sid, e ≠ .targeted sid) :
    Backed (trail ++ [e]) sid h where
  whole o ho       := (hb.whole o ho).snoc he
  picked p o hp ho := (hb.picked p o hp ho).snoc he

theorem Backed.congr (hb : Backed trail sid h) (ho : h'.dryRunOutcome = h.dryRunOutcome)
    (hp : h'.picked = h.picked) : Backed trail sid h' where
  whole := ho ▸ hb.whole
  picked := hp ▸ hb.picked

theorem Plain.congr (hn : Plain h) (ho : h'.dryRunOutcome = h.dryRunOutcome)
    (hp : h'.picked = h.picked) : Plain h' where
  domains := ho ▸ hn.domains
  picked  := hp ▸ hn.picked

theorem Held.snoc {t : RestoreTarget} (hh : Held trail t h) (he : ∀ sid, e ≠ .targeted sid) :
    Held (trail ++ [e]) t h where
  __        := hh
  backed hr := (hh.backed hr).snoc he

theorem Held.congr {t : RestoreTarget} (hh : Held trail t h) (ho : h'.dryRunOutcome = h.dryRunOutcome)
    (hp : h'.picked = h.picked) (hr : h'.resetFor = h.resetFor) : Held trail t h' where
  backed hr' := (hh.backed <| hr ▸ hr').congr ho hp
  past       := hr ▸ hh.past
  plain      := hh.plain.congr ho hp

-- What was reset for an earlier target is not taken for a later one.
theorem Held.later {trail' : List Entry} {t t' : RestoreTarget} (hh : Held trail t h)
    (ht : t.ref < t'.ref) : Held trail' t' h where
  backed hr   := absurd (hh.past _ hr) (by omega)
  past ref hr := Nat.le_trans (hh.past ref hr) (by omega)
  plain       := hh.plain

theorem Expects.snoc {i : Nat} {c : Continuation} (hx : Expects w i c)
    (he : ∀ sid, e ≠ .targeted sid) : Expects { w with trail := w.trail ++ [e] } i c := by
  cases c
  case whole  => exact ⟨hx.left, fun hr hf => (hx.right hr hf).snoc he⟩
  case picked => exact ⟨⟨hx.left.left, fun hr hf => (hx.left.right hr hf).snoc he⟩, hx.right⟩
  all_goals trivial

-- What is ticked in a render is named by a plan, so it has no comma either.
theorem Plain.components {v : View} {components : List String} (hn : Plain v.hooks)
    (hc : v.components = some components) :
    components ≠ [] ∧ ∀ d ∈ components, ',' ∉ d.toList := by
  obtain ⟨_, hne, hsub⟩ := View.components_inv hc
  refine ⟨hne, fun d hd => ?_⟩
  cases ho : v.hooks.dryRunOutcome
  case none =>
    simp only [ho, planDomains, Option.bind_none] at hsub
    exact absurd (List.subset_nil.mp hsub) hne
  case some o => exact hn.domains o ho d (ho ▸ hsub hd)

namespace Sound

theorem log (hs : Sound w) (he : ∀ sid, e ≠ .targeted sid) :
    Sound { w with trail := w.trail ++ [e] } where
  __            := hs
  current       := hs.current.snoc he
  hooks         := hs.hooks.snoc he
  urgent        := hs.urgent.snoc he
  seen          := hs.seen.snoc he
  waiting i c h := (hs.waiting i c h).snoc he

theorem await {c : Continuation} (hs : Sound w) (hx : Expects w w.waiting.length c) :
    Sound { w with waiting := w.waiting ++ [some c] } where
  __ := hs
  waiting i c' h := by
    rw [List.getElem?_append] at h
    split at h
    case isTrue => exact hs.waiting i c' h
    case isFalse hi =>
      obtain ⟨hl, h⟩ := List.getElem?_eq_some_iff.mp h
      obtain rfl : i = w.waiting.length := by simp at hl; omega
      simp only [Nat.sub_self, List.getElem_cons_zero, Option.some.injEq] at h
      exact h ▸ hx

theorem drop {i : Nat} (hs : Sound w) : Sound { w with waiting := w.waiting.set i none } where
  __ := hs
  waiting j c h := by
    rw [List.getElem?_set] at h
    split at h
    case isTrue => split at h <;> simp at h
    case isFalse => exact hs.waiting j c h

-- An answer changes the hooks, and leaves those that a click renders alone.
theorem rehook (hs : Sound w) (ht : h.target = w.hooks.target) (hr : h.resetFor = w.hooks.resetFor)
    (hh : Held w.trail w.view.hooks.target h) : Sound { w with hooks := h } where
  __     := hs
  target := by simpa only [ht] using hs.target
  hooks  := hh
  waiting i c hc := by
    have hx := hs.waiting i c hc
    simp only [Expects, hr] at hx ⊢
    exact hx

-- What no answer is judged by may change at will.
theorem rehook_same (hs : Sound w) (ht : h.target = w.hooks.target)
    (hr : h.resetFor = w.hooks.resetFor) (ho : h.dryRunOutcome = w.hooks.dryRunOutcome)
    (hp : h.picked = w.hooks.picked) : Sound { w with hooks := h } :=
  hs.rehook ht hr <| hs.hooks.congr ho hp hr

theorem set {update : Hooks → Hooks} (hs : Sound w) (ht : ∀ h, (update h).target = h.target)
    (hr : ∀ h, (update h).resetFor = h.resetFor)
    (hh : ∀ h, Held w.trail w.view.hooks.target h → Held w.trail w.view.hooks.target (update h)) :
    Sound (w.set update) where
  __      := hs.rehook (ht _) (hr _) (hh _ hs.hooks)
  same    := (ht _).trans hs.same
  urgent  := hh _ hs.urgent

theorem set_same {f : Hooks → Hooks} (hs : Sound w) (ht : ∀ h, (f h).target = h.target)
    (hr : ∀ h, (f h).resetFor = h.resetFor)
    (ho : ∀ h, (f h).dryRunOutcome = h.dryRunOutcome)
    (hp : ∀ h, (f h).picked = h.picked) : Sound (w.set f) :=
  hs.set ht hr fun h hh => hh.congr (ho h) (hp h) (hr h)

theorem flags (hs : Sound w) (committed commitInFlight isOpen : Bool) :
    Sound { w with committed, commitInFlight, isOpen } where
  __ := hs

theorem pickedDryRun (hs : Sound w) : Sound w.handlePickedDryRun := by
  simp only [Wizard.handlePickedDryRun]
  split
  case h_1 => exact hs
  case h_2 components hc =>
    split
    case isTrue => exact hs
    case isFalse =>
      obtain ⟨hn, hplain⟩ := hs.seen.plain.components hc
      simp only [Wizard.request, Option.some.injEq, hn, if_false]
      let picked : PickedDryRun := {
        ref := w.view.ref, components, loading := true, outcome := none, error := none }
      have hs' : Sound (w.set fun h => { h with picked := some picked }) := by
        refine hs.set (fun _ => rfl) (fun _ => rfl) fun h hh => ⟨fun hr => ⟨(hh.backed hr).whole, ?_⟩,
          hh.past, hh.plain.domains, ?_⟩
        · rintro p o ⟨⟩ ho
          contradiction
        · rintro p ⟨⟩
          exact ⟨hn, hplain⟩
      have hx := hs'.log (e := .dryRun w.waiting.length w.view.hooks.target.snapshotId
        (some components)) (by simp)
      exact hx.await ⟨⟨Nat.le_refl _, fun _ _ => hs.current.sent⟩, hn, hplain⟩

theorem commit (hs : Sound w) : Sound w.handleCommit := by
  simp only [Wizard.handleCommit]
  split
  case isTrue => exact hs
  case isFalse =>
    simp only [Wizard.request]
    have hs' := (hs.flags true true w.isOpen).set_same
      (f := fun h => { h with step := .committing, sent := w.view.components })
      (fun _ => rfl) (fun _ => rfl) (fun _ => rfl) (fun _ => rfl)
    split
    case isTrue  => exact hs'.await trivial
    case isFalse => exact (hs'.log (by simp)).await trivial

theorem undo (hs : Sound w) : Sound w.handleUndo := by
  have hs' := hs.set_same (f := fun h => { h with undoLoading := true, undoError := none })
    (fun _ => rfl) (fun _ => rfl) (fun _ => rfl) (fun _ => rfl)
  exact hs'.await (c := .undo w.view.hooks.sent) trivial

-- The continuation runs once its answer is in the trail.
theorem receive {i : Nat} {c : Continuation} {res : RestoreCallResult} (hs : Sound w)
    (hx : Expects w i c) (hf : (Event.answer i res).CommaFree) :
    Sound ({ w with
      waiting := w.waiting.set i none
      trail   := w.trail ++ [Entry.answered i res] }.receive c res) := by
  have hs' := (hs.log (e := .answered i res) (by simp)).drop (i := i)
  cases c <;> simp only [Wizard.receive]
  case whole run wanted =>
    split
    case isTrue => exact hs'
    case isFalse hr =>
      rw [not_not] at hr
      cases res <;> simp only
      case confirmed o =>
        refine hs'.rehook rfl rfl ⟨fun hf => ⟨?_, (hs'.hooks.backed hf).picked⟩, hs'.hooks.past, ?_,
          hs'.hooks.plain.picked⟩
        · rintro o' ⟨⟩
          exact (hx.right hr hf).answered
        · rintro o' ⟨⟩
          exact hf
      case refused => exact hs'.rehook_same rfl rfl rfl rfl
  case picked run ref mine =>
    split
    case isTrue => exact hs'
    case isFalse hr =>
      rw [not_not] at hr
      obtain ⟨⟨_, hsent⟩, hmine⟩ := hx
      split
      case isFalse => exact hs'.rehook_same rfl rfl rfl rfl
      case isTrue =>
        cases res <;>
          refine hs'.rehook rfl rfl ⟨fun hf => ⟨(hs'.hooks.backed hf).whole, ?_⟩, hs'.hooks.past,
            hs'.hooks.plain.domains, ?_⟩
        case confirmed.refine_1 o =>
          rintro p o' ⟨⟩ ⟨⟩
          exact (hsent hr hf).answered
        case refused.refine_1 =>
          rintro p o' ⟨⟩ ⟨⟩
        all_goals
          rintro p ⟨⟩
          exact hmine
  case commit run =>
    split
    case isTrue => exact hs'
    case isFalse =>
      cases res <;> exact hs'.rehook_same rfl rfl rfl rfl
  case undo => exact hs'

theorem answer {i : Nat} {res : RestoreCallResult} (hs : Sound w)
    (hf : (Event.answer i res).CommaFree) (h : w.answer i res = some w') : Sound w' := by
  simp only [Wizard.answer] at h
  split at h <;> cases h
  case h_4 c _ hc => exact hs.receive (hs.waiting i c hc) hf

theorem undoAnswer {i : Nat} {res : Except String String} (hs : Sound w)
    (h : w.undoAnswer i res = some w') : Sound w' := by
  simp only [Wizard.undoAnswer] at h
  split at h
  case h_1 sent hi =>
    have hs' := (hs.drop (i := i)).rehook_same
      (h := { w.hooks with undoLoading := false }) rfl rfl rfl rfl
    split at h
    case h_1 snapshotId =>
      split at h <;> cases h
      case isTrue => exact hs'.rehook_same rfl rfl rfl rfl
      case isFalse =>
        have hl := hs.target.left
        exact { hs' with
          target := ⟨by simp only; omega, fun h => by simp only at h; omega⟩
          hooks  := hs'.hooks.congr rfl rfl rfl }
    case h_2 => cases h; exact hs'.rehook_same rfl rfl rfl rfl
  case h_2 => contradiction

-- A continuation that was there before the effect ran cannot take its answer for a new one.
theorem expects_of_past {i : Nat} {c : Continuation} (hx : Expects w i c)
    (hr : w'.run = w.run + 1) : Expects w' i c := by
  cases c
  case whole r _ =>
    have hr' := hx.left
    exact ⟨by omega, fun h => by omega⟩
  case picked r _ _ =>
    have hr' := hx.left.left
    exact ⟨⟨by omega, fun h => by omega⟩, hx.right⟩
  all_goals trivial

theorem runEffect (hs : Sound w) : Sound w.runEffect := by
  have hs' : Sound { w with due := false, run := w.run + 1 } := {
    hs with waiting i c h := expects_of_past (hs.waiting i c h) rfl }
  simp only [Wizard.runEffect]
  split
  case isTrue => exact hs'
  case isFalse =>
    have hw : Sound { w with
        due            := false
        run            := w.run + 1
        hooks          := Wizard.resetHooks w.view.hooks.target w.hooks
        commitInFlight := false
        trail          := w.trail ++ [.reset] } := { hs'.log (e := .reset) (by simp) with
      target        := hs.target
      hooks         := ⟨fun _ => ⟨nofun, nofun⟩, by rintro _ ⟨⟩; exact Nat.le_refl _, nofun, nofun⟩
      waiting i c h := expects_of_past (hs.waiting i c h) rfl }
    have hs' := hw.log (e := .dryRun w.waiting.length w.view.hooks.target.snapshotId none) (by simp)
    exact hs'.await (c := .whole (w.run + 1) (w.view.hooks.target.undo.bind id))
      ⟨Nat.le_refl _, fun _ _ => hw.current.sent⟩

-- Where the render lets the operator go on, what it shows was reset for its target, so the answers
-- it goes by are answers to dry-runs of it.
theorem render {urgent : Bool} (hs : Sound w) (ho : w.OffersReset (.render urgent) = true)
    (h : w.render urgent = some w') : Sound w' := by
  have hv : (w.nextView urgent).offers = true →
      (w.nextView urgent).hooks.resetFor = some (w.nextView urgent).hooks.target.ref := by
    intro hv
    simpa [Wizard.OffersReset, hv] using ho
  have hheld : Held w.trail w.view.hooks.target (w.nextView urgent).hooks := by
    cases urgent
    case false => exact hs.hooks
    case true  => exact hs.urgent
  obtain ⟨due, ⟨hr, rfl⟩ | ⟨hr, rfl⟩⟩ := Wizard.render_cases h
  case inl =>
    cases urgent
    case true => exact absurd (congrArg RestoreTarget.ref hs.same) hr
    case false =>
      have hlt : w.view.hooks.target.ref < w.hooks.target.ref :=
        Nat.lt_of_le_of_ne hs.target.left (Ne.symm hr)
      have hlater {trail} : Held trail w.hooks.target w.hooks := hs.hooks.later hlt
      exact {
        current := current_targeted
        target  := ⟨Nat.le_refl _, fun _ => rfl⟩
        same    := rfl
        hooks   := hlater
        urgent  := hlater
        seen    := hlater
        offered := hv
        waiting := by
          intro i c hc
          have hx := hs.waiting i c hc
          have hn : w.hooks.resetFor ≠ some w.hooks.target.ref := fun h =>
            absurd (hs.hooks.past _ h) (by omega)
          cases c
          case whole  => exact ⟨hx.left, fun _ h => absurd h hn⟩
          case picked => exact ⟨⟨hx.left.left, fun _ h => absurd h hn⟩, hx.right⟩
          all_goals trivial }
  case inr =>
    have ht : (w.nextView urgent).hooks.target = w.view.hooks.target := by
      cases urgent
      case false => exact hs.target.right hr
      case true  => exact hs.same
    exact {
      current := ht ▸ hs.current
      target  := by simpa only [ht] using hs.target
      same    := rfl
      hooks   := by simpa only [ht] using hs.hooks
      urgent  := by simpa only [ht] using hheld
      seen    := by simpa only [ht] using hheld
      offered := hv
      waiting := by
        intro i c hc
        have hx := hs.waiting i c hc
        simp only [Expects, ht] at hx ⊢
        exact hx }

theorem mount {instanceName : String} {isOpen : Bool} :
    Sound (.mount instanceName sid isOpen) := by
  have hh {trail t} : Held trail t (Wizard.mount instanceName sid isOpen).hooks :=
    ⟨nofun, nofun, nofun, nofun⟩
  exact {
    current := ⟨[], [], rfl, by simp⟩
    target  := ⟨Nat.le_refl _, fun _ => rfl⟩
    same    := rfl
    hooks   := hh
    urgent  := hh
    seen    := hh
    offered := by
      intro h
      simp [View.offers, View.canContinue, View.selection, View.domains, View.fullPass,
        restoreSelection, Wizard.mount, canContinueToCommit, classifyDryRun] at h
    waiting := by simp [Wizard.mount] }

theorem step (hs : Sound w) (hf : ev.CommaFree) (ho : w.OffersReset ev = true)
    (h : w.step ev = some w') : Sound w' := by
  simp only [Wizard.step] at h
  split at h
  case isTrue => contradiction
  case isFalse =>
    cases ev <;> simp only [Option.some.injEq] at h
    case answer     => exact hs.answer hf h
    case undoAnswer => exact hs.undoAnswer h
    case render     => exact hs.render ho h
    case effects =>
      split at h <;> cases h
      exact hs.runEffect
    all_goals subst h
    case toggle | selectAll | toConfirm | confirmText =>
      exact hs.set_same (fun _ => rfl) (fun _ => rfl) (fun _ => rfl) (fun _ => rfl)
    case pickedDryRun => exact hs.pickedDryRun
    case commit       => exact hs.commit
    case undo         => exact hs.undo
    case setOpen      => exact hs.flags w.committed w.commitInFlight _

-- What a rendered wizard lets the operator commit has passed its own dry-run.
theorem enabled_verified (hs : Sound w) (hv : w.view.offers = true) :
    ∃ o, w.view.judged = some o ∧
      Verified w.trail w.view.hooks.target.snapshotId w.view.components o := by
  have hb := hs.seen.backed <| hs.offered hv
  simp only [View.offers, Bool.and_eq_true] at hv
  have hc := hv.right
  simp only [View.canContinue] at hc
  split at hc
  case isTrue ha =>
    obtain ⟨o, ho, hp⟩ := canContinueToCommit_inv hc
    have hcs : w.view.components = none := by simp [View.components, ha]
    exact ⟨o, by simp [View.judged, ha, ho], hcs ▸ hb.whole o ho, hcs ▸ hp⟩
  case isFalse ha =>
    cases hp : w.view.pickedNow
    case none => simp [hp] at hc
    case some p =>
      obtain ⟨o, ho, hpass⟩ := canContinueToCommit_inv <| by simpa only [hp, Option.any_some] using hc
      obtain ⟨cs, hcs, hpicked, hj⟩ := View.pickedNow_inv hp
      obtain ⟨hn, hplain⟩ := hs.seen.plain.components hcs
      obtain ⟨hpn, hpc⟩ := hs.seen.plain.picked p hpicked
      obtain rfl : p.components = cs := JsString.joinComma_inj hpn hn hpc hplain hj
      refine ⟨o, by simp [View.judged, ha, hp, ho], ?_, hcs ▸ hpass⟩
      exact hcs ▸ hb.picked p o hpicked ho

end Sound

-- How many commits a trail holds since the last reset.
def sinceReset (trail : List Entry) : Nat :=
  trail.foldl (fun n e => match e with | .reset => 0 | .commit .. => n + 1 | _ => n) 0

theorem sinceReset_append {between : List Entry} (h : .reset ∉ between) :
    sinceReset (trail ++ between) = sinceReset trail + between.countP Entry.isCommit := by
  induction between using List.reverseRecOn
  case nil => simp
  case append_singleton es e hi =>
    simp only [List.mem_append, List.mem_singleton, not_or] at h
    rw [← List.append_assoc]
    cases e <;> simp_all [sinceReset, Entry.isCommit]
    all_goals omega

-- What the trail has kept to so far.
structure Kept (w : Wizard) : Prop where
  verified : ∀ before sid cs after, w.trail = before ++ .commit sid cs :: after →
    ∃ o, Verified before sid cs o
  nonempty : ∀ sid, .commit sid (some []) ∉ w.trail
  once     : ∀ before, before <+: w.trail → sinceReset before ≤ 1
  inFlight : sinceReset w.trail ≤ if w.commitInFlight then 1 else 0

namespace Kept

theorem congr (hk : Kept w) (ht : w'.trail = w.trail) (hc : w'.commitInFlight = w.commitInFlight) :
    Kept w' := by
  refine ⟨?_, ?_, ?_, ?_⟩ <;> simp only [ht, hc]
  exacts [hk.verified, hk.nonempty, hk.once, hk.inFlight]

-- The trail grows by something that is no commit, and by a reset when the flag is lifted.
theorem log (hk : Kept w) (ht : w'.trail = w.trail ++ [e]) (he : e.isCommit = false)
    (hc : w'.commitInFlight = w.commitInFlight ∨ e = .reset) : Kept w' := by
  have hcount : sinceReset (w.trail ++ [e]) ≤ sinceReset w.trail := by
    cases e <;> simp_all [sinceReset, Entry.isCommit]
  have hflag : sinceReset (w.trail ++ [e]) ≤ if w'.commitInFlight then 1 else 0 := by
    obtain hc | rfl := hc
    · exact hc ▸ Nat.le_trans hcount hk.inFlight
    · simp [sinceReset]
  refine ⟨?_, ?_, ?_, ht ▸ hflag⟩ <;> rw [ht]
  · intro before sid cs after h
    obtain ⟨_, rfl, _⟩ | ⟨after, _, h⟩ := Run.snoc_eq_append_cons h
    · simp [Entry.isCommit] at he
    · exact hk.verified _ _ _ _ h
  · intro sid h
    obtain h | h := List.mem_append.mp h
    · exact hk.nonempty sid h
    · obtain rfl := List.mem_singleton.mp h
      simp [Entry.isCommit] at he
  · intro before h
    obtain rfl | h := List.prefix_concat_iff.mp h
    · exact Nat.le_trans hflag (by split <;> decide)
    · exact hk.once before h

theorem answer {i : Nat} {res : RestoreCallResult} (hk : Kept w) (h : w.answer i res = some w') :
    Kept w' := by
  simp only [Wizard.answer] at h
  split at h <;> cases h
  case h_4 c _ hc =>
    have hk' : Kept { w with
        waiting := w.waiting.set i none
        trail   := w.trail ++ [.answered i res] } := hk.log rfl rfl (.inl rfl)
    cases c <;> simp only [Wizard.receive]
    case undo => exact hk'
    all_goals
      split
      case isTrue  => exact hk'
      case isFalse => cases res <;> exact hk'.congr rfl rfl

theorem undoAnswer {i : Nat} {res : Except String String} (hk : Kept w)
    (h : w.undoAnswer i res = some w') : Kept w' := by
  simp only [Wizard.undoAnswer] at h
  split at h
  case h_1 =>
    split at h
    case h_1 => split at h <;> cases h <;> exact hk.congr rfl rfl
    case h_2 => cases h; exact hk.congr rfl rfl
  case h_2 => contradiction

theorem runEffect (hk : Kept w) : Kept w.runEffect := by
  simp only [Wizard.runEffect]
  split
  case isTrue => exact hk.congr rfl rfl
  case isFalse =>
    have hk' : Kept { w with commitInFlight := false, trail := w.trail ++ [.reset] } :=
      hk.log rfl rfl (.inr rfl)
    exact hk'.log (e := .dryRun w.waiting.length w.view.hooks.target.snapshotId none) rfl rfl
      (.inl rfl)

theorem render {urgent : Bool} (hk : Kept w) (h : w.render urgent = some w') : Kept w' := by
  obtain ⟨_, ⟨_, rfl⟩ | ⟨_, rfl⟩⟩ := Wizard.render_cases h
  case inl => exact hk.log rfl rfl (.inl rfl)
  case inr => exact hk.congr rfl rfl

theorem pickedDryRun (hk : Kept w) : Kept w.handlePickedDryRun := by
  simp only [Wizard.handlePickedDryRun]
  split
  case h_1 => exact hk
  case h_2 components _ =>
    split
    case isTrue => exact hk
    case isFalse =>
      simp only [Wizard.request]
      split
      case isTrue  => exact hk.congr rfl rfl
      case isFalse =>
        exact hk.log (e := .dryRun w.waiting.length w.view.hooks.target.snapshotId
          (some components)) rfl rfl (.inl rfl)

-- A commit goes out once since the reset, for what the wizard has verified.
theorem commit (hk : Kept w) (hs : Sound w) (hv : w.shows .commit = true) : Kept w.handleCommit := by
  simp only [Wizard.handleCommit]
  split
  case isTrue => exact hk
  case isFalse h =>
    simp only [Bool.or_eq_true, decide_eq_true_eq, Bool.not_eq_true', not_or, Bool.not_eq_true,
      Bool.not_eq_false] at h
    obtain ⟨⟨hid, hf⟩, hc⟩ := h
    have hv : w.view.offers = true := by
      simp only [Wizard.shows, Bool.and_eq_true] at hv
      simp [View.offers, hv, hid]
    obtain ⟨o, _, hv⟩ := hs.enabled_verified hv
    have hcs : w.view.components ≠ some [] := fun h => (hs.seen.plain.components h).left rfl
    have hz : sinceReset w.trail = 0 := by simpa [hf] using hk.inFlight
    have hone : sinceReset (w.trail ++ [.commit w.view.hooks.target.snapshotId w.view.components]) ≤ 1 := by
      rw [sinceReset_append (by simp), hz]
      simp [Entry.isCommit]
    simp only [Wizard.request, Wizard.set, hcs, if_false]
    refine ⟨?_, ?_, ?_, hone⟩
    · intro before sid cs after h
      obtain ⟨rfl, h, _⟩ | ⟨after, _, h⟩ := Run.snoc_eq_append_cons h
      · obtain ⟨rfl, rfl⟩ := Entry.commit.inj h
        exact ⟨o, hv⟩
      · exact hk.verified _ _ _ _ h
    · intro sid h
      obtain h | h := List.mem_append.mp h
      · exact hk.nonempty sid h
      · obtain ⟨_, h⟩ := Entry.commit.inj <| List.mem_singleton.mp h
        exact hcs h.symm
    · intro before h
      obtain rfl | h := List.prefix_concat_iff.mp h
      · exact hone
      · exact hk.once before h

theorem mount {instanceName : String} {isOpen : Bool} : Kept (.mount instanceName sid isOpen) := by
  have hk : Kept { Wizard.mount instanceName sid isOpen with trail := [] } :=
    ⟨by simp, by simp, by simp [sinceReset], by simp [sinceReset]⟩
  exact hk.log (e := .targeted sid) rfl rfl (.inl rfl)

theorem step (hk : Kept w) (hs : Sound w) (h : w.step ev = some w') : Kept w' := by
  simp only [Wizard.step] at h
  split at h
  case isTrue => contradiction
  case isFalse hshow =>
    cases ev <;> simp only [Option.some.injEq] at h
    case answer     => exact hk.answer h
    case undoAnswer => exact hk.undoAnswer h
    case render     => exact hk.render h
    case effects =>
      split at h <;> cases h
      exact hk.runEffect
    all_goals subst h
    case pickedDryRun => exact hk.pickedDryRun
    case commit       => exact hk.commit hs <| by simpa using hshow
    all_goals exact hk.congr rfl rfl

end Kept

theorem protocol_of_sound (hs : Sound w) (hk : Kept w) : Protocol w where
  commit_verified  := hk.verified
  commit_nonempty  := hk.nonempty
  enabled_verified := hs.enabled_verified
  commit_once before between after h hn := by
    have h := hk.once (before ++ between) (h ▸ List.prefix_append ..)
    rw [sinceReset_append hn] at h
    omega

-- Whatever the order of clicks, answers, renders and effects, a wizard sends a commit only for what
-- it has verified, and once, as long as no render lets the operator go on with what was reset for an
-- earlier target.
theorem protocol_of_offersReset {instanceName : String} {isOpen : Bool}
    (r : Run Wizard.step (.mount instanceName sid isOpen) es w) (hf : ∀ ev ∈ es, ev.CommaFree)
    (a : Run.Along Wizard.step (.mount instanceName sid isOpen) (fun w ev => w.OffersReset ev = true) es) :
    Protocol w := by
  suffices h : Sound w ∧ Kept w from protocol_of_sound h.left h.right
  induction r
  case nil => exact ⟨.mount, .mount⟩
  case snoc r h hi =>
    have ⟨a, ho⟩ := (Run.along_snoc_iff r).mp a
    have ⟨hs, hk⟩ := hi (fun ev he => hf ev <| by simp [he]) a
    exact ⟨hs.step (hf _ <| by simp) ho h, hk.step hs h⟩

section Nightly

-- The gateway's answer to a dry-run of two domains that may be restored.
def passed : RestoreOutcome where
  gatewayStatus        := 200
  gatewayResponse      := .object [
    ("mode", .string "dry-run"), ("compatible", .bool true), ("result", .string "ok"),
    ("plan", .array [.object [("domain", .string "firewall")], .object [("domain", .string "policer")]])]
  components           := some ["policer"]
  preRestoreSnapshotId := none

def narrowed : RestoreOutcome :=
  { passed with gatewayResponse := .object [
      ("mode", .string "dry-run"), ("compatible", .bool true), ("result", .string "ok"),
      ("plan", .array [.object [("domain", .string "policer")]])] }

-- Its answer to the commit, which may be undone.
def restored : RestoreOutcome where
  gatewayStatus        := 200
  gatewayResponse      := .object [
    ("mode", .string "commit"), ("result", .string "ok"), ("persisted", .bool true)]
  components           := some ["policer"]
  preRestoreSnapshotId := some "before"

def Entry.isCommitOf (id : String) : Entry → Bool
  | commit snapshotId _ => snapshotId = id
  | _                   => false

def Entry.isDryRunOf (id : String) : Entry → Bool
  | dryRun _ snapshotId _ => snapshotId = id
  | _                     => false

-- The effect of a render, and a dry-run of the whole document that passes.
def verify (request : Nat) : List Event :=
  [.effects, .render false, .answer request (.confirmed passed), .render false]

def verifyPicked (request : Nat) : List Event :=
  [.pickedDryRun, .render true, .answer request (.confirmed narrowed), .render false]

def confirm : List Event :=
  [.toConfirm, .render true, .confirmText "gw-1", .render true]

def restore (request : Nat) : List Event :=
  [.commit, .render true, .answer request (.confirmed restored), .render false]

-- A domain is restored, and the restore undone.
def nightlyRun : List Event :=
  verify 0 ++ [.toggle "firewall", .render true] ++ verifyPicked 1 ++ confirm ++ restore 2 ++
    [.undo, .render true, .undoAnswer 3 (.ok "before"), .render false] ++
    verify 4 ++ verifyPicked 5 ++ confirm ++ restore 6

-- What is to be undone is read only once the wizard was closed, opened again, and has verified the
-- nightly snapshot anew: the render that follows has both the other target and the confirmed dialog.
def lateUndoRun : List Event :=
  verify 0 ++ confirm ++ restore 1 ++
    [.undo, .setOpen false, .render true, .effects, .setOpen true, .render true] ++
    verify 3 ++ confirm ++ [.undoAnswer 2 (.ok "before"), .render false, .commit]

variable {request : Nat}

theorem commaFree_passed : (Event.answer request (.confirmed passed)).CommaFree := by
  have h : planDomains (some passed) = ["firewall", "policer"] := rfl
  simp [Event.CommaFree, h]

theorem commaFree_narrowed : (Event.answer request (.confirmed narrowed)).CommaFree := by
  have h : planDomains (some narrowed) = ["policer"] := rfl
  simp [Event.CommaFree, h]

theorem commaFree_restored : (Event.answer request (.confirmed restored)).CommaFree := by
  have h : planDomains (some restored) = [] := rfl
  simp [Event.CommaFree, h]

theorem nightlyRun_checked : (Run.exec Wizard.step (.mount "gw-1" "nightly" true) nightlyRun).any
      (·.trail.countP Entry.isCommit = 2) = true ∧
    Run.check Wizard.step Wizard.OffersReset (.mount "gw-1" "nightly" true) nightlyRun = true := by
  decide +kernel

theorem protocol_of_offersReset_nightlyRun : ∃ w,
    Run Wizard.step (.mount "gw-1" "nightly" true) nightlyRun w ∧
    w.trail.countP Entry.isCommit = 2 ∧ Protocol w := by
  obtain ⟨w, h, hc⟩ := (Option.any_eq_true _ _).mp nightlyRun_checked.left
  have r := Run.of_exec h
  refine ⟨w, r, by simpa using hc,
    protocol_of_offersReset r ?_ <| Run.along_of_check nightlyRun_checked.right⟩
  simp only [nightlyRun, verify, verifyPicked, confirm, restore, List.forall_mem_append,
    List.forall_mem_cons, commaFree_passed, commaFree_narrowed, commaFree_restored]
  simp [Event.CommaFree]

theorem commaFree_lateUndoRun : ∀ ev ∈ lateUndoRun, ev.CommaFree := by
  simp only [lateUndoRun, verify, confirm, restore, List.forall_mem_append, List.forall_mem_cons,
    commaFree_passed, commaFree_restored]
  simp [Event.CommaFree]

theorem lateUndoRun_commits : (Run.exec Wizard.step (.mount "gw-1" "nightly" true) lateUndoRun).any
    (fun w => w.trail.any (Entry.isCommitOf "before") && !w.trail.any (Entry.isDryRunOf "before")) =
      true := by
  decide +kernel

-- The snapshot of the undo is committed, and no dry-run of it was ever sent.
theorem not_protocol_lateUndoRun : ∃ w, Run Wizard.step (.mount "gw-1" "nightly" true) lateUndoRun w ∧
    (∀ ev ∈ lateUndoRun, ev.CommaFree) ∧ ¬Protocol w := by
  obtain ⟨w, h, hc⟩ := (Option.any_eq_true _ _).mp lateUndoRun_commits
  simp only [Bool.and_eq_true, List.any_eq_true, Bool.not_eq_true', List.any_eq_false] at hc
  obtain ⟨⟨e, he, hce⟩, hn⟩ := hc
  refine ⟨w, Run.of_exec h, commaFree_lateUndoRun, fun hp => ?_⟩
  obtain ⟨before, after, ht⟩ := List.append_of_mem he
  cases e <;> simp only [Entry.isCommitOf, decide_eq_true_eq] at hce <;> try contradiction
  case commit id cs =>
    obtain ⟨o, hv⟩ := hp.commit_verified before id cs after ht
    obtain ⟨i, hi⟩ := hv.left.mem
    exact hn _ (ht ▸ List.mem_append_left _ hi) (by simp [Entry.isDryRunOf, hce])

end Nightly
end Snapshot
