import LoxilbUi.Hooks.Reconcile

namespace Reconcile

variable {T : Type}

-- The four ways a call continues: without a predicate, with one, and after a sleep on either side
-- of an abort.
inductive Chain.Resumes (c : Chain T) : Chain T → Prop
  | accepted {l ds} : c.await = .read l ds → c.spec.confirm = none →
      Resumes c { c with await := .resolved .confirmed }
  | polled {l ds f} : c.await = .read l ds → c.spec.confirm = some f →
      Resumes c { c with await := poll f c.aborted l ds }
  | stopped {ds} : c.await = .slept ds → c.aborted = true →
      Resumes c { c with await := .resolved .pending }
  | retried {ds} : c.await = .slept ds → c.aborted = false →
      Resumes c { c with await := .reading ds }

-- What one event does to call `i`, once it has been made.
inductive ChainStep (s : Reconciler T) (e : Event T) (i : Nat) (c : Chain T) : Chain T → Prop
  | kept           : (e.Abandons → s.controllerRef ≠ some i) → ChainStep s e i c c
  | aborted        : e.Abandons → s.controllerRef = some i → ChainStep s e i c c.abort
  | settled {r c'} : e = .settle i r → c.settle r = some c' → ChainStep s e i c c'
  | fired {c'}     : e = .fire i → c.fire = some c' → ChainStep s e i c c'
  | resumed {c'}   : e = .resume i → c.Resumes c' → ChainStep s e i c c'

variable {s s' : Reconciler T} {e : Event T} {es : List (Event T)} {c c' : Chain T}
variable {i : Nat} {o : ReconcileOutcome} {f : T → Bool} {a : Bool} {l : Option T} {ds : List Nat}

theorem poll_aborted : poll f true l ds = .resolved .pending := by
  cases ds <;> simp [poll]

theorem poll_confirmed (h : poll f a l ds = .resolved .confirmed) : confirms f l = true := by
  cases ds <;> simp only [poll, sleep] at h <;> split at h <;> (try split at h) <;> simp_all

theorem poll_not_read {l' : Option T} {ds' : List Nat} : poll f a l ds ≠ .read l' ds' := by
  intro h
  cases ds <;> simp only [poll, sleep] at h <;> split at h <;> (try split at h) <;> simp_all

namespace Chain

theorem settle_inv {r : Settlement T} (h : c.settle r = some c') :
    ∃ ds, c.await = .reading ds ∧ c' = { c with await := .read r.read ds } := by
  simp only [settle] at h
  split at h
  · exact ⟨_, ‹_›, (Option.some.inj h).symm⟩
  · contradiction

theorem fire_inv (h : c.fire = some c') :
    ∃ d ds, c.await = .sleeping d ds ∧ c' = { c with await := .slept ds } := by
  simp only [fire] at h
  split at h
  · exact ⟨_, _, ‹_›, (Option.some.inj h).symm⟩
  · contradiction

theorem resume_inv (h : c.resume = some c') : c.Resumes c' := by
  simp only [resume] at h
  split at h
  case h_1 ha =>
    split at h <;> cases h
    case h_1 hc => exact .accepted ha hc
    case h_2 hc => exact .polled ha hc
  case h_2 ha =>
    split at h <;> cases h
    case isTrue hc  => exact .stopped ha hc
    case isFalse hc => exact .retried ha (by simpa using hc)
  case h_3 => contradiction

@[simp]
theorem abort_aborted : c.abort.aborted = true :=
  rfl

theorem abort_resolved_iff : c.abort.Resolved o ↔ c.Resolved o := by
  simp only [Resolved, abort]
  split <;> simp_all

theorem abort_read_iff : c.abort.await = .read l ds ↔ c.await = .read l ds := by
  simp only [abort]
  split <;> simp_all

theorem start_unresolved {spec : ReconcileSpec T} : (start spec).Unresolved := by
  simp [Unresolved, Resolved, start]

end Chain

namespace Reconciler

theorem abortCurrent_length : s.abortCurrent.length = s.chains.length := by
  simp only [abortCurrent]
  split <;> simp

theorem abortCurrent_inv (he : e.Abandons) (h : s.abortCurrent[i]? = some c') :
    ∃ c, s.chains[i]? = some c ∧ ChainStep s e i c c' := by
  simp only [abortCurrent] at h
  split at h
  case h_1 hr => exact ⟨_, h, .kept fun _ => by simp [hr]⟩
  case h_2 j hr =>
    rw [List.getElem?_modify] at h
    obtain ⟨c, hc, h⟩ := Option.map_eq_some_iff.mp h
    refine ⟨c, hc, ?_⟩
    split at h <;> subst h
    case isTrue hj  => exact .aborted he (hj ▸ hr)
    case isFalse hj => exact .kept fun _ => by simpa [hr] using hj

theorem advance_inv {j : Nat} {g : Chain T → Option (Chain T)} (h : s.advance j g = some s') :
    ∃ c c', s.chains[j]? = some c ∧ g c = some c' ∧ s' = { s with chains := s.chains.set j c' } := by
  obtain ⟨c', hb, rfl⟩ := Option.map_eq_some_iff.mp h
  obtain ⟨c, hc, hg⟩ := Option.bind_eq_some_iff.mp hb
  exact ⟨c, c', hc, hg, rfl⟩

theorem advance_chain {j : Nat} {g : Chain T → Option (Chain T)} (h : s.advance j g = some s')
    (hc : s'.chains[i]? = some c') :
    ∃ c, s.chains[i]? = some c ∧ ((i ≠ j ∧ c' = c) ∨ (i = j ∧ g c = some c')) := by
  obtain ⟨c, d, hj, hg, rfl⟩ := advance_inv h
  by_cases hi : i = j
  case pos =>
    subst hi
    have hl := (List.getElem?_eq_some_iff.mp hj).1
    simp only [List.getElem?_set_self hl, Option.some.injEq] at hc
    exact ⟨c, hj, .inr ⟨rfl, hc ▸ hg⟩⟩
  case neg =>
    simp only [List.getElem?_set_ne (Ne.symm hi)] at hc
    exact ⟨c', hc, .inl ⟨hi, rfl⟩⟩

-- A call of the next state is the one the event makes, or came from a call of this state.
theorem step_chain (h : s.step e = some s') (hc : s'.chains[i]? = some c') :
    (∃ spec, e = .reconcile spec ∧ i = s.chains.length ∧ c' = .start spec) ∨
    (∃ c, s.chains[i]? = some c ∧ ChainStep s e i c c') := by
  cases e <;> simp only [step] at h
  case reconcile spec =>
    cases h
    simp only [reconcile] at hc
    by_cases hi : i < s.abortCurrent.length
    case pos =>
      rw [List.getElem?_append_left hi] at hc
      have he : (Event.reconcile spec).Abandons := trivial
      exact .inr <| abortCurrent_inv he hc
    case neg =>
      rw [List.getElem?_append_right (by omega)] at hc
      obtain ⟨hl, hc⟩ := List.getElem?_eq_some_iff.mp hc
      simp only [List.length_singleton, abortCurrent_length] at hl hi
      refine .inl ⟨spec, rfl, by omega, ?_⟩
      rw [← hc]
      simp
  case unmount =>
    split at h <;> cases h
    have he : Event.Abandons (.unmount : Event T) := trivial
    exact .inr <| abortCurrent_inv he hc
  case settle j r =>
    obtain ⟨c, hi, ⟨_, rfl⟩ | ⟨rfl, hg⟩⟩ := advance_chain h hc
    · exact .inr ⟨_, hi, .kept False.elim⟩
    · exact .inr ⟨c, hi, .settled rfl hg⟩
  case fire j =>
    obtain ⟨c, hi, ⟨_, rfl⟩ | ⟨rfl, hg⟩⟩ := advance_chain h hc
    · exact .inr ⟨_, hi, .kept False.elim⟩
    · exact .inr ⟨c, hi, .fired rfl hg⟩
  case resume j =>
    obtain ⟨c, hi, ⟨_, rfl⟩ | ⟨rfl, hg⟩⟩ := advance_chain h hc
    · exact .inr ⟨_, hi, .kept False.elim⟩
    · exact .inr ⟨c, hi, .resumed rfl <| Chain.resume_inv hg⟩

theorem step_controllerRef (h : s.step e = some s') (he : ¬e.Abandons) :
    s'.controllerRef = s.controllerRef := by
  cases e <;> simp only [step, Event.Abandons, not_true_eq_false] at h he
  all_goals
    obtain ⟨_, _, _, _, rfl⟩ := advance_inv h
    rfl

theorem step_length_le (h : s.step e = some s') : s.chains.length ≤ s'.chains.length := by
  cases e <;> simp only [step] at h
  case reconcile => cases h; simp [reconcile, abortCurrent_length]
  case unmount   => split at h <;> cases h; simp [unmount, abortCurrent_length]
  all_goals
    obtain ⟨_, _, _, _, rfl⟩ := advance_inv h
    simp

end Reconciler

namespace ChainStep

theorem spec_eq (h : ChainStep s e i c c') : c'.spec = c.spec := by
  cases h
  case kept | aborted => rfl
  case settled h      => obtain ⟨_, _, rfl⟩ := Chain.settle_inv h; rfl
  case fired h        => obtain ⟨_, _, _, rfl⟩ := Chain.fire_inv h; rfl
  case resumed h      => cases h <;> rfl

theorem resolved (h : ChainStep s e i c c') (hc : c.Resolved o) : c'.Resolved o := by
  simp only [Chain.Resolved] at hc
  cases h
  case kept      => exact hc
  case aborted   => exact Chain.abort_resolved_iff.mpr hc
  case settled h => obtain ⟨_, ha, _⟩ := Chain.settle_inv h; simp [hc] at ha
  case fired h   => obtain ⟨_, _, ha, _⟩ := Chain.fire_inv h; simp [hc] at ha
  case resumed h => cases h <;> simp_all

theorem unresolved (h : ChainStep s e i c c') (hc : c'.Unresolved) : c.Unresolved :=
  fun o ho => hc o (h.resolved ho)

-- An abandoning event aborts the call the ref holds, and no other: for the rest it counts on the
-- calls still running being aborted already.
theorem aborted_iff (h : ChainStep s e i c c')
    (ho : c.aborted = false → s.controllerRef = some i) :
    c'.aborted = true ↔ c.aborted = true ∨ e.Abandons := by
  cases h
  case kept hk =>
    by_cases he : e.Abandons <;> simp only [he, or_true, or_false, iff_true]
    by_contra ha
    exact hk he <| ho <| by simpa using ha
  case aborted he _ => simp [he]
  case settled he h => obtain ⟨_, _, rfl⟩ := Chain.settle_inv h; simp [he, Event.Abandons]
  case fired he h   => obtain ⟨_, _, _, rfl⟩ := Chain.fire_inv h; simp [he, Event.Abandons]
  case resumed he h => cases h <;> simp [he, Event.Abandons]

end ChainStep

-- A call that is still running and not aborted is the one the ref holds.
def Owned (s : Reconciler T) : Prop :=
  ∀ i c, s.chains[i]? = some c → c.Unresolved → c.aborted = false → s.controllerRef = some i

theorem owned_step (ho : Owned s) (h : s.step e = some s') : Owned s' := by
  intro i c' hc' hu ha
  obtain ⟨spec, rfl, rfl, _⟩ | ⟨c, hc, hcs⟩ := Reconciler.step_chain h hc'
  case inl => cases h; rfl
  case inr =>
    have ho := ho i c hc (hcs.unresolved hu)
    have hn := mt (hcs.aborted_iff ho).mpr (by simp [ha])
    rw [not_or, Bool.not_eq_true] at hn
    exact Reconciler.step_controllerRef h hn.right ▸ ho hn.left

theorem owned (r : Reaches es s) : Owned s :=
  r.invariant (by intro i c h; simp [Reconciler.mount] at h) fun _ _ _ => owned_step

theorem abandoned_made (r : Reaches es s) (h : Abandoned es i) : i < s.chains.length := by
  induction r
  case nil => exact absurd h Run.not_sometime_nil
  case snoc r hs hi =>
    obtain h | ⟨_, c, hc, _⟩ := (Run.sometime_snoc_iff r).mp h
    · exact Nat.lt_of_lt_of_le (hi h) (Reconciler.step_length_le hs)
    · exact Nat.lt_of_lt_of_le (List.getElem?_eq_some_iff.mp hc).1 (Reconciler.step_length_le hs)

-- Of the calls still running, the aborted ones are those the run has abandoned.
theorem aborted_iff_abandoned (r : Reaches es s) (hc : s.chains[i]? = some c) (hu : c.Unresolved) :
    c.aborted = true ↔ Abandoned es i := by
  induction r generalizing i c
  case nil => simp [Reconciler.mount] at hc
  case snoc es e s₁ s₂ r hs hi =>
    rw [Abandoned, Run.sometime_snoc_iff r]
    obtain ⟨spec, rfl, rfl, rfl⟩ | ⟨c₁, hc₁, hcs⟩ := Reconciler.step_chain hs hc
    case inl =>
      have hn : ¬Abandoned es s₁.chains.length := fun h => absurd (abandoned_made r h) (Nat.lt_irrefl _)
      simpa [Chain.start, Abandoned] using hn
    case inr =>
      have hu₁ := hcs.unresolved hu
      rw [hcs.aborted_iff (owned r i c₁ hc₁ hu₁), hi hc₁ hu₁]
      simp [Abandoned, hc₁, hu₁]

-- The value a call holds when its read has come back is one the run handed to it.
theorem read_handed (r : Reaches es s) (hc : s.chains[i]? = some c)
    (ha : ∃ v ds, c.await = .read (some v) ds ∧ f v = true) : ReadConfirming es i f := by
  induction r generalizing i c
  case nil => simp [Reconciler.mount] at hc
  case snoc es e s₁ s₂ r hs hi =>
    obtain ⟨v, ds, ha, hv⟩ := ha
    rw [ReadConfirming, Run.sometime_snoc_iff r]
    obtain ⟨_, rfl, rfl, rfl⟩ | ⟨c₁, hc₁, hcs⟩ := Reconciler.step_chain hs hc
    case inl => simp [Chain.start] at ha
    case inr =>
      cases hcs
      case kept    => exact .inl <| hi hc₁ ⟨v, ds, ha, hv⟩
      case aborted => exact .inl <| hi hc₁ ⟨v, ds, Chain.abort_read_iff.mp ha, hv⟩
      case settled q he h =>
        obtain ⟨_, _, rfl⟩ := Chain.settle_inv h
        cases q <;> simp [Settlement.read] at ha
        exact .inr ⟨v, c₁, by simp [he, ha.left], hc₁, hv⟩
      case fired h   => obtain ⟨_, _, _, rfl⟩ := Chain.fire_inv h; simp at ha
      case resumed h =>
        cases h
        case polled => exact absurd ha poll_not_read
        all_goals simp at ha

theorem confirmed_read (r : Reaches es s) (hc : s.chains[i]? = some c)
    (hr : c.Resolved .confirmed) (hf : c.spec.confirm = some f) : ReadConfirming es i f := by
  induction r generalizing i c
  case nil => simp [Reconciler.mount] at hc
  case snoc es e s₁ s₂ r hs hi =>
    rw [ReadConfirming, Run.sometime_snoc_iff r]
    obtain ⟨_, rfl, rfl, rfl⟩ | ⟨c₁, hc₁, hcs⟩ := Reconciler.step_chain hs hc
    case inl => exact absurd hr <| Chain.start_unresolved _
    case inr =>
      left
      have hf₁ := hcs.spec_eq ▸ hf
      cases hcs
      case kept      => exact hi hc₁ hr hf₁
      case aborted   => exact hi hc₁ (Chain.abort_resolved_iff.mp hr) hf₁
      case settled h => obtain ⟨_, _, rfl⟩ := Chain.settle_inv h; simp [Chain.Resolved] at hr
      case fired h   => obtain ⟨_, _, _, rfl⟩ := Chain.fire_inv h; simp [Chain.Resolved] at hr
      case resumed h =>
        cases h <;> simp only [Chain.Resolved, reduceCtorEq, Await.resolved.injEq] at hr
        case accepted h => simp [h] at hf₁
        case polled l ds g ha hg =>
          obtain rfl := Option.some.inj (hg.symm.trans hf₁)
          have hv := poll_confirmed hr
          cases l <;> simp only [confirms, Option.any, reduceCtorEq] at hv
          exact read_handed r hc₁ ⟨_, ds, ha, hv⟩

-- A call that has been abandoned and then resolves does so without a confirmation, unless its
-- acceptance read returns and there is no predicate to hold it back.
theorem abandoned_pending_step (r : Reaches es s) (hl : ReturnsLive s e) (hs : s.step e = some s')
    (hi : ∀ i c o, s.chains[i]? = some c → c.Resolved o → Abandoned es i → o = .pending)
    (hc : s'.chains[i]? = some c') (ho : c'.Resolved o) (ha : Abandoned (es ++ [e]) i) :
    o = .pending := by
  obtain ⟨_, rfl, rfl, rfl⟩ | ⟨c, hc₁, hcs⟩ := Reconciler.step_chain hs hc
  case inl => exact absurd ho <| Chain.start_unresolved _
  case inr =>
    by_cases hu : c.Unresolved
    case pos =>
      have hab := aborted_iff_abandoned r hc₁ hu
      cases hcs
      case kept      => exact absurd ho <| hu o
      case aborted   => exact absurd (Chain.abort_resolved_iff.mp ho) <| hu o
      case settled h => obtain ⟨_, _, rfl⟩ := Chain.settle_inv h; simp [Chain.Resolved] at ho
      case fired h   => obtain ⟨_, _, _, rfl⟩ := Chain.fire_inv h; simp [Chain.Resolved] at ho
      case resumed he h =>
        subst he
        have ha : c.aborted = true := by
          simpa [Abandoned, Run.sometime_snoc_iff r, Event.Abandons, hab] using ha
        cases h <;> simp only [Chain.Resolved, reduceCtorEq, Await.resolved.injEq] at ho
        case accepted hr hn => simp [hl c _ _ hc₁ hr hn] at ha
        case polled         => simpa [ha, poll_aborted] using ho.symm
        case stopped        => exact ho.symm
    case neg =>
      simp only [Chain.Unresolved, not_forall, not_not] at hu
      obtain ⟨o', ho'⟩ := hu
      have heq : o' = o := by
        have := hcs.resolved ho'
        simp only [Chain.Resolved] at this ho
        simpa [ho] using this.symm
      subst heq
      refine hi i c o' hc₁ ho' ?_
      obtain ha | ⟨_, c₂, hc₂, hu₂⟩ := (Run.sometime_snoc_iff r).mp ha
      · exact ha
      · exact absurd ho' <| Option.some.inj (hc₁.symm.trans hc₂) ▸ hu₂ o'

theorem honest_of_returnsLive (r : Reaches es s)
    (a : Run.Along Reconciler.step Reconciler.mount ReturnsLive es) : Honest es s := by
  refine ⟨?_, fun i c f hc hr hf => confirmed_read r hc hr hf⟩
  induction r
  case nil => intro i c o hc; simp [Reconciler.mount] at hc
  case snoc es e s₁ s₂ r hs hi =>
    have ⟨a, hl⟩ := (Run.along_snoc_iff r).mp a
    exact fun i c o => abandoned_pending_step r hl hs (hi a)

-- Without a predicate the acceptance read resolves the call `confirmed`, aborted or not.
theorem returnsLive_of_honest (r : Reaches es s) (hs : s.step e = some s')
    (h : Honest (es ++ [e]) s') : ReturnsLive s e := by
  cases e <;> simp only [ReturnsLive]
  case resume i =>
    intro c l ds hc ha hn
    by_contra hb
    obtain ⟨c₁, c', hc₁, hr, rfl⟩ := Reconciler.advance_inv hs
    obtain rfl := Option.some.inj (hc.symm.trans hc₁)
    have hu : c.Unresolved := by simp [Chain.Unresolved, Chain.Resolved, ha]
    have hab := (aborted_iff_abandoned r hc hu).mp (by simpa using hb)
    have hl := (List.getElem?_eq_some_iff.mp hc).1
    simp only [Chain.resume, ha, hn, Option.some.injEq] at hr
    subst hr
    have := h.abandoned_pending i _ .confirmed (List.getElem?_set_self hl) rfl
      ((Run.sometime_snoc_iff r).mpr <| .inl hab)
    contradiction

-- Every outcome of a run is honest, at every point of it, exactly when no acceptance read comes back
-- to an aborted call without a predicate.
theorem honest_iff_returnsLive (r : Reaches es s) :
    (∀ es' s', es' <+: es → Reaches es' s' → Honest es' s') ↔
      Run.Along Reconciler.step Reconciler.mount ReturnsLive es := by
  constructor
  case mp =>
    rintro h es₁ e es₂ s₁ rfl r₁
    obtain ⟨s₁', s₂, r₁', hs, _⟩ := r.split_at
    obtain rfl := r₁.deterministic r₁'
    exact returnsLive_of_honest r₁ hs <| h _ _ (by simp) (r₁.snoc hs)
  case mpr =>
    intro a es' s' hp r'
    exact honest_of_returnsLive r' (a.of_prefix hp)

section Superseded

-- A call that only wants its list read again.
def invalidation : ReconcileSpec Unit where
  confirm     := none
  intervalsMs := none

def supersededRun : List (Event Unit) :=
  [.reconcile invalidation, .reconcile invalidation, .settle 0 .undefined, .resume 0]

theorem supersededRun_reaches : Reaches supersededRun {
    chains        := [
      { spec := invalidation, aborted := true, await := .resolved .confirmed },
      { spec := invalidation, aborted := false, await := .reading defaultReconcileIntervalsMs }]
    controllerRef := some 1
    mounted       := true } :=
  Run.of_exec rfl

theorem honest_iff_returnsLive_supersededRun :
    (∀ es' s', es' <+: supersededRun → Reaches es' s' → Honest es' s') ↔
      Run.Along Reconciler.step Reconciler.mount ReturnsLive supersededRun :=
  honest_iff_returnsLive supersededRun_reaches

-- The first call is superseded while its acceptance read is on the way, and still confirms.
theorem not_honest_supersededRun :
    ¬∀ (T : Type) (es : List (Event T)) s, Reaches es s → Honest es s := by
  intro h
  have h := (h _ _ _ supersededRun_reaches).abandoned_pending 0 _ .confirmed rfl rfl ?_
  case refine_1 =>
    refine ⟨[.reconcile invalidation], .reconcile invalidation, _, _, rfl, Run.of_exec rfl, ?_⟩
    exact ⟨trivial, .start invalidation, rfl, Chain.start_unresolved⟩
  contradiction

end Superseded
end Reconcile
