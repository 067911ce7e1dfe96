import LoxilbUi.Hooks.Theorems.Reconcile

-- The refetches that the calls of one `useReconciler` start.

namespace Reconcile

variable {T : Type} {s s' s₁ s₂ : Reconciler T} {e : Event T} {es : List (Event T)} {c c' : Chain T}
variable {i : Nat}

theorem isReading_iff (hc : s.chains[i]? = some c) : s.isReading i = c.isReading := by
  simp [Reconciler.isReading, hc]

theorem readsStarted_snoc (r : Run Reconciler.step s es s₁) (h : s₁.step e = some s₂) :
    readsStarted i s (es ++ [e]) = readsStarted i s es + (startsRead s₁ s₂ i).toNat := by
  induction es generalizing s
  case nil =>
    obtain rfl := r.nil_eq
    simp [readsStarted, h]
  case cons e₀ es hi =>
    obtain ⟨s', hs, r'⟩ := r.cons_inv
    simp only [List.cons_append, readsStarted, hs, hi r', Nat.add_assoc]

theorem readsSettled_snoc : readsSettled i (es ++ [e]) = readsSettled i es + (e.settles i).toNat := by
  cases h : e.settles i <;> simp [readsSettled, h]

-- The reads that may still start.
def Await.left : Await T → Nat
  | reading ds | read _ ds   => ds.length
  | sleeping _ ds | slept ds => ds.length + 1
  | resolved _               => 0

def Chain.left (c : Chain T) : Nat :=
  c.await.left

-- A test of the last read ends the call, or goes to sleep before the next one.
theorem poll_stops {f : T → Bool} {a : Bool} {l : Option T} {ds : List Nat} :
    (∃ o, poll f a l ds = .resolved o) ∨ ∃ d ds', ds = d :: ds' ∧ poll f a l ds = .sleeping d ds' := by
  cases ds
  case nil =>
    simp only [poll]
    split
    case isTrue  => exact .inl ⟨_, rfl⟩
    case isFalse => split <;> exact .inl ⟨_, rfl⟩
  case cons d ds =>
    simp only [poll, sleep]
    split
    case isTrue => exact .inl ⟨_, rfl⟩
    case isFalse ha =>
      split
      case isTrue  => exact .inl ⟨_, rfl⟩
      case isFalse => exact .inr ⟨d, ds, rfl, by simp⟩

namespace Chain

-- A call goes on to a refetch just when it has slept and was not aborted.
theorem Resumes.reads (h : c.Resumes c') : c.isReading = false ∧
    (c'.isReading = true → c.aborted = false ∧ c.Unresolved) ∧
    c'.isReading.toNat + c'.left ≤ c.left := by
  cases h
  case accepted ha _ => simp [isReading, left, ha, Await.isReading, Await.left]
  case polled l ds f ha _ =>
    obtain ⟨o, hp⟩ | ⟨d, ds', rfl, hp⟩ := @poll_stops _ f c.aborted l ds
    · simp [isReading, left, ha, hp, Await.isReading, Await.left]
    · simp [isReading, left, ha, hp, Await.isReading, Await.left]
  case stopped ha _  => simp [isReading, left, ha, Await.isReading, Await.left]
  case retried ha hn =>
    simp [isReading, left, ha, hn, Await.isReading, Await.left, Unresolved, Resolved, Nat.add_comm]

theorem abort_isReading : c.abort.isReading = c.isReading := by
  simp only [abort, isReading]
  split <;> simp_all [Await.isReading]

theorem abort_left : c.abort.left = c.left := by
  simp only [abort, left]
  split <;> simp_all [Await.left]

end Chain

theorem settles_inv (h : s.step e = some s') (hc : s.chains[i]? = some c) (hc' : s'.chains[i]? = some c')
    (he : e.settles i = true) : c.isReading = true ∧ c'.isReading = false ∧ c'.left = c.left := by
  cases e <;> simp only [Event.settles, Bool.false_eq_true, decide_eq_true_eq] at he
  case settle j r =>
    subst he
    obtain ⟨c₁, hc₁, ⟨hn, _⟩ | ⟨_, hs⟩⟩ := Reconciler.advance_chain h hc'
    · contradiction
    · obtain rfl := Option.some.inj <| hc.symm.trans hc₁
      obtain ⟨ds, ha, rfl⟩ := Chain.settle_inv hs
      simp [Chain.isReading, Chain.left, Await.isReading, Await.left, ha]

-- What one event does to the reads of a call that has been made.
structure ReadStep (s : Reconciler T) (e : Event T) (i : Nat) (c c' : Chain T) : Prop where
  count : c.isReading.toNat + (c'.isReading && !c.isReading).toNat =
    (e.settles i).toNat + c'.isReading.toNat
  left  : (c'.isReading && !c.isReading).toNat + c'.left ≤ c.left
  live  : c'.isReading = true → c.isReading = false → ¬e.Abandons ∧ c.aborted = false ∧ c.Unresolved

theorem readStep (h : s.step e = some s') (hc : s.chains[i]? = some c) (hc' : s'.chains[i]? = some c')
    (hs : ChainStep s e i c c') : ReadStep s e i c c' := by
  cases he : e.settles i
  case true =>
    obtain ⟨hr, hr', hl⟩ := settles_inv h hc hc' he
    constructor <;> simp [hr, hr', hl, he]
  case false =>
    cases hs
    case kept      => constructor <;> cases hr : c.isReading <;> simp [he]
    case aborted   => constructor <;> cases hr : c.isReading <;> simp [he, hr, Chain.abort_isReading, Chain.abort_left]
    case settled hi h => simp [hi, Event.settles] at he
    case fired h =>
      obtain ⟨d, ds, ha, rfl⟩ := Chain.fire_inv h
      constructor <;> simp [Chain.isReading, Chain.left, Await.isReading, Await.left, ha, he]
    case resumed hi hr =>
      subst hi
      obtain ⟨hn, hl, hb⟩ := hr.reads
      constructor
      case count => cases hr' : c'.isReading <;> simp [hn, he]
      case left  => simpa [hn] using hb
      case live  => exact fun hr' _ => ⟨id, hl hr'⟩

theorem settles_made (h : s.step e = some s') (he : e.settles i = true) : i < s.chains.length := by
  cases e <;> simp only [Event.settles, Bool.false_eq_true, decide_eq_true_eq] at he
  case settle j r =>
    subst he
    obtain ⟨_, _, hc, _⟩ := Reconciler.advance_inv h
    exact (List.getElem?_eq_some_iff.mp hc).1

-- The reads of a call so far, against what it has settled and what is left of its schedule.
structure Counted (es : List (Event T)) (s : Reconciler T) : Prop where
  made   : ∀ i c, s.chains[i]? = some c →
    readsStarted i .mount es = readsSettled i es + c.isReading.toNat ∧
    readsStarted i .mount es + c.left ≤ 1 + c.spec.intervals.length
  unmade : ∀ i, s.chains.length ≤ i → readsStarted i .mount es = 0 ∧ readsSettled i es = 0

theorem readsStarted_made (r : Reaches es s) (hs : s.step e = some s') (hc : s.chains[i]? = some c)
    (hc' : s'.chains[i]? = some c') :
    readsStarted i .mount (es ++ [e]) =
      readsStarted i .mount es + (c'.isReading && !c.isReading).toNat := by
  rw [readsStarted_snoc r hs, startsRead, isReading_iff hc, isReading_iff hc']

theorem counted (r : Reaches es s) : Counted es s := by
  induction r
  case nil => exact ⟨by simp [Reconciler.mount], fun _ _ => ⟨rfl, rfl⟩⟩
  case snoc es e s₁ s₂ r hs hi =>
    constructor
    case made =>
      intro i c' hc'
      obtain ⟨spec, rfl, rfl, rfl⟩ | ⟨c, hc, hcs⟩ := Reconciler.step_chain hs hc'
      · obtain ⟨h₀, h₁⟩ := hi.unmade s₁.chains.length (Nat.le_refl _)
        have hn : s₁.isReading s₁.chains.length = false := by simp [Reconciler.isReading]
        rw [readsStarted_snoc r hs, startsRead, hn, isReading_iff hc', readsSettled_snoc, h₀, h₁]
        simp [Chain.start, Chain.isReading, Chain.left, Await.isReading, Await.left,
          Event.settles]
      · obtain ⟨h₁, h₂⟩ := hi.made i c hc
        have h := readStep hs hc hc' hcs
        rw [readsStarted_made r hs hc hc', readsSettled_snoc, hcs.spec_eq]
        have := h.count
        have := h.left
        omega
    case unmade =>
      intro i hl
      have hl₁ := Nat.le_trans (Reconciler.step_length_le hs) hl
      obtain ⟨h₀, h₁⟩ := hi.unmade i hl₁
      have hn : s₂.isReading i = false := by
        simp [Reconciler.isReading, List.getElem?_eq_none hl]
      have he : e.settles i = false := by
        by_contra he
        have := settles_made hs <| by simpa using he
        omega
      rw [readsStarted_snoc r hs, readsSettled_snoc, h₀, h₁, startsRead, hn, he]
      simp

-- A call that goes on is the last one made, and its page is there.
structure Current (s : Reconciler T) : Prop where
  last    : ∀ i, s.controllerRef = some i → i + 1 = s.chains.length
  mounted : ∀ i, s.controllerRef = some i → s.mounted = true

theorem current_step (h : Current s) (hm : CalledMounted s e) (hs : s.step e = some s') : Current s' := by
  cases e
  case reconcile spec =>
    cases hs
    constructor
    case last =>
      rintro _ ⟨⟩
      simp [Reconciler.reconcile, Reconciler.abortCurrent_length]
    case mounted => exact fun _ _ => hm
  case unmount =>
    simp only [Reconciler.step] at hs
    split at hs <;> cases hs
    constructor <;> rintro i ⟨⟩
  all_goals
    obtain ⟨_, _, _, _, rfl⟩ := Reconciler.advance_inv hs
    exact ⟨by simpa using h.last, h.mounted⟩

theorem mount_current : Current (.mount : Reconciler T) where
  last    := by simp [Reconciler.mount]
  mounted := by simp [Reconciler.mount]

theorem current (r : Reaches es s)
    (a : Run.Along Reconciler.step Reconciler.mount CalledMounted es) : Current s :=
  Run.history_along (P := fun _ s => Current s) mount_current
    (fun _ _ _ _ _ h hm hs => current_step h hm hs) r a

theorem live_step (r : Reaches es s) (h : Current s) (hm : CalledMounted s e) (hs : s.step e = some s')
    (hr : startsRead s s' i = true) : s.mounted = true ∧ i + 1 = s'.chains.length := by
  simp only [startsRead, Bool.and_eq_true, Bool.not_eq_true'] at hr
  obtain ⟨hr', hr⟩ := hr
  obtain ⟨c', hc', hread'⟩ := Option.any_eq_true _ _ |>.mp hr'
  obtain ⟨spec, rfl, rfl, rfl⟩ | ⟨c, hc, hcs⟩ := Reconciler.step_chain hs hc'
  · cases hs
    exact ⟨hm, by simp [Reconciler.reconcile, Reconciler.abortCurrent_length]⟩
  · rw [isReading_iff hc] at hr
    obtain ⟨he, ha, hu⟩ := (readStep hs hc hc' hcs).live hread' hr
    have href := owned r i c hc hu ha
    have href' := Reconciler.step_controllerRef hs he
    have hcur := current_step h hm hs
    exact ⟨h.mounted i href, hcur.last i <| href'.trans href⟩

-- The refetches of a run are restrained just if no call is made after the page is gone.
theorem restrained_iff_calledMounted (r : Reaches es s) :
    Restrained es s ↔ Run.Along Reconciler.step Reconciler.mount CalledMounted es := by
  constructor
  case mp =>
    rintro h es₁ e es₂ s₁ rfl r₁
    cases e <;> simp only [CalledMounted]
    case reconcile spec =>
      have hs : s₁.step (.reconcile spec) = some (s₁.reconcile spec) := rfl
      refine (h.live es₁ _ es₂ s₁ _ rfl r₁ hs s₁.chains.length ?_).left
      simp [startsRead, Reconciler.isReading, Reconciler.reconcile, Reconciler.abortCurrent_length,
        Chain.start, Chain.isReading, Await.isReading]
  case mpr =>
    intro a
    have hcount := counted r
    constructor
    case live =>
      rintro es₁ e es₂ s₁ s₂ rfl r₁ hs i hr
      have hcur := current r₁ <| a.of_prefix (by simp)
      exact live_step r₁ hcur (a es₁ e es₂ s₁ rfl r₁) hs hr
    case single =>
      intro i
      cases hc : s.chains[i]?
      case none =>
        have := (hcount.unmade i <| List.getElem?_eq_none_iff.mp hc).left
        omega
      case some c =>
        have := (hcount.made i c hc).left
        have := Bool.toNat_le c.isReading
        omega
    case bounded =>
      intro i c hc
      have := (hcount.made i c hc).right
      omega

section Unmounted

-- A list that is polled once more, on a page that is left meanwhile.
def polling : ReconcileSpec Unit where
  confirm     := some fun _ => false
  intervalsMs := some [500]

def leftRun : List (Event Unit) :=
  [.reconcile polling, .settle 0 .undefined, .resume 0, .unmount, .resume 0]

theorem leftRun_reaches : ∃ s, Reaches leftRun s :=
  ⟨_, Run.of_exec rfl⟩

theorem restrained_iff_calledMounted_leftRun : ∃ s, Reaches leftRun s ∧
    (Restrained leftRun s ↔ Run.Along Reconciler.step Reconciler.mount CalledMounted leftRun) :=
  leftRun_reaches.imp fun _ r => ⟨r, restrained_iff_calledMounted r⟩

-- A call made after the page was left reads its list.
theorem not_restrained_deadPage :
    ¬∀ (es : List (Event Unit)) s, Reaches es s → Restrained es s := by
  intro h
  have r : Reaches [.unmount, .reconcile polling] _ := Run.of_exec rfl
  have hl := (h _ _ r).live [.unmount] (.reconcile polling) [] _ _ rfl (Run.of_exec rfl) rfl 0 rfl
  exact absurd hl.left (by decide)

end Unmounted

end Reconcile
