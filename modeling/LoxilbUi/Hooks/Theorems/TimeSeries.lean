import LoxilbUi.Hooks.TimeSeries

namespace TimeSeries

variable {Raw T : Type*} {W : Raw → T} {s s' : Stores Raw T} {h h' : Hook Raw T} {e : Event Raw}
variable {now now' : Int} {id : Nat} {raw : Raw} {series series' : List (Point T)}
variable {us us' : List (Update Raw T)} {p : Point T}

-- What `pruneOld` makes of points that came in one after the other.
structure InOrder (now : Int) (series : List (Point T)) : Prop where
  ordered : series.Pairwise (·.timestamp ≤ ·.timestamp)
  short   : series.length ≤ maxDataPoints
  past    : ∀ p ∈ series, p.timestamp ≤ now

section Prune

theorem pruneOld_sublist : (pruneOld now series).Sublist series := by
  unfold pruneOld
  extract_lets timeFiltered
  have hf : timeFiltered.Sublist series := List.filter_sublist
  split
  case isTrue  => exact (List.drop_sublist _ _).trans hf
  case isFalse => exact hf

theorem mem_pruneOld (hp : p ∈ pruneOld now series) :
    p ∈ series ∧ now - p.timestamp ≤ maxDurationMs := by
  refine ⟨pruneOld_sublist.subset hp, ?_⟩
  unfold pruneOld at hp
  extract_lets timeFiltered at hp
  have hm : p ∈ timeFiltered := by
    split at hp
    case isTrue  => exact (List.drop_sublist _ _).subset hp
    case isFalse => exact hp
  simpa using (List.mem_filter.mp hm).2

theorem length_pruneOld_le : (pruneOld now series).length ≤ maxDataPoints := by
  unfold pruneOld
  extract_lets timeFiltered
  split
  case isTrue  => simp only [List.rtake, List.length_drop]; omega
  case isFalse => omega

theorem inOrder_pruneOld (ho : series.Pairwise (·.timestamp ≤ ·.timestamp))
    (hp : ∀ p ∈ series, p.timestamp ≤ now) : InOrder now (pruneOld now series) where
  ordered    := ho.sublist pruneOld_sublist
  short      := length_pruneOld_le
  past _ hm  := hp _ <| pruneOld_sublist.subset hm

theorem inOrder_nil : InOrder now ([] : List (Point T)) :=
  ⟨.nil, Nat.zero_le _, by simp⟩

theorem InOrder.later (o : InOrder now series) (hn : now ≤ now') : InOrder now' series :=
  { o with past := fun p hp => Int.le_trans (o.past p hp) hn }

theorem InOrder.appendSeries {x : T} (o : InOrder now series) :
    InOrder now (appendSeries now series ⟨now, x⟩) := by
  refine inOrder_pruneOld ?_ ?_
  · refine List.pairwise_append.mpr ⟨o.ordered, List.pairwise_singleton .., ?_⟩
    intro p hp q hq
    obtain rfl := List.mem_singleton.mp hq
    exact o.past p hp
  · intro p hp
    obtain hp | hp := List.mem_append.mp hp
    · exact o.past p hp
    · obtain rfl := List.mem_singleton.mp hp
      exact Int.le_refl _

end Prune

-- Every answer that is kept before is kept after.
def Grows (s s' : Stores Raw T) : Prop :=
  ∀ id, s.answers id ⊆ s'.answers id

theorem IsOf.grows (ho : IsOf W s id p) (g : Grows s s') : IsOf W s' id p :=
  have ⟨raw, hr, hp⟩ := ho
  ⟨raw, g id hr, hp⟩

theorem IsSeriesOf.grows (ho : IsSeriesOf W s id series) (g : Grows s s') :
    IsSeriesOf W s' id series :=
  { ho with own := fun p hp => (ho.own p hp).grows g }

-- The points of the series that are young enough to be kept come from the instance.
def Owned (W : Raw → T) (s : Stores Raw T) (now : Int) (id : Nat) (series : List (Point T)) : Prop :=
  ∀ p ∈ series, now - p.timestamp ≤ maxDurationMs → IsOf W s id p

-- Every young point of the second series carries the data of a young point of the first.
def Covers (now : Int) (series : List (Point T)) (now' : Int) (series' : List (Point T)) : Prop :=
  ∀ p ∈ series', now' - p.timestamp ≤ maxDurationMs →
    ∃ q ∈ series, now - q.timestamp ≤ maxDurationMs ∧ q.data = p.data

namespace Covers

theorem refl (hn : now ≤ now') : Covers now series now' series :=
  fun p hp ht => ⟨p, hp, by omega, rfl⟩

theorem pruneOld : Covers now series now (pruneOld now series) :=
  fun p hp ht => ⟨p, (mem_pruneOld hp).1, ht, rfl⟩

theorem concat {x : T} (c : Covers now series now' series') :
    Covers now (series ++ [⟨now, x⟩]) now' (series' ++ [⟨now', x⟩]) := by
  intro p hp ht
  obtain hp | hp := List.mem_append.mp hp
  · have ⟨q, hq, hy, hd⟩ := c p hp ht
    exact ⟨q, List.mem_append_left _ hq, hy, hd⟩
  · obtain rfl := List.mem_singleton.mp hp
    exact ⟨⟨now, x⟩, List.mem_append_right _ <| List.mem_singleton_self _, by simp [maxDurationMs], rfl⟩

theorem owned (c : Covers now series now' series') (g : Grows s s') (ho : Owned W s now id series) :
    Owned W s' now' id series' := by
  intro p hp ht
  have ⟨q, hq, hy, hd⟩ := c p hp ht
  have ⟨raw, hr, he⟩ := (ho q hq hy).grows g
  exact ⟨raw, hr, hd ▸ he⟩

theorem upcoming (hn : now ≤ now') (c : Covers now series now' series') :
    Covers now (upcoming W now series us) now' (upcoming W now' series' us) := by
  induction us generalizing series series'
  case nil => exact c
  case cons u us hi =>
    cases u
    case append => exact hi c.concat
    case set    => exact hi (.refl hn)

end Covers

theorem Owned.concat (ho : Owned W s now id series) (hr : raw ∈ s.answers id) :
    Owned W s now id (series ++ [⟨now, W raw⟩]) := by
  intro p hp ht
  obtain hp | hp := List.mem_append.mp hp
  · exact ho p hp ht
  · obtain rfl := List.mem_singleton.mp hp
    exact ⟨raw, hr, rfl⟩

theorem upcoming_append :
    upcoming W now series (us ++ us') = upcoming W now (upcoming W now series us) us' := by
  induction us generalizing series
  case nil => rfl
  case cons u us hi => cases u <;> exact hi

-- Every updater of the queue will be handed a series of its own instance.
def Sound (W : Raw → T) (s : Stores Raw T) (now : Int) : List (Point T) → List (Update Raw T) → Prop
  | _,      []                   => True
  | series, .append id raw :: us =>
    Owned W s now id series ∧ raw ∈ s.answers id ∧ Sound W s now (series ++ [⟨now, W raw⟩]) us
  | _,      .set series :: us    => Sound W s now series us

namespace Sound

theorem mono (hn : now ≤ now') (g : Grows s s') (c : Covers now series now' series')
    (d : Sound W s now series us) : Sound W s' now' series' us := by
  induction us generalizing series series'
  case nil => trivial
  case cons u us hi =>
    cases u
    case append => exact ⟨c.owned g d.1, g _ d.2.1, hi c.concat d.2.2⟩
    case set    => exact hi (.refl hn) d

theorem append (d : Sound W s now series us) (d' : Sound W s now (upcoming W now series us) us') :
    Sound W s now series (us ++ us') := by
  induction us generalizing series
  case nil => exact d'
  case cons u us hi =>
    cases u
    case append => exact ⟨d.1, d.2.1, hi d.2.2 d'⟩
    case set    => exact hi d d'

end Sound

section Restore

variable {elements : List (Option (Point T))}

theorem Inherited.inOrder_cache (i : Inherited W s now) (hc : s.cache id = some series) :
    InOrder now series :=
  have hs := i.cache id series hc
  ⟨hs.ordered, hs.short, i.cachePast id series hc⟩

theorem Inherited.inOrder_storage (i : Inherited W s now)
    (hc : s.storage id = some (.array elements)) : InOrder now elements.reduceOption :=
  have hs := i.storage id elements hc
  ⟨hs.ordered, hs.short, i.storagePast id elements hc⟩

theorem readStoredSeries_snd {st st' : Option (Stored T)} (hr : (readStoredSeries now st).2 = st') :
    st' = st ∨ st' = none := by
  subst hr
  match st with
  | none | some .unusable => exact .inr rfl
  | some (.array _)       => exact .inl rfl

-- What is restored for an instance are points of one of its two series, pruned.
theorem Inherited.restore (i : Inherited W s now) (id : Nat) :
    InOrder now (s.restore now id).1 ∧ ∀ p ∈ (s.restore now id).1, IsOf W s id p := by
  have hread : InOrder now (readStoredSeries now (s.storage id)).1 ∧
      ∀ p ∈ (readStoredSeries now (s.storage id)).1, IsOf W s id p := by
    match hs : s.storage id with
    | none | some .unusable => exact ⟨inOrder_nil, by simp [readStoredSeries]⟩
    | some (.array elements) =>
      have ho := i.inOrder_storage hs
      refine ⟨inOrder_pruneOld ho.ordered ho.past, fun p hp => ?_⟩
      exact (i.storage id elements hs).own p (mem_pruneOld hp).1
  match hc : s.cache id with
  | none | some []         => simpa only [Stores.restore, hc]
  | some (p :: cached) =>
    have ho := i.inOrder_cache hc
    simp only [Stores.restore, hc]
    exact ⟨inOrder_pruneOld ho.ordered ho.past,
      fun q hq => (i.cache id _ hc).own q (mem_pruneOld hq).1⟩

theorem Stores.restore_snd : (s.restore now id).2 = s.storage id ∨ (s.restore now id).2 = none := by
  unfold Stores.restore
  split
  case h_1 => exact .inl rfl
  case h_2 => exact readStoredSeries_snd rfl

theorem Inherited.restored (i : Inherited W s now) (id : Nat) :
    Inherited W (s.restored now id) now := by
  have hs : ∀ j elements, (s.restored now id).storage j = some (.array elements) →
      s.storage j = some (.array elements) := by
    intro j elements hj
    simp only [Stores.restored, Function.update_apply] at hj
    split at hj
    case isTrue he =>
      subst he
      obtain hr | hr := @Stores.restore_snd _ _ s now j <;> rw [hr] at hj
      · exact hj
      · cases hj
    case isFalse => exact hj
  have g : Grows s (s.restored now id) := fun _ => List.Subset.refl _
  exact {
    cache       := fun j series hc => (i.cache j series hc).grows g
    storage     := fun j elements hj => (i.storage j elements (hs j elements hj)).grows g
    cachePast   := i.cachePast
    storagePast := fun j elements hj => i.storagePast j elements (hs j elements hj)
    fetched     := i.fetched }

end Restore

theorem Inherited.later (i : Inherited W s now) (hn : now ≤ now') : Inherited W s now' :=
  { i with
    cachePast   := fun id series hc p hp => Int.le_trans (i.cachePast id series hc p hp) hn
    storagePast := fun id elements hc p hp => Int.le_trans (i.storagePast id elements hc p hp) hn }

-- What holds of a hook, but for whose the series on screen is.
structure Sane (W : Raw → T) (h : Hook Raw T) : Prop extends Inherited W h.toStores h.now where
  given  : ∀ raw at', h.data = some (raw, at') → ∃ id, h.inst = some id ∧ raw ∈ h.answers id
  series : InOrder h.now h.series
  sets   : ∀ series, .set series ∈ h.queue → InOrder h.now series
  timers : ∀ id series, (id, series) ∈ h.timers →
    InOrder h.now series ∧ ∀ p ∈ series, IsOf W h.toStores id p
  sound  : Sound W h.toStores h.now h.series h.queue

-- The instance whose series is on screen once the queue is processed.
def Hook.owner (h : Hook Raw T) : Option Nat :=
  h.reset.getD h.inst

structure Lawful (W : Raw → T) (h : Hook Raw T) : Prop extends Sane W h where
  owned : ∀ id, h.owner = some id →
    Owned W h.toStores h.now id (upcoming W h.now h.series h.queue)

theorem lawful_mount {inst : Option Nat} (i : Inherited W s now) : Lawful W (Hook.mount s now inst) := by
  have given : ∀ raw at', inst.bind s.queries = some (raw, at') →
      ∃ id, inst = some id ∧ raw ∈ s.answers id := by
    intro raw at' hd
    have ⟨id, hi, hq⟩ := Option.bind_eq_some_iff.mp hd
    exact ⟨id, hi, i.fetched id raw at' hq⟩
  cases inst
  case none => exact {
    toInherited := i
    given, series := inOrder_nil
    sets   := nofun
    timers := nofun
    sound  := trivial
    owned  := nofun }
  case some id =>
    have ⟨ho, hown⟩ := i.restore id
    exact {
      toInherited := i.restored id
      given, series := ho
      sets   := nofun
      timers := nofun
      sound  := trivial
      owned  := by
        rintro j ⟨⟩ p hp _
        exact hown p hp }

theorem Grows.refl : Grows s s :=
  fun _ => List.Subset.refl _

namespace Sane

theorem later (q : Sane W h) (hn : h.now ≤ now) : Sane W { h with now } where
  toInherited      := q.toInherited.later hn
  given            := q.given
  series           := q.series.later hn
  sets _ hm        := (q.sets _ hm).later hn
  timers id _ hm   := have ⟨ho, hown⟩ := q.timers id _ hm; ⟨ho.later hn, hown⟩
  sound            := q.sound.mono hn .refl (.refl hn)

theorem record {due : Bool} {appended : Option (Int × Option Nat)} {reset : Option (Option Nat)}
    (q : Sane W h) : Sane W { h with due, appended, reset } :=
  { q with }

theorem set (q : Sane W h) (ho : InOrder h.now series) : Sane W (h.setSeriesData (.set series)) :=
  { q with
    sets := by
      intro series' hm
      obtain hm | hm := List.mem_append.mp hm
      · exact q.sets _ hm
      · cases List.mem_singleton.mp hm
        exact ho
    sound := q.sound.append trivial }

theorem append (q : Sane W h) (hr : raw ∈ h.answers id)
    (ho : Owned W h.toStores h.now id (upcoming W h.now h.series h.queue)) :
    Sane W (h.setSeriesData (.append id raw)) :=
  { q with
    sets := by
      intro series' hm
      obtain hm | hm := List.mem_append.mp hm
      · exact q.sets _ hm
      · nomatch List.mem_singleton.mp hm
    sound := q.sound.append ⟨ho, hr, trivial⟩ }

-- The stores may be replaced by stores that are fit for later mounts and know every answer.
theorem stores (q : Sane W h) (i : Inherited W s h.now) (g : Grows h.toStores s) :
    Sane W { h with toStores := s } where
  toInherited     := i
  given raw _ hd  := have ⟨id, hi, hr⟩ := q.given raw _ hd; ⟨id, hi, g id hr⟩
  series          := q.series
  sets            := q.sets
  timers id _ hm  := have ⟨ho, hown⟩ := q.timers id _ hm; ⟨ho, fun p hp => (hown p hp).grows g⟩
  sound           := q.sound.mono (Int.le_refl _) g (.refl <| Int.le_refl _)

end Sane

namespace Lawful

theorem later (l : Lawful W h) (hn : h.now ≤ now) : Lawful W { h with now } where
  toSane        := l.toSane.later hn
  owned id ho   := (Covers.upcoming hn <| .refl hn).owned .refl <| l.owned id ho

theorem stores (l : Lawful W h) (i : Inherited W s h.now) (g : Grows h.toStores s) :
    Lawful W { h with toStores := s } where
  toSane      := l.toSane.stores i g
  owned id ho := (Covers.refl <| Int.le_refl _).owned g <| l.owned id ho

end Lawful

section Effects

theorem appendEffect_cases : (∃ appended, h.appendEffect = { h with appended }) ∨
    ∃ appended id raw at', h.inst = some id ∧ h.data = some (raw, at') ∧
      h.appendEffect = { h with appended }.setSeriesData (.append id raw) := by
  unfold Hook.appendEffect
  split
  case isTrue => exact .inl ⟨h.appended, rfl⟩
  case isFalse =>
    extract_lets deps
    split
    case h_1 raw at' id hd hi => exact .inr ⟨_, id, raw, at', hi, hd, rfl⟩
    case h_2                  => exact .inl ⟨_, rfl⟩

-- The append effect may queue a point for an instance whose series is not on screen. It is the reset
-- effect, which then runs too, that replaces what is on screen.
theorem Lawful.appendEffect (l : Lawful W h) (hs : ∀ id, h.inst = some id → h.data.isSome →
      (∃ inst, h.reset = some inst ∧ inst ≠ some id) →
      Owned W h.toStores h.now id (upcoming W h.now h.series h.queue)) :
    Sane W h.appendEffect ∧ (h.reset = some h.inst → Lawful W h.appendEffect) := by
  obtain ⟨appended, ha⟩ | ⟨appended, id, raw, at', hi, hd, ha⟩ := @appendEffect_cases _ _ h <;> rw [ha]
  · exact ⟨l.record, fun _ => { l with }⟩
  · obtain ⟨id', hi', hr⟩ := l.given raw at' hd
    obtain rfl : id = id' := Option.some.inj <| hi.symm.trans hi'
    have ho : Owned W h.toStores h.now id (upcoming W h.now h.series h.queue) := by
      by_cases hc : h.owner = some id
      · exact l.owned id hc
      · refine hs id hi (by simp [hd]) ?_
        match hreset : h.reset with
        | none      => simp [Hook.owner, hreset, hi] at hc
        | some inst => exact ⟨inst, rfl, fun he => hc <| by simp [Hook.owner, hreset, he]⟩
    have q : Sane W ({ h with appended }.setSeriesData (.append id raw)) :=
      Sane.append (h := { h with appended }) l.record hr ho
    refine ⟨q, fun hreset => { q with owned := ?_ }⟩
    intro j hj
    obtain rfl : id = j := by simpa [Hook.owner, Hook.setSeriesData, hreset, hi] using hj
    simp only [Hook.setSeriesData, upcoming_append]
    exact ho.concat hr

theorem appendEffect_same : h.appendEffect.reset = h.reset ∧ h.appendEffect.inst = h.inst := by
  obtain ⟨_, ha⟩ | ⟨_, _, _, _, _, _, ha⟩ := @appendEffect_cases _ _ h <;> rw [ha] <;> exact ⟨rfl, rfl⟩

theorem Sane.resetEffect (q : Sane W h) (hl : h.reset = some h.inst → Lawful W h) :
    Lawful W h.resetEffect := by
  unfold Hook.resetEffect
  split
  case isTrue hr => exact hl hr
  case isFalse =>
    extract_lets h₁
    have q₁ : Sane W h₁ := q.record
    split
    case h_1 hi =>
      refine { q₁.set inOrder_nil with owned := ?_ }
      intro id ho
      simp [Hook.owner, Hook.setSeriesData, h₁, show h.inst = none from hi] at ho
    case h_2 id hi =>
      have ⟨ho, hown⟩ := q₁.toInherited.restore id
      have q₂ : Sane W { h₁ with toStores := h₁.restored h₁.now id } :=
        q₁.stores (q₁.toInherited.restored id) .refl
      refine { q₂.set ho with owned := ?_ }
      intro j hj
      obtain rfl : id = j := by
        simpa [Hook.owner, Hook.setSeriesData, h₁, show h.inst = some id from hi] using hj
      simp only [Hook.setSeriesData, upcoming_append]
      exact fun p hp _ => hown p hp

theorem Lawful.effects (l : Lawful W h) (hs : ∀ id, h.inst = some id → h.data.isSome →
      (∃ inst, h.reset = some inst ∧ inst ≠ some id) →
      Owned W h.toStores h.now id (upcoming W h.now h.series h.queue)) :
    Lawful W h.appendEffect.resetEffect := by
  have ⟨q, hl⟩ := l.appendEffect hs
  refine q.resetEffect ?_
  rw [appendEffect_same.1, appendEffect_same.2]
  exact hl

theorem resetEffect_reset : h.resetEffect.reset = some h.inst := by
  unfold Hook.resetEffect
  split
  case isTrue hr => exact hr
  case isFalse =>
    extract_lets h₁
    split <;> rfl

end Effects

section Update

theorem Lawful.process {u : Update Raw T} {queue : List (Update Raw T)} (l : Lawful W h)
    (hq : h.queue = u :: queue) : Lawful W ({ h with queue }.process W u) := by
  have hsets : ∀ series, .set series ∈ queue → InOrder h.now series :=
    fun series hm => l.sets series <| hq ▸ List.mem_cons_of_mem _ hm
  have hsound := l.sound
  have howned := l.owned
  rw [hq] at hsound howned
  cases u
  case set series =>
    exact { l with
      series := l.sets series <| hq ▸ List.mem_cons_self ..
      sets   := hsets
      sound  := hsound
      owned  := howned }
  case append id raw =>
    have ⟨ho, hr, hsound⟩ := hsound
    have c : Covers h.now (h.series ++ [⟨h.now, W raw⟩]) h.now
        (appendSeries h.now h.series ⟨h.now, W raw⟩) := .pruneOld
    exact { l with
      series := l.series.appendSeries
      sets   := hsets
      timers := by
        intro j series hm
        obtain hm | hm := List.mem_append.mp hm
        · exact l.timers j series hm
        · cases List.mem_singleton.mp hm
          refine ⟨l.series.appendSeries, fun p hp => ?_⟩
          have ⟨hp, hy⟩ := mem_pruneOld hp
          exact ho.concat hr p hp hy
      sound := hsound.mono (Int.le_refl _) .refl c
      owned := fun j hj => (c.upcoming <| Int.le_refl _).owned .refl <| howned j hj }

theorem InOrder.isSeriesOf (o : InOrder now series) (hown : ∀ p ∈ series, IsOf W s id p) :
    IsSeriesOf W s id series :=
  ⟨hown, o.ordered, o.short⟩

theorem Inherited.publish (i : Inherited W h.toStores h.now) (o : InOrder h.now series)
    (hown : ∀ p ∈ series, IsOf W h.toStores id p) :
    Inherited W (h.publish id series).toStores h.now := by
  have hc : ∀ j series', (h.publish id series).cache j = some series' →
      (j = id ∧ series' = series) ∨ h.cache j = some series' := by
    intro j series' hj
    simp only [Hook.publish, Function.update_apply] at hj
    split at hj
    case isTrue he  => exact .inl ⟨he, (Option.some.inj hj).symm⟩
    case isFalse    => exact .inr hj
  have hs : ∀ j elements, (h.publish id series).storage j = some (.array elements) →
      (j = id ∧ elements.reduceOption = series) ∨ h.storage j = some (.array elements) := by
    intro j elements hj
    simp only [Hook.publish, Function.update_apply] at hj
    split at hj
    case isTrue he =>
      cases hj
      exact .inl ⟨he, by simp [List.reduceOption]⟩
    case isFalse => exact .inr hj
  exact {
    cache j series' hj := by
      obtain ⟨rfl, rfl⟩ | hj := hc j series' hj
      · exact (o.isSeriesOf hown).grows .refl
      · exact (i.cache j series' hj).grows .refl
    storage j elements hj := by
      obtain ⟨rfl, rfl⟩ | hj := hs j elements hj
      · exact (o.isSeriesOf hown).grows .refl
      · exact (i.storage j elements hj).grows .refl
    cachePast j series' hj := by
      obtain ⟨rfl, rfl⟩ | hj := hc j series' hj
      · exact o.past
      · exact i.cachePast j series' hj
    storagePast j elements hj := by
      obtain ⟨rfl, rfl⟩ | hj := hs j elements hj
      · exact o.past
      · exact i.storagePast j elements hj
    fetched := i.fetched }

end Update

-- The invariant of a run: before the first effects have run, they are due.
structure Mounted (W : Raw → T) (h : Hook Raw T) : Prop extends Lawful W h where
  ran : h.reset = none → h.due = true

theorem Mounted.stores (m : Mounted W h) (i : Inherited W s h.now) (g : Grows h.toStores s) :
    Mounted W { h with toStores := s } :=
  { m.toLawful.stores i g with ran := m.ran }

theorem process_same {u : Update Raw T} :
    (h.process W u).reset = h.reset ∧ (h.process W u).due = h.due := by
  cases u <;> exact ⟨rfl, rfl⟩

section Stores

theorem Grows.answered : Grows s { s with
    queries := Function.update s.queries id (some (raw, now'))
    answers := Function.update s.answers id (s.answers id ++ [raw]) } := by
  intro j
  by_cases hj : j = id
  · subst hj
    simp
  · simp [hj]

theorem Inherited.answered (i : Inherited W s now) : Inherited W { s with
    queries := Function.update s.queries id (some (raw, now'))
    answers := Function.update s.answers id (s.answers id ++ [raw]) } now where
  cache j series hc      := (i.cache j series hc).grows .answered
  storage j elements hc  := (i.storage j elements hc).grows .answered
  cachePast              := i.cachePast
  storagePast            := i.storagePast
  fetched j raw' at' hq  := by
    by_cases hj : j = id
    · subst hj
      obtain ⟨rfl, _⟩ : raw = raw' ∧ now' = at' := by simpa using hq
      simp
    · simp only [Function.update_of_ne hj] at hq ⊢
      exact i.fetched j raw' at' hq

theorem Inherited.forgotten (i : Inherited W s now) :
    Inherited W { s with queries := Function.update s.queries id none } now where
  cache j series hc      := (i.cache j series hc).grows .refl
  storage j elements hc  := (i.storage j elements hc).grows .refl
  cachePast              := i.cachePast
  storagePast            := i.storagePast
  fetched j raw at' hq   := by
    by_cases hj : j = id
    · simp [hj] at hq
    · exact i.fetched j raw at' <| by simpa [hj] using hq

theorem Inherited.collected (i : Inherited W s now) :
    Inherited W { s with cache := Function.update s.cache id none } now := by
  have hc : ∀ j series, Function.update s.cache id none j = some series →
      s.cache j = some series := by
    intro j series hj
    by_cases he : j = id
    · simp [he] at hj
    · simpa [he] using hj
  exact {
    cache j series hj      := (i.cache j series (hc j series hj)).grows .refl
    storage j elements hj  := (i.storage j elements hj).grows .refl
    cachePast j series hj  := i.cachePast j series (hc j series hj)
    storagePast            := i.storagePast
    fetched                := i.fetched }

end Stores

theorem Mounted.perform {k : Kind Raw} (m : Mounted W h) (hc : CleanSwitch W h ⟨h.now, k⟩)
    (hp : h.perform W k = some h') : Mounted W h' := by
  cases k <;> simp only [Hook.perform] at hp
  case answer  => cases hp; exact m.stores m.answered .answered
  case forget  => cases hp; exact m.stores m.forgotten .refl
  case collect => cases hp; exact m.stores m.collected .refl
  case render inst =>
    split at hp <;> cases hp
    case isFalse hd =>
      have hr : h.reset ≠ none := fun hn => hd <| m.ran hn
      obtain ⟨i, hi⟩ := Option.ne_none_iff_exists'.mp hr
      exact { m with
        given raw at' hd := by
          have ⟨id, hi, hq⟩ := Option.bind_eq_some_iff.mp hd
          exact ⟨id, hi, m.fetched id raw at' hq⟩
        owned id ho := m.owned id <| by simpa [Hook.owner, hi] using ho
        ran _ := rfl }
  case effects =>
    split at hp <;> cases hp
    have l : Lawful W { h with due := false } := { m with }
    refine { l.effects ?_ with ran := fun hn => ?_ }
    · rintro id hi hd ⟨inst, hr, hne⟩ p hp hy
      exact hc id ⟨rfl, hi, hd, inst, hr, hne⟩ p hp hy
    · simp [resetEffect_reset] at hn
  case update =>
    split at hp <;> cases hp
    case h_2 u queue hq =>
      refine { m.toLawful.process hq with ran := fun hn => ?_ }
      rw [process_same.1] at hn
      rw [process_same.2]
      exact m.ran hn
  case write n =>
    obtain ⟨⟨id, series⟩, ht, rfl⟩ := Option.map_eq_some_iff.mp hp
    have ⟨o, hown⟩ := m.timers id series <| List.mem_of_getElem? ht
    have i := m.toInherited.publish o hown
    have l : Lawful W (h.publish id series) := m.toLawful.stores i .refl
    exact { l with
      timers := fun j series hm => l.timers j series <| List.mem_of_mem_eraseIdx hm
      ran := m.ran }

theorem Mounted.step (m : Mounted W h) (hc : CleanSwitch W h e) (hs : h.step W e = some h') :
    Mounted W h' := by
  unfold Hook.step at hs
  split at hs
  case isFalse => cases hs
  case isTrue hn =>
    have m' : Mounted W { h with now := e.now } := { m.toLawful.later hn with ran := m.ran }
    exact m'.perform hc hs

-- A run whose every switch is clean keeps the series apart, whatever earlier mounts left behind.
theorem isolated_of_cleanSwitch {inst : Option Nat} {es : List (Event Raw)} (i : Inherited W s now)
    (r : Reaches W (.mount s now inst) es h)
    (c : Run.Along (Hook.step W) (.mount s now inst) (CleanSwitch W) es) : Isolated W h.toStores :=
  have m : Mounted W h := r.history_along (P := fun _ h => Mounted W h)
    { lawful_mount i with ran := fun _ => by cases inst <;> rfl }
    (fun _ _ _ _ _ m hc hs => m.step hc hs) c
  m.toIsolated

section Runs

-- The one series of the app takes an answer as it is.
def keepRaw (raw : Nat) : Nat :=
  raw

def noStores : Stores Nat Nat where
  queries _ := none
  cache _   := none
  storage _ := none
  answers _ := []

theorem inherited_noStores : Inherited keepRaw noStores 0 where
  cache       := nofun
  storage     := nofun
  cachePast   := nofun
  storagePast := nofun
  fetched     := nofun

-- Instance 2 is on screen until its first answer is published.
def visit : List (Event Nat) :=
  [⟨1, .effects⟩, ⟨1, .update⟩, ⟨2, .answer 2 20⟩, ⟨2, .render (some 2)⟩, ⟨2, .effects⟩,
    ⟨2, .update⟩, ⟨3, .write 0⟩]

-- Then instance 1 is, which has no answer yet.
def leave : List (Event Nat) :=
  [⟨4, .render (some 1)⟩, ⟨4, .effects⟩, ⟨4, .update⟩, ⟨5, .answer 1 10⟩, ⟨5, .render (some 1)⟩,
    ⟨5, .effects⟩, ⟨5, .update⟩, ⟨6, .write 0⟩]

-- Then instance 2 is again, whose answer is still there.
def comeBack : List (Event Nat) :=
  [⟨7, .render (some 2)⟩, ⟨7, .effects⟩, ⟨7, .update⟩, ⟨7, .update⟩, ⟨8, .write 0⟩]

theorem isolated_of_cleanSwitch_leave : ∃ h,
    Reaches keepRaw (.mount noStores 0 (some 2)) (visit ++ leave) h ∧
      h.cache 2 = some [⟨2, 20⟩] ∧ h.cache 1 = some [⟨5, 10⟩] ∧ Isolated keepRaw h.toStores := by
  have c : Run.Along (Hook.step keepRaw) (.mount noStores 0 (some 2)) (CleanSwitch keepRaw)
      (visit ++ leave) := by
    repeat' first | exact Run.along_nil | refine Run.along_cons rfl ?_ ?_
    all_goals
      rintro _ ⟨⟨⟩, ⟨⟩, hd, _, ⟨⟩, hne⟩
    · exact absurd rfl hne
    · nomatch hd
    · exact absurd rfl hne
  have r : Reaches keepRaw (.mount noStores 0 (some 2)) (visit ++ leave) _ := Run.of_exec rfl
  exact ⟨_, r, rfl, rfl, isolated_of_cleanSwitch inherited_noStores r c⟩

-- The updater of the append effect was handed the series of instance 1.
theorem not_isolated_comeBack : ¬∀ (s : Stores Nat Nat) now inst es h, Inherited keepRaw s now →
    Reaches keepRaw (.mount s now inst) es h → Isolated keepRaw h.toStores := by
  intro ha
  have ⟨h, r, hc, hr⟩ : ∃ h,
      Reaches keepRaw (.mount noStores 0 (some 2)) (visit ++ leave ++ comeBack) h ∧
        h.cache 2 = some [⟨5, 10⟩, ⟨7, 20⟩] ∧ h.answers 2 = [20] := ⟨_, Run.of_exec rfl, rfl, rfl⟩
  have ⟨raw, hm, he⟩ := ((ha _ _ _ _ h inherited_noStores r).cache 2 _ hc).own ⟨5, 10⟩ (by simp)
  rw [hr] at hm
  obtain rfl := List.mem_singleton.mp hm
  nomatch he

end Runs

end TimeSeries
