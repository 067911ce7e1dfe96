import LoxilbUi.Hooks.LocalStorage
import LoxilbUi.Library.Run

-- A preference in any interleaving of the components and tabs that share it: nothing that is not trusted is
-- ever shown, and where nothing waits any more all show the value that is stored.

namespace LocalStorage

variable {parse : String → Option JsValue} {pref : Preference} {w w' : World} {e : Event} {es : List Event}
variable {c d : Consumer} {id id' tab tab' : Nat} {v value : JsValue} {raw : String} {stored : Option String}

def Preference.Trusts (pref : Preference) (v : JsValue) : Prop :=
  ∀ isValid ∈ pref.isValid, isValid v = true

theorem coerceStored_trusts (h : coerceStored parse pref raw = some v) : pref.Trusts v := by
  obtain ⟨defaultValue, isValid⟩ := pref
  intro isValid' hv
  obtain rfl : isValid = some isValid' := hv
  rw [coerceStored] at h
  cases hp : parse raw <;> simp only [hp, Option.ite_none_right_eq_some] at h
  all_goals
    obtain ⟨hv, h⟩ := h
    exact Option.some.inj h ▸ hv

theorem readStored_trusts (h : pref.Trusts pref.defaultValue) : pref.Trusts (readStored parse pref stored) := by
  cases stored
  case none     => exact h
  case some raw =>
    rw [readStored]
    cases hc : coerceStored parse pref raw
    case none   => exact h
    case some v => exact coerceStored_trusts hc

-- What a component makes of its state is again a value of its type.
def Keeps (pref : Preference) (update : JsValue → JsValue) : Prop :=
  ∀ v, pref.Trusts v → pref.Trusts (update v)

structure Consumer.Trusted (pref : Preference) (c : Consumer) : Prop where
  state : pref.Trusts c.state
  queue : ∀ update ∈ c.queue, Keeps pref update

namespace Consumer.Trusted

theorem setState {update : JsValue → JsValue} (h : c.Trusted pref) (hu : Keeps pref update) :
    (c.setState update).Trusted pref where
  state      := h.state
  queue f hf := (List.mem_append.mp hf).elim (h.queue f) fun hf => List.mem_singleton.mp hf ▸ hu

theorem result (h : c.Trusted pref) : pref.Trusts c.result := by
  obtain ⟨tab, state, queue, due, listening⟩ := c
  rw [Consumer.result]
  have hs := h.state
  have hq := h.queue
  dsimp only at hs hq ⊢
  clear h
  induction queue generalizing state
  case nil            => exact hs
  case cons f queue hi =>
    exact hi _ (hq f List.mem_cons_self _ hs) fun g hg => hq g <| List.mem_cons_of_mem _ hg

theorem hear (h : c.Trusted pref) (hv : pref.Trusts value) : (c.hear value).Trusted pref := by
  rw [Consumer.hear]
  split
  case h_1 =>
    split
    · exact h.setState fun _ _ => hv
    · exact h
  case h_2 => exact h

theorem handleStorageChange {newValue : Option String} (h : c.Trusted pref) :
    (c.handleStorageChange parse pref newValue).Trusted pref := by
  rw [Consumer.handleStorageChange]
  split
  case h_1 hc =>
    obtain ⟨raw, -, hc⟩ := Option.bind_eq_some_iff.mp hc
    exact h.setState fun _ _ => coerceStored_trusts hc
  case h_2 => exact h

end Consumer.Trusted

def World.Trusted (pref : Preference) (w : World) : Prop :=
  ∀ id, ∀ c ∈ w.consumers id, c.Trusted pref

namespace World

@[simp]
theorem consumers_setItem {value : Option String} : (w.setItem tab value).consumers = w.consumers := by
  rw [setItem]
  split <;> rfl

@[simp]
theorem consumers_put {c : Option Consumer} {i : Nat} : (w.put id c).consumers i = if i = id then c else w.consumers i :=
  rfl

@[simp]
theorem consumers_mapTab {f : Consumer → Consumer} :
    (w.mapTab tab f).consumers id = (w.consumers id).map fun c => if c.tab = tab then f c else c :=
  rfl

theorem Trusted.put (h : w.Trusted pref) {c : Option Consumer} (hc : ∀ d ∈ c, d.Trusted pref) :
    (w.put id c).Trusted pref := by
  intro i d hd
  rw [consumers_put] at hd
  split at hd
  · exact hc d hd
  · exact h i d hd

theorem Trusted.mapTab (h : w.Trusted pref) {f : Consumer → Consumer}
    (hf : ∀ c : Consumer, c.Trusted pref → (f c).Trusted pref) : (w.mapTab tab f).Trusted pref := by
  intro i d hd
  rw [consumers_mapTab] at hd
  obtain ⟨c, hc, rfl⟩ := Option.map_eq_some_iff.mp hd
  split
  · exact hf c (h i c hc)
  · exact h i c hc

theorem Trusted.runEffects (h : w.Trusted pref) : (w.runEffects id).Trusted pref := by
  rw [World.runEffects]
  split
  case h_1 => exact h
  case h_2 c hc =>
    have ht := h id c hc
    have hw : ((w.setItem c.tab <| some <| textOf c.state).emit c.tab c.state).Trusted pref :=
      Trusted.mapTab (fun i d hd => h i d <| by simpa using hd) fun d hd => hd.hear ht.state
    refine hw.put fun d hd => ?_
    obtain ⟨d', hd', rfl⟩ := Option.map_eq_some_iff.mp hd
    exact ⟨(hw id d' hd').state, (hw id d' hd').queue⟩

theorem Trusted.cleanUp (h : w.Trusted pref) : (w.cleanUp id).Trusted pref := by
  refine h.put fun d hd => ?_
  obtain ⟨d', hd', rfl⟩ := Option.map_eq_some_iff.mp hd
  exact ⟨(h id d' hd').state, (h id d' hd').queue⟩

theorem Trusted.flush {ids : List Nat} (h : w.Trusted pref) : (w.flush ids).Trusted pref := by
  have hc (ids : List Nat) (w : World) (h : w.Trusted pref) : (ids.foldl World.cleanUp w).Trusted pref := by
    induction ids generalizing w
    case nil            => exact h
    case cons id ids hi => exact hi _ h.cleanUp
  have hr (ids : List Nat) (w : World) (h : w.Trusted pref) : (ids.foldl World.runEffects w).Trusted pref := by
    induction ids generalizing w
    case nil            => exact h
    case cons id ids hi => exact hi _ h.runEffects
  exact hr ids _ <| hc ids w h

end World

-- A component sets values of its own type.
def Event.Typed (pref : Preference) : Event → Prop
  | .set _ update => Keeps pref update
  | _             => True

theorem trusted_step (h : w.Trusted pref) (hd : pref.Trusts pref.defaultValue) (ht : e.Typed pref)
    (hs : step parse pref w e = some w') : w'.Trusted pref := by
  cases e
  case loaded tab =>
    obtain rfl := Option.some.inj hs
    intro i c hc
    exact h i c (Option.filter_eq_some_iff.mp hc).1
  case mounted id tab =>
    rw [step] at hs
    split at hs
    · cases hs
    · obtain rfl := Option.some.inj hs
      refine h.put fun c hc => ?_
      obtain rfl := Option.some.inj hc
      exact ⟨readStored_trusts hd, fun _ hu => by cases hu⟩
  case unmounted id =>
    obtain ⟨_, _, rfl⟩ := Option.map_eq_some_iff.mp hs
    exact h.put fun c hc => by cases hc
  case set id update =>
    obtain ⟨c, hc, rfl⟩ := Option.map_eq_some_iff.mp hs
    refine h.put fun d hd => ?_
    obtain rfl := Option.some.inj hd
    exact (h id c hc).setState ht
  case rendered id =>
    obtain ⟨c, hc, rfl⟩ := Option.map_eq_some_iff.mp hs
    refine h.put fun d hd => ?_
    obtain rfl := Option.some.inj hd
    exact ⟨(h id c hc).result, fun _ hu => by cases hu⟩
  case flushed tab ids =>
    obtain ⟨_, rfl⟩ : _ ∧ w.flush ids = w' := by simpa [step] using hs
    exact h.flush
  case handled tab =>
    rw [step] at hs
    split at hs
    · cases hs
    · obtain rfl := Option.some.inj hs
      exact World.Trusted.mapTab (w := { w with inbox := _ }) h fun c hc => hc.handleStorageChange
  case foreign tab value =>
    obtain rfl := Option.some.inj hs
    exact fun i d hd => h i d <| by simpa using hd

-- Whatever is in the storage, and whatever else writes to it.
theorem trusted_run (hd : pref.Trusts pref.defaultValue) (ht : ∀ e ∈ es, e.Typed pref)
    (r : Run (step parse pref) (.initial stored) es w) : w.Trusted pref := by
  induction r
  case nil =>
    intro _ _ hc
    cases hc
  case snoc e w₁ w₂ r hs hi =>
    exact trusted_step (hi fun e he => ht e <| List.mem_append_left _ he) hd (ht e <| by simp) hs

-- `JSON.parse`, of the two texts of a density and of digits.
def parseDensity (raw : String) : Option JsValue :=
  if raw = textOf (.string "comfortable") then some <| .string "comfortable"
  else if raw = textOf (.string "compact") then some <| .string "compact"
  else match raw.toList with
    | ['0']       => some <| .number 0
    | '0' :: _    => none
    | []          => none
    | digits      => if digits.all Char.isDigit then some <| .number <| .ofDigits digits else none

theorem trusts_density_iff : tableDensity.Trusts v ↔ v = .string "comfortable" ∨ v = .string "compact" := by
  rw [Preference.Trusts]
  simp only [tableDensity, Option.mem_def, Option.some.injEq, forall_eq', isTableDensity, Bool.or_eq_true]
  cases v <;> simp [JsValue.strictEq]

theorem default_trusted : ∀ pref ∈ [tableDensity, sideMenuOpen, observabilityCadence, systemAuditInstance],
    pref.Trusts pref.defaultValue := by
  simp only [List.forall_mem_cons, Preference.Trusts, tableDensity, sideMenuOpen, observabilityCadence,
    systemAuditInstance, Option.mem_def, Option.some.injEq, forall_eq']
  exact ⟨by decide, rfl, by decide, rfl, by simp⟩

-- A table comes up with a broken text in the storage, and another tab puts a number there.
def brokenEvents : List Event :=
  [.mounted 0 0, .flushed 0 [0], .foreign 1 (some "5"), .handled 0]

theorem trusted_broken : ∃ w, Run (step parseDensity tableDensity) (.initial <| some "\x7bbroken") brokenEvents w ∧
    ∀ c ∈ w.consumers 0, c.state = .string "comfortable" ∨ c.state = .string "compact" := by
  have r := @Run.of_exec _ _ (step parseDensity tableDensity) (.initial <| some "\x7bbroken") _ brokenEvents rfl
  refine ⟨_, r, fun c hc => trusts_density_iff.mp ?_⟩
  refine (trusted_run (default_trusted _ <| by simp) ?_ r 0 c hc).state
  simp [brokenEvents, Event.Typed]

section Agreement

-- `JSON.parse` reads what `JSON.stringify` made of a value that is trusted.
structure Preference.Lawful (pref : Preference) (parse : String → Option JsValue) : Prop where
  default : pref.Trusts pref.defaultValue
  back    : ∀ v, pref.Trusts v → ∃ text, v.stringify = some text ∧ parse text = some v

theorem Preference.Lawful.coerceStored (h : pref.Lawful parse) (hv : pref.Trusts v) :
    coerceStored parse pref (textOf v) = some v := by
  obtain ⟨text, hs, hp⟩ := h.back v hv
  rw [textOf, hs, Option.getD_some, LocalStorage.coerceStored, hp]
  cases hi : pref.isValid
  case none         => rfl
  case some isValid => exact if_pos <| hv isValid hi

theorem objectIs_inv (h : objectIs v value = true) : v = value := by
  cases v <;> cases value
  case number.number a b => exact congrArg JsValue.number <| of_decide_eq_true h
  all_goals exact JsValue.strictEq_inv h

-- What was sent to a tab last, of the events that it has not handled.
def World.sent (parse : String → Option JsValue) (pref : Preference) (w : World) (tab : Nat) : Option JsValue :=
  (w.inbox tab).getLast?.bind fun newValue => newValue.bind (coerceStored parse pref)

-- What a component will be rendered with, if nothing else happens.
def World.aim (parse : String → Option JsValue) (pref : Preference) (w : World) (c : Consumer) : JsValue :=
  (w.sent parse pref c.tab).getD c.result

-- No component of the tab is going to write.
def World.Idle (parse : String → Option JsValue) (pref : Preference) (w : World) (tab : Nat) : Prop :=
  ∀ id, ∀ c ∈ w.consumers id, c.tab = tab → c.due = false ∧ w.aim parse pref c = c.state

structure World.Settling (parse : String → Option JsValue) (pref : Preference) (w : World) : Prop where
  trusted : w.Trusted pref
  heard   : ∀ tab, ∀ newValue ∈ w.inbox tab, ∃ v, pref.Trusts v ∧ newValue = some (textOf v)
  fresh   : ∀ id, ∀ c ∈ w.consumers id, c.due = false → c.listening = some c.state
  told    : ∀ tab, w.Idle parse pref tab → ∀ id, ∀ c ∈ w.consumers id, c.tab = tab →
    w.stored = some (textOf c.state)

namespace World

@[simp]
theorem stored_setItem {value : Option String} : (w.setItem tab value).stored = value := by
  rw [setItem]
  split
  case isTrue h  => exact h
  case isFalse h => rfl

theorem inbox_setItem_self {value : Option String} : (w.setItem tab value).inbox tab = w.inbox tab := by
  rw [setItem]
  split
  case isTrue h  => rfl
  case isFalse h => exact if_pos rfl

theorem inbox_setItem {value : Option String} (ht : tab' ≠ tab) : (w.setItem tab value).inbox tab' =
    if w.stored = value then w.inbox tab' else w.inbox tab' ++ [value] := by
  rw [setItem]
  split
  case isTrue h  => rfl
  case isFalse h => exact if_neg ht

theorem sent_congr (h : w'.inbox tab = w.inbox tab) : w'.sent parse pref tab = w.sent parse pref tab := by
  rw [sent, sent, h]

-- One component changes. If it will not write now, then it would not have before, and has the same state.
theorem Settling.put (h : w.Settling parse pref) (hc : w.consumers id = some c) (ht : d.tab = c.tab)
    (hv : d.Trusted pref) (hf : d.due = false → d.listening = some d.state)
    (hk : d.due = false → w.aim parse pref d = d.state → (c.due = false ∧ w.aim parse pref c = c.state) ∧ d.state = c.state) :
    (w.put id (some d)).Settling parse pref where
  trusted := h.trusted.put fun _ he => Option.some.inj he ▸ hv
  heard   := h.heard
  fresh i c' hc' := by
    rw [consumers_put] at hc'
    split at hc'
    · exact Option.some.inj hc' ▸ hf
    · exact h.fresh i c' hc'
  told tab hi i c' hc' hct := by
    have hd : c.tab = tab → (c.due = false ∧ w.aim parse pref c = c.state) ∧ d.state = c.state := fun he => by
      obtain ⟨hdue, haim⟩ := hi id d (if_pos rfl) (ht.trans he)
      exact hk hdue haim
    have hw : w.Idle parse pref tab := fun j c'' hj hjt => by
      by_cases he : j = id
      · obtain rfl : c = c'' := Option.some.inj <| hc.symm.trans <| he ▸ hj
        exact (hd hjt).1
      · exact hi j c'' ((if_neg he).trans hj) hjt
    rw [consumers_put] at hc'
    split at hc'
    · obtain rfl := Option.some.inj hc'
      rw [(hd (ht.symm.trans hct)).2]
      exact h.told tab hw id c hc (ht.symm.trans hct)
    · exact h.told tab hw i c' hc' hct

theorem Settling.initial : (World.initial stored).Settling parse pref where
  trusted _ _ hc := by cases hc
  heard _ _ hn   := by cases hn
  fresh _ _ hc   := by cases hc
  told _ _ _ _ hc := by cases hc

theorem Settling.cleanUp (h : w.Settling parse pref) (hc : w.consumers id = some c) (hd : c.due = true) :
    (w.cleanUp id).Settling parse pref := by
  have hn {p : Prop} (hf : c.due = false) : p := by
    rw [hd] at hf
    cases hf
  rw [World.cleanUp, hc]
  exact h.put hc rfl ⟨(h.trusted id c hc).state, (h.trusted id c hc).queue⟩ (fun hf => hn hf) fun hf => hn hf

theorem Settling.loaded (h : w.Settling parse pref) : World.Settling parse pref {
    stored    := w.stored
    inbox     := fun t => if t = tab then [] else w.inbox t
    consumers := fun id => (w.consumers id).filter (·.tab ≠ tab) } where
  trusted i c hc := h.trusted i c (Option.filter_eq_some_iff.mp hc).1
  heard t x hx := by
    dsimp only at hx
    split at hx
    · cases hx
    · exact h.heard t x hx
  fresh i c hc hf := h.fresh i c (Option.filter_eq_some_iff.mp hc).1 hf
  told t hi i c hc hct := by
    obtain ⟨hc, hne⟩ := Option.filter_eq_some_iff.mp hc
    have hne : t ≠ tab := fun he => of_decide_eq_true hne <| hct.trans he
    refine h.told t (fun j d hj hjt => ?_) i c hc hct
    obtain ⟨hdue, haim⟩ := hi j d (Option.filter_eq_some_iff.mpr ⟨hj, decide_eq_true <| hjt ▸ hne⟩) hjt
    rw [aim, sent_congr (w := w) <| if_neg <| hjt ▸ hne] at haim
    exact ⟨hdue, haim⟩

theorem Settling.mounted (h : w.Settling parse pref) (hd : pref.Trusts pref.defaultValue)
    (hn : w.consumers id = none) :
    (w.put id <| some ⟨tab, readStored parse pref w.stored, [], true, none⟩).Settling parse pref where
  trusted := h.trusted.put fun _ he => Option.some.inj he ▸ ⟨readStored_trusts hd, fun _ hu => by cases hu⟩
  heard   := h.heard
  fresh i c hc hf := by
    rw [consumers_put] at hc
    split at hc
    · obtain rfl := Option.some.inj hc
      cases hf
    · exact h.fresh i c hc hf
  told tab' hi i c hc hct := by
    -- Where it is mounted, it is going to write.
    have hne : tab ≠ tab' := by
      rintro rfl
      obtain ⟨hdue, -⟩ := hi id _ (if_pos rfl) rfl
      cases hdue
    have hw : w.Idle parse pref tab' := fun j c' hj hjt => by
      refine hi j c' ((if_neg ?_).trans hj) hjt
      rintro rfl
      cases hn.symm.trans hj
    rw [consumers_put] at hc
    split at hc
    · obtain rfl := Option.some.inj hc
      exact absurd hct hne
    · exact h.told tab' hw i c hc hct

theorem Settling.unmounted (h : w.Settling parse pref)
    (hc : ∀ c ∈ w.consumers id, c.due = false ∧ w.aim parse pref c = c.state) :
    (w.put id none).Settling parse pref where
  trusted := h.trusted.put fun _ he => by cases he
  heard   := h.heard
  fresh i c hi hf := by
    rw [consumers_put] at hi
    split at hi
    · cases hi
    · exact h.fresh i c hi hf
  told tab hi i c hci hct := by
    have hw : w.Idle parse pref tab := fun j c' hj hjt => by
      by_cases he : j = id
      · exact hc c' (he ▸ hj)
      · exact hi j c' ((if_neg he).trans hj) hjt
    rw [consumers_put] at hci
    split at hci
    · cases hci
    · exact h.told tab hw i c hci hct

-- The events of the storage that a write brings to the other tabs are texts of values that are trusted.
theorem heard_setItem (h : w.Settling parse pref) (hv : pref.Trusts v) :
    ∀ tab', ∀ newValue ∈ (w.setItem tab <| some <| textOf v).inbox tab', ∃ v, pref.Trusts v ∧ newValue = some (textOf v) := by
  intro tab' newValue hn
  by_cases ht : tab' = tab
  · rw [ht, inbox_setItem_self] at hn
    exact h.heard tab newValue hn
  · rw [inbox_setItem ht] at hn
    split at hn
    · exact h.heard tab' newValue hn
    · rcases List.mem_append.mp hn with hn | hn
      · exact h.heard tab' newValue hn
      · exact ⟨v, hv, List.mem_singleton.mp hn⟩

theorem sent_setItem (hp : pref.Lawful parse) (hv : pref.Trusts v) (ht : tab' ≠ tab) (hs : w.stored ≠ some (textOf v)) :
    (w.setItem tab <| some <| textOf v).sent parse pref tab' = some v := by
  rw [sent, inbox_setItem ht, if_neg hs, List.getLast?_concat, Option.bind_some, Option.bind_some, hp.coerceStored hv]

-- No more than the updates that wait.
def OnlyQueues (f : Consumer → Consumer) : Prop :=
  ∀ c, ∃ queue, f c = { c with queue }

namespace OnlyQueues

variable {f : Consumer → Consumer}

theorem keeps_tab (hf : OnlyQueues f) : (f c).tab = c.tab := by
  obtain ⟨_, h⟩ := hf c
  rw [h]

theorem keeps_state (hf : OnlyQueues f) : (f c).state = c.state := by
  obtain ⟨_, h⟩ := hf c
  rw [h]

theorem keeps_due (hf : OnlyQueues f) : (f c).due = c.due := by
  obtain ⟨_, h⟩ := hf c
  rw [h]

theorem keeps_listening (hf : OnlyQueues f) : (f c).listening = c.listening := by
  obtain ⟨_, h⟩ := hf c
  rw [h]

theorem keeps_fresh (hf : OnlyQueues f) (h : ∀ id, ∀ c ∈ w.consumers id, c.due = false → c.listening = some c.state) :
    ∀ id, ∀ c ∈ (w.mapTab tab' f).consumers id, c.due = false → c.listening = some c.state := by
  intro i d hd hdue
  rw [consumers_mapTab] at hd
  obtain ⟨c, hc, rfl⟩ := Option.map_eq_some_iff.mp hd
  split at hdue
  case isTrue ht  =>
    rw [if_pos ht, hf.keeps_listening, hf.keeps_state]
    exact h i c hc <| hf.keeps_due ▸ hdue
  case isFalse ht =>
    rw [if_neg ht]
    exact h i c hc hdue

end OnlyQueues

theorem hear_cases (c : Consumer) (value : JsValue) :
    (c.hear value = c ∧ ∀ s ∈ c.listening, value.stringify = s.stringify) ∨
    (c.hear value = c.setState fun _ => value) ∧ ∃ s ∈ c.listening, value.stringify ≠ s.stringify := by
  rw [Consumer.hear]
  cases hl : c.listening
  case none => simp
  case some s =>
    by_cases hs : value.stringify = s.stringify
    · exact .inl ⟨by simp [hs], by simp [hs]⟩
    · exact .inr ⟨by simp [hs], s, rfl, hs⟩

theorem hear_onlyQueues : OnlyQueues (·.hear value) := by
  intro c
  rcases hear_cases c value with ⟨h, -⟩ | ⟨h, -⟩
  · exact ⟨_, h⟩
  · exact ⟨_, h⟩

@[simp]
theorem hear_state : (c.hear value).state = c.state :=
  hear_onlyQueues.keeps_state

@[simp]
theorem hear_tab : (c.hear value).tab = c.tab :=
  hear_onlyQueues.keeps_tab

theorem result_setState {update : JsValue → JsValue} : (c.setState update).result = update c.result := by
  simp only [Consumer.result, Consumer.setState, List.foldl_append, List.foldl_cons, List.foldl_nil]

-- A component that has heard a value, and will not write: it had the same text.
theorem textOf_of_heard (h : w.Settling parse pref) (hd : w.consumers id = some d) (hdue : d.due = false)
    (hs : ∀ u ∈ w.sent parse pref d.tab, u = v) (ha : (w.sent parse pref d.tab).getD (d.hear v).result = d.state) :
    textOf d.state = textOf v := by
  cases hsent : w.sent parse pref d.tab
  case some u =>
    rw [hsent, Option.getD_some] at ha
    rw [← ha, hs u hsent]
  case none =>
    rw [hsent, Option.getD_none] at ha
    rcases hear_cases d v with ⟨-, ht⟩ | ⟨hh, s, hls, ht⟩
    · rw [textOf, textOf, ht d.state <| h.fresh id d hd hdue]
    · rw [hh, result_setState] at ha
      rw [← ha]

theorem Settling.runEffects (hp : pref.Lawful parse) (h : w.Settling parse pref) :
    (w.runEffects id).Settling parse pref := by
  cases hc : w.consumers id
  case none =>
    rw [World.runEffects, hc]
    exact h
  case some c =>
    have hv := (h.trusted id c hc).state
    have hw : w.runEffects id = ((w.setItem c.tab <| some <| textOf c.state).emit c.tab c.state).put id
        (some { c.hear c.state with
          due       := false
          listening := some c.state }) := by
      simp only [World.runEffects, hc, emit, consumers_mapTab, consumers_setItem, Option.map_some, if_pos, hear_state]
    have hother (i : Nat) (hi : i ≠ id) : (w.runEffects id).consumers i =
        (w.consumers i).map fun d => if d.tab = c.tab then d.hear c.state else d := by
      rw [hw, consumers_put, if_neg hi, emit, consumers_mapTab, consumers_setItem]
    have hself : (w.runEffects id).consumers id = some { c.hear c.state with
        due       := false
        listening := some c.state } := by
      rw [hw, consumers_put, if_pos rfl]
    have hinbox : (w.runEffects id).inbox = (w.setItem c.tab <| some <| textOf c.state).inbox := by
      rw [hw]
      rfl
    have hstored : (w.runEffects id).stored = some (textOf c.state) := by
      rw [hw]
      exact stored_setItem
    constructor
    case trusted => exact h.trusted.runEffects
    case heard   =>
      rw [hinbox]
      exact heard_setItem h hv
    case fresh =>
      intro i d hd hf
      by_cases he : i = id
      · rw [he, hself] at hd
        obtain rfl := Option.some.inj hd
        rw [hear_state]
      · exact @OnlyQueues.keeps_fresh w c.tab _ (@hear_onlyQueues c.state) h.fresh i d ((hother i he).symm.trans hd) hf
    case told =>
      intro tab hi i d hd hdt
      rw [hstored]
      by_cases he : i = id
      · rw [he, hself] at hd
        obtain rfl := Option.some.inj hd
        rw [hear_state]
      · obtain ⟨hdue, haim⟩ := hi i d hd hdt
        rw [hother i he] at hd
        obtain ⟨d', hd', rfl⟩ := Option.map_eq_some_iff.mp hd
        by_cases ht : d'.tab = c.tab
        · simp only [if_pos ht, hear_onlyQueues.keeps_due, hear_state, hear_tab, aim] at hdue haim hdt ⊢
          have hsent : (w.runEffects id).sent parse pref d'.tab = w.sent parse pref d'.tab :=
            sent_congr <| by rw [hinbox, ht, inbox_setItem_self]
          rw [hsent] at haim
          refine congrArg some <| Eq.symm <| textOf_of_heard h hd' hdue (fun u hu => ?_) haim
          -- What waits for the tab is the value of the writer too, which will not write again.
          obtain ⟨-, haim⟩ := hi id _ hself <| hear_tab.trans <| ht.symm.trans hdt
          simp only [aim, hear_tab, hear_state, ← ht, hsent, Option.mem_def.mp hu, Option.getD_some] at haim
          exact haim
        · simp only [if_neg ht] at hdue haim hdt ⊢
          by_cases hs : w.stored = some (textOf c.state)
          · have hw : w.Idle parse pref d'.tab := fun j c' hj hjt => by
              have hjc : c'.tab ≠ c.tab := fun hjc => ht <| hjt.symm.trans hjc
              have hne : j ≠ id := by
                rintro rfl
                exact hjc <| congrArg Consumer.tab <| Option.some.inj <| hj.symm.trans hc
              obtain ⟨hdue, haim⟩ := hi j c' (by rw [hother j hne, hj, Option.map_some, if_neg hjc]; rfl) (hjt.trans hdt)
              rw [aim, sent_congr (w := w) <| by rw [hinbox, inbox_setItem hjc, if_pos hs]] at haim
              exact ⟨hdue, haim⟩
            rw [← hs]
            exact h.told d'.tab hw i d' hd' rfl
          · have hsent : (w.runEffects id).sent parse pref d'.tab = some c.state := by
              rw [sent_congr (congrFun hinbox d'.tab), sent_setItem hp hv ht hs]
            rw [aim, hsent, Option.getD_some] at haim
            rw [haim]

theorem Settling.flush (hp : pref.Lawful parse) {ids : List Nat} (h : w.Settling parse pref)
    (hd : ∀ id ∈ ids, ∃ c, w.consumers id = some c ∧ c.due = true) : (w.flush ids).Settling parse pref := by
  have hc : (ids.foldl World.cleanUp w).Settling parse pref := by
    induction ids generalizing w
    case nil            => exact h
    case cons id ids hi =>
      obtain ⟨c, hc, hdue⟩ := hd id List.mem_cons_self
      refine hi (h.cleanUp hc hdue) fun i hm => ?_
      obtain ⟨d, hd, hdue'⟩ := hd i <| List.mem_cons_of_mem _ hm
      by_cases he : i = id
      · exact ⟨{ d with listening := none }, by rw [World.cleanUp, consumers_put, if_pos he, ← he, hd]; rfl, hdue'⟩
      · exact ⟨d, (if_neg he).trans hd, hdue'⟩
  rw [World.flush]
  generalize ids.foldl World.cleanUp w = w' at hc
  clear hd
  induction ids generalizing w'
  case nil            => exact hc
  case cons id ids hi => exact hi _ <| hc.runEffects hp

theorem handle_cases (hp : pref.Lawful parse) (hv : pref.Trusts v) (c : Consumer) :
    (c.handleStorageChange parse pref (some <| textOf v) = c ∧ c.listening = none) ∨
    (c.handleStorageChange parse pref (some <| textOf v) = c.setState fun _ => v) := by
  rw [Consumer.handleStorageChange, Option.bind_some, hp.coerceStored hv]
  cases hl : c.listening
  case none   => exact .inl ⟨rfl, rfl⟩
  case some s => exact .inr rfl

theorem handle_onlyQueues {newValue : Option String} : OnlyQueues (·.handleStorageChange parse pref newValue) := by
  intro c
  dsimp only
  rw [Consumer.handleStorageChange]
  split
  · exact ⟨_, rfl⟩
  · exact ⟨_, rfl⟩

-- What was sent to a tab last, before it handles the first of the events.
theorem sent_cons {l : List (Option String)} (hp : pref.Lawful parse) (h : w.Settling parse pref) (hv : pref.Trusts v)
    (hi : w.inbox tab = some (textOf v) :: l) :
    w.sent parse pref tab = some ((l.getLast?.bind fun x => x.bind (coerceStored parse pref)).getD v) := by
  rw [sent, hi, List.getLast?_cons, Option.bind_some]
  cases hl : l.getLast?
  case none   => exact hp.coerceStored hv
  case some x =>
    obtain ⟨u, hu, rfl⟩ := h.heard tab x <| hi ▸ List.mem_cons_of_mem _ (List.mem_of_getLast? hl)
    simp only [Option.getD_some, Option.bind_some, hp.coerceStored hu]

theorem Settling.handled {newValue : Option String} {l : List (Option String)} (hp : pref.Lawful parse)
    (h : w.Settling parse pref) (hi : w.inbox tab = newValue :: l) :
    ({ w with inbox := fun t => if t = tab then l else w.inbox t }.mapTab tab
      (·.handleStorageChange parse pref newValue)).Settling parse pref := by
  obtain ⟨v, hv, rfl⟩ := h.heard tab newValue <| hi ▸ List.mem_cons_self
  constructor
  case trusted => exact Trusted.mapTab (w := { w with inbox := _ }) h.trusted fun c hc => hc.handleStorageChange
  case heard   =>
    intro t x hx
    simp only [mapTab] at hx
    split at hx
    · exact h.heard tab x <| hi ▸ List.mem_cons_of_mem _ hx
    · exact h.heard t x hx
  case fresh =>
    exact handle_onlyQueues.keeps_fresh (w := { w with inbox := _ }) h.fresh
  case told =>
    intro t ht i d hd hdt
    rw [consumers_mapTab] at hd
    obtain ⟨c, hci, rfl⟩ := Option.map_eq_some_iff.mp hd
    have hf := @handle_onlyQueues parse pref (some <| textOf v)
    have hw : w.Idle parse pref t := fun j c' hj hjt => by
      by_cases htab : c'.tab = tab
      · obtain ⟨hdue, haim⟩ := ht j (c'.handleStorageChange parse pref <| some <| textOf v)
          (by rw [consumers_mapTab, Option.mem_def.mp hj, Option.map_some, if_pos htab]; rfl) (hf.keeps_tab.trans hjt)
        have hdue : c'.due = false := hf.keeps_due.symm.trans hdue
        refine ⟨hdue, ?_⟩
        rcases handle_cases hp hv c' with ⟨-, hn⟩ | hh
        · cases hn.symm.trans <| h.fresh j c' hj hdue
        · rw [hh, aim, result_setState] at haim
          rw [aim, htab, sent_cons hp h hv hi, Option.getD_some, ← show _ = c'.state from haim]
          simp [sent, Consumer.setState, mapTab, htab]
      · have hne : t ≠ tab := fun he => htab <| hjt.trans he
        obtain ⟨hdue, haim⟩ := ht j c' (by rw [consumers_mapTab, Option.mem_def.mp hj, Option.map_some, if_neg htab]; rfl) hjt
        rw [aim, sent_congr (w := w) <| if_neg htab] at haim
        exact ⟨hdue, haim⟩
    by_cases htab : c.tab = tab
    · rw [if_pos htab] at hdt ⊢
      rw [hf.keeps_state]
      exact h.told t hw i c hci <| hf.keeps_tab.symm.trans hdt
    · rw [if_neg htab] at hdt ⊢
      exact h.told t hw i c hci hdt

end World

-- No component is changed, or taken from the page, while something waits for it, and nothing else writes.
def Unhurried (w : World) : Event → Prop
  | .set id _     => ∀ c ∈ w.consumers id, c.queue = []
  | .unmounted id => ∀ c ∈ w.consumers id, c.due = false ∧ c.queue = [] ∧ w.inbox c.tab = []
  | .foreign _ _  => False
  | _             => True

theorem settling_step (hp : pref.Lawful parse) (h : w.Settling parse pref) (ht : e.Typed pref) (hu : Unhurried w e)
    (hs : step parse pref w e = some w') : w'.Settling parse pref := by
  cases e
  case loaded tab =>
    obtain rfl := Option.some.inj hs
    exact h.loaded
  case mounted id tab =>
    rw [step] at hs
    split at hs
    · cases hs
    · obtain rfl := Option.some.inj hs
      exact h.mounted hp.default ‹_›
  case unmounted id =>
    obtain ⟨_, _, rfl⟩ := Option.map_eq_some_iff.mp hs
    refine h.unmounted fun c hc => ?_
    obtain ⟨hdue, hq, hi⟩ := hu c hc
    exact ⟨hdue, by rw [World.aim, World.sent, hi, Consumer.result, hq]; rfl⟩
  case set id update =>
    obtain ⟨c, hc, rfl⟩ := Option.map_eq_some_iff.mp hs
    refine h.put hc rfl ((h.trusted id c hc).setState ht) (fun hf => h.fresh id c hc hf) fun hdue haim => ?_
    refine ⟨⟨hdue, ?_⟩, rfl⟩
    have hr : c.result = c.state := by
      rw [Consumer.result, hu c hc]
      rfl
    rw [World.aim] at haim ⊢
    cases hsent : w.sent parse pref c.tab
    case none   => rw [Option.getD_none, hr]
    case some u => simpa [Consumer.setState, hsent] using haim
  case rendered id =>
    obtain ⟨c, hc, rfl⟩ := Option.map_eq_some_iff.mp hs
    have hr (hf : c.render.due = false) : c.due = false ∧ c.result = c.state := by
      rw [Consumer.render, Bool.or_eq_false_iff, Bool.not_eq_false'] at hf
      exact ⟨hf.1, objectIs_inv hf.2⟩
    refine h.put hc rfl ⟨(h.trusted id c hc).result, fun _ hu => by cases hu⟩ (fun hf => ?_) fun hf haim => ?_
    · exact (h.fresh id c hc (hr hf).1).trans <| congrArg some (hr hf).2.symm
    · obtain ⟨hdue, hres⟩ := hr hf
      refine ⟨⟨hdue, ?_⟩, hres⟩
      rw [World.aim] at haim ⊢
      rw [← hres]
      exact haim
  case flushed tab ids =>
    rw [step, Option.ite_none_right_eq_some] at hs
    obtain ⟨⟨-, hids⟩, hs⟩ := hs
    rw [← Option.some.inj hs]
    refine h.flush hp fun id hid => ?_
    have hany := hids id hid
    cases hc : w.consumers id
    case none   =>
      rw [hc] at hany
      cases hany
    case some c =>
      rw [hc, Option.any_some, Bool.and_eq_true] at hany
      exact ⟨c, rfl, hany.2⟩
  case handled tab =>
    rw [step] at hs
    split at hs
    · cases hs
    · obtain rfl := Option.some.inj hs
      exact h.handled hp ‹_›
  case foreign tab value => exact hu.elim

-- Nothing waits any more.
structure World.Quiescent (w : World) : Prop where
  inbox : ∀ id, ∀ c ∈ w.consumers id, w.inbox c.tab = []
  queue : ∀ id, ∀ c ∈ w.consumers id, c.queue = []
  due   : ∀ id, ∀ c ∈ w.consumers id, c.due = false

-- Then every component of every tab shows what is stored, and what a component would show that is mounted next.
theorem quiescent_agrees (hp : pref.Lawful parse) (ht : ∀ e ∈ es, e.Typed pref)
    (r : Run (step parse pref) (.initial stored) es w) (hu : Run.Along (step parse pref) (.initial stored) Unhurried es)
    (hq : w.Quiescent) :
    ∀ id, ∀ c ∈ w.consumers id, w.stored = some (textOf c.state) ∧ readStored parse pref w.stored = c.state := by
  have h : (∀ e ∈ es, e.Typed pref) → w.Settling parse pref := by
    refine @Run.history_along _ _ _ _ _ _ _ (fun es w => (∀ e ∈ es, e.Typed pref) → w.Settling parse pref)
      (fun _ => .initial) (fun es w₁ e w₂ _ hi hc hs ht => ?_) r hu
    exact settling_step hp (hi fun e he => ht e <| List.mem_append_left _ he) (ht e <| by simp) hc hs
  have h := h ht
  intro id c hc
  have hi : w.Idle parse pref c.tab := fun j d hd _ =>
    ⟨hq.due j d hd, by rw [World.aim, World.sent, hq.inbox j d hd, Consumer.result, hq.queue j d hd]; rfl⟩
  have hs := h.told c.tab hi id c hc rfl
  refine ⟨hs, ?_⟩
  rw [hs, readStored, hp.coerceStored (h.trusted id c hc).state, Option.getD_some]

theorem lawful_density : tableDensity.Lawful parseDensity where
  default  := trusts_density_iff.mpr <| .inl rfl
  back v h := by
    obtain rfl | rfl := trusts_density_iff.mp h
    · exact ⟨_, rfl, if_pos rfl⟩
    · exact ⟨_, rfl, (if_neg <| by decide +kernel).trans <| if_pos rfl⟩

def compact (_ : JsValue) : JsValue :=
  .string "compact"

-- Two tables come up in a tab and one in another, and the rows of the first are made compact.
def densityEvents : List Event := [
  .mounted 0 0, .mounted 1 0, .flushed 0 [0, 1], .loaded 1, .mounted 2 1, .flushed 1 [2],
  .set 0 compact, .rendered 0, .flushed 0 [0],
  .rendered 1, .flushed 0 [1],
  .handled 1, .rendered 2, .flushed 1 [2]]

theorem typed_densityEvents : ∀ e ∈ densityEvents, e.Typed tableDensity := by
  simp only [densityEvents, List.forall_mem_cons, Event.Typed, true_and]
  exact ⟨fun _ _ => trusts_density_iff.mpr <| .inr rfl, by simp⟩

section Absent

variable {i : Nat}

theorem absent_runEffects (h : w.consumers i = none) : (w.runEffects id).consumers i = none := by
  rw [World.runEffects]
  split
  case h_1      => exact h
  case h_2 c hc =>
    by_cases hi : i = id
    · cases (hi ▸ h).symm.trans hc
    · simp [World.emit, hi, h]

theorem absent_cleanUp (h : w.consumers i = none) : (w.cleanUp id).consumers i = none := by
  rw [World.cleanUp, World.consumers_put]
  split
  case isTrue hi => rw [← hi, h, Option.map_none]
  case isFalse   => exact h

theorem absent_flush {ids : List Nat} (h : w.consumers i = none) : (w.flush ids).consumers i = none :=
  have hc := @List.foldlRecOn _ _ (fun w => w.consumers i = none) ids World.cleanUp w h fun _ h _ _ => absent_cleanUp h
  @List.foldlRecOn _ _ (fun w => w.consumers i = none) ids World.runEffects _ hc fun _ h _ _ => absent_runEffects h

-- Who is not mounted is not there.
theorem absent_step (hs : step parse pref w e = some w') (he : ∀ tab, e ≠ .mounted i tab) (h : w.consumers i = none) :
    w'.consumers i = none := by
  cases e
  case loaded tab =>
    obtain rfl := Option.some.inj hs
    exact Option.filter_eq_none_iff.mpr fun c hc => by cases h.symm.trans hc
  case mounted id tab =>
    have hi : i ≠ id := fun hi => he tab <| hi ▸ rfl
    rw [step] at hs
    split at hs
    · cases hs
    · obtain rfl := Option.some.inj hs
      rw [World.consumers_put, if_neg hi, h]
  case unmounted id =>
    obtain ⟨_, _, rfl⟩ := Option.map_eq_some_iff.mp hs
    rw [World.consumers_put, h, ite_self]
  case set id update =>
    obtain ⟨c, hc, rfl⟩ := Option.map_eq_some_iff.mp hs
    have hi : i ≠ id := fun hi => by cases (hi ▸ h).symm.trans hc
    rw [World.consumers_put, if_neg hi, h]
  case rendered id =>
    obtain ⟨c, hc, rfl⟩ := Option.map_eq_some_iff.mp hs
    have hi : i ≠ id := fun hi => by cases (hi ▸ h).symm.trans hc
    rw [World.consumers_put, if_neg hi, h]
  case flushed tab ids =>
    obtain ⟨-, hs⟩ := Option.ite_none_right_eq_some.mp hs
    exact Option.some.inj hs ▸ absent_flush h
  case handled tab =>
    rw [step] at hs
    split at hs
    · cases hs
    · obtain rfl := Option.some.inj hs
      simp [h]
  case foreign tab value =>
    obtain rfl := Option.some.inj hs
    rw [World.consumers_setItem, h]

theorem absent_run (r : Run (step parse pref) (.initial stored) es w) (he : ∀ tab, .mounted i tab ∉ es) :
    w.consumers i = none := by
  induction r
  case nil => rfl
  case snoc e w₁ w₂ r hs hi =>
    refine absent_step hs (fun tab h => he tab ?_) <| hi fun tab h => he tab <| List.mem_append_left _ h
    rw [h]
    exact List.mem_append_right _ List.mem_cons_self

end Absent

theorem quiescent_densityEvents (h : Run.exec (step parseDensity tableDensity) (.initial none) densityEvents = some w) :
    w.Quiescent := by
  have hi : ∀ i, ∀ c ∈ w.consumers i, i = 0 ∨ i = 1 ∨ i = 2 := by
    intro i c hc
    by_contra hi
    have hn : w.consumers i = none := absent_run (Run.of_exec h) fun tab hm => by
      simp [densityEvents] at hm
      omega
    cases hn.symm.trans hc
  have hc : ∀ i, i = 0 ∨ i = 1 ∨ i = 2 → ∀ c ∈ w.consumers i, w.inbox c.tab = [] ∧ c.queue = [] ∧ c.due = false := by
    obtain rfl := Option.some.inj h
    rintro i (rfl | rfl | rfl) c hc <;> obtain rfl := Option.some.inj hc <;> exact ⟨rfl, rfl, rfl⟩
  exact ⟨fun i c h => (hc i (hi i c h) c h).1, fun i c h => (hc i (hi i c h) c h).2.1,
    fun i c h => (hc i (hi i c h) c h).2.2⟩

theorem along_densityEvents : Run.Along (step parseDensity tableDensity) (.initial none) Unhurried densityEvents := by
  refine Run.along_cons rfl trivial <| Run.along_cons rfl trivial <| Run.along_cons rfl trivial <|
    Run.along_cons rfl trivial <| Run.along_cons rfl trivial <| Run.along_cons rfl trivial <| Run.along_cons rfl ?_ <|
    Run.along_cons rfl trivial <| Run.along_cons rfl trivial <| Run.along_cons rfl trivial <|
    Run.along_cons rfl trivial <| Run.along_cons rfl trivial <| Run.along_cons rfl trivial <|
    Run.along_cons rfl trivial Run.along_nil
  intro c hc
  obtain rfl := Option.some.inj hc
  rfl

-- All three have the rows compact.
theorem quiescent_agrees_density : ∃ w, Run (step parseDensity tableDensity) (.initial none) densityEvents w ∧
    w.stored = some (textOf <| .string "compact") ∧
    ∀ id ∈ [0, 1, 2], ∃ c, w.consumers id = some c ∧ readStored parseDensity tableDensity w.stored = c.state := by
  have r := @Run.of_exec _ _ (step parseDensity tableDensity) (.initial none) _ densityEvents rfl
  have h := quiescent_agrees lawful_density typed_densityEvents r along_densityEvents (quiescent_densityEvents rfl)
  refine ⟨_, r, rfl, ?_⟩
  simp only [List.forall_mem_cons]
  exact ⟨⟨_, rfl, (h 0 _ rfl).2⟩, ⟨_, rfl, (h 1 _ rfl).2⟩, ⟨_, rfl, (h 2 _ rfl).2⟩, by simp⟩

end Agreement
end LocalStorage
