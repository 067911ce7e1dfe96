import LoxilbUi.Library.FirstByKey
import LoxilbUi.Pages.DashboardLayout
import Mathlib.Tactic.Linarith

-- A saved layout is amended by what it lacks and no more: its usable items stay as they are, and each
-- card that is missing from it comes below.

namespace Dashboard

variable {items : List JsValue} {defaults kept missing : List Layout} {l d : Layout} {v : JsValue}
variable {wanted : List String} {pass : Pass} {y : Decimal} {k : String}

section Item

theorem value_of_ofValue? (h : Layout.ofValue? v = some l) : l.value = v := by
  cases v
  case object ms =>
    rw [Layout.ofValue?] at h
    split at h
    case isTrue  => exact Option.some.inj h ▸ rfl
    case isFalse => contradiction
  all_goals contradiction

theorem ofValue?_value (l : Layout) : Layout.ofValue? l.value = some l := by
  rw [Layout.value, Layout.ofValue?, dif_pos l.wellFormed]

@[simp]
theorem moveTo_get : (d.moveTo y).value.get k = if k = "y" then .number (.finite y) else d.value.get k := by
  simp only [Layout.value, Layout.moveTo, JsValue.get, Dict.lookup_put]
  split <;> rfl

@[simp]
theorem moveTo_i : (d.moveTo y).i = d.i := by
  simp [Layout.i]

@[simp]
theorem moveTo_y : (d.moveTo y).y = y := by
  simp [Layout.y, Layout.number]

@[simp]
theorem moveTo_h : (d.moveTo y).h = d.h := by
  simp [Layout.h, Layout.number]

end Item

def layoutValue (ls : List Layout) : JsValue :=
  .array <| ls.map Layout.value

-- The items of a saved layout that are well formed and wanted.
def usable (wanted : List String) (items : List JsValue) : List Layout :=
  (items.filterMap Layout.ofValue?).filter (·.i ∈ wanted)

section Usable

theorem usable_nil : usable wanted [] = [] :=
  rfl

theorem usable_cons_of_none (h : Layout.ofValue? v = none) :
    usable wanted (v :: items) = usable wanted items := by
  rw [usable, List.filterMap_cons_none h, usable]

theorem usable_cons_of_some (h : Layout.ofValue? v = some l) :
    usable wanted (v :: items) =
      if l.i ∈ wanted then l :: usable wanted items else usable wanted items := by
  rw [usable, List.filterMap_cons_some h, List.filter_cons, usable]
  simp

theorem usable_sublist : ((usable wanted items).map Layout.value).Sublist items := by
  induction items
  case nil => exact .slnil
  case cons v items hi =>
    cases h : Layout.ofValue? v
    case none =>
      rw [usable_cons_of_none h]
      exact hi.cons v
    case some l =>
      rw [usable_cons_of_some h]
      split
      case isTrue  => exact value_of_ofValue? h ▸ hi.cons_cons l.value
      case isFalse => exact hi.cons v

theorem usable_layout (h : ∀ l ∈ kept, l.i ∈ wanted) : usable wanted (kept.map Layout.value) = kept := by
  induction kept
  case nil => rfl
  case cons l kept hi =>
    have ⟨hl, hk⟩ := List.forall_mem_cons.mp h
    rw [List.map_cons, usable_cons_of_some (ofValue?_value l), if_pos hl, hi hk]

end Usable

section Keep

-- Of no use to a layout that has the cards in `seen`.
def Useless (wanted seen : List String) (v : JsValue) : Prop :=
  ∀ l, Layout.ofValue? v = some l → l.i ∈ wanted → l.i ∈ seen

variable {seen : List String}

theorem useless_or (wanted seen : List String) (v : JsValue) :
    Useless wanted seen v ∨ ∃ l, Layout.ofValue? v = some l ∧ l.i ∈ wanted ∧ l.i ∉ seen := by
  by_cases h : Useless wanted seen v
  case pos => exact .inl h
  case neg =>
    simp only [Useless, not_forall] at h
    obtain ⟨l, hl, hw, hs⟩ := h
    exact .inr ⟨l, hl, hw, hs⟩

theorem keepItem_useless (h : Useless wanted pass.seen v) :
    keepItem wanted pass v = { pass with dropped := true } := by
  rw [keepItem]
  cases hv : Layout.ofValue? v
  case none   => rfl
  case some l =>
    have hl : l.i ∉ wanted ∨ l.i ∈ pass.seen := by
      by_cases hw : l.i ∈ wanted
      · exact .inr <| h l hv hw
      · exact .inl hw
    simp only [if_pos hl]

theorem keepItem_usable (hv : Layout.ofValue? v = some l) (hw : l.i ∈ wanted) (hs : l.i ∉ pass.seen) :
    keepItem wanted pass v =
      { pass with seen := l.i :: pass.seen, kept := pass.kept ++ [l] } := by
  simp only [keepItem, hv, hw, hs, not_true_eq_false, or_self, if_false]

theorem usable_useless (h : Useless wanted seen v) :
    usable wanted (v :: items) = usable wanted items ∨
    ∃ l, l.i ∈ seen ∧ usable wanted (v :: items) = l :: usable wanted items := by
  cases hv : Layout.ofValue? v
  case none   => exact .inl <| usable_cons_of_none hv
  case some l =>
    rw [usable_cons_of_some hv]
    split
    case isTrue hw => exact .inr ⟨l, h l hv hw, rfl⟩
    case isFalse   => exact .inl rfl

-- What stands first under its key when the cards in `seen` are there.
def firstsOf (wanted seen : List String) (items : List JsValue) : List Layout :=
  FirstByKey.firsts Layout.i seen <| usable wanted items

theorem firstsOf_useless (h : Useless wanted seen v) :
    firstsOf wanted seen (v :: items) = firstsOf wanted seen items := by
  obtain he | ⟨l, hl, he⟩ := @usable_useless items _ _ _ h
  · rw [firstsOf, he, firstsOf]
  · rw [firstsOf, he, FirstByKey.firsts, if_pos hl, firstsOf]

theorem firstsOf_usable (hv : Layout.ofValue? v = some l) (hw : l.i ∈ wanted) (hs : l.i ∉ seen) :
    firstsOf wanted seen (v :: items) = l :: firstsOf wanted (l.i :: seen) items := by
  rw [firstsOf, usable_cons_of_some hv, if_pos hw, FirstByKey.firsts, if_neg hs, firstsOf]

theorem firstsOf_sublist : ((firstsOf wanted seen items).map Layout.value).Sublist items :=
  (FirstByKey.firsts_sublist.map Layout.value).trans usable_sublist

-- What a pass over `items` makes of `pass`.
structure Kept (wanted : List String) (items : List JsValue) (pass after : Pass) : Prop where
  kept    : after.kept = pass.kept ++ firstsOf wanted pass.seen items
  seen    : ∀ k, k ∈ after.seen ↔ k ∈ pass.seen ∨ k ∈ (firstsOf wanted pass.seen items).map Layout.i
  dropped : after.dropped = false ↔
    pass.dropped = false ∧ (firstsOf wanted pass.seen items).map Layout.value = items

theorem kept_nil : Kept wanted [] pass pass where
  kept    := by simp [firstsOf, usable_nil, FirstByKey.firsts]
  seen    := by simp [firstsOf, usable_nil, FirstByKey.firsts]
  dropped := by simp [firstsOf, usable_nil, FirstByKey.firsts]

theorem kept_useless {after : Pass} (h : Useless wanted pass.seen v)
    (hk : Kept wanted items { pass with dropped := true } after) :
    Kept wanted (v :: items) pass after where
  kept    := by rw [firstsOf_useless h, hk.kept]
  seen    := by rw [firstsOf_useless h]; exact hk.seen
  dropped := by
    -- What is kept of the rest is fewer than all.
    have hl := (@firstsOf_sublist items wanted pass.seen).length_le
    have hn : (firstsOf wanted pass.seen items).map Layout.value ≠ v :: items := by
      intro he
      rw [he, List.length_cons] at hl
      omega
    simp [hk.dropped, firstsOf_useless h, hn]

theorem kept_usable {after : Pass} (hv : Layout.ofValue? v = some l) (hw : l.i ∈ wanted)
    (hs : l.i ∉ pass.seen)
    (hk : Kept wanted items { pass with seen := l.i :: pass.seen, kept := pass.kept ++ [l] } after) :
    Kept wanted (v :: items) pass after where
  kept    := by simp [hk.kept, firstsOf_usable hv hw hs]
  seen k  := by
    rw [hk.seen, firstsOf_usable hv hw hs, List.map_cons, List.mem_cons, List.mem_cons]
    tauto
  dropped := by
    rw [hk.dropped, firstsOf_usable hv hw hs, List.map_cons, value_of_ofValue? hv, List.cons_inj_right]

theorem kept_foldl (pass : Pass) : Kept wanted items pass (items.foldl (keepItem wanted) pass) := by
  induction items generalizing pass
  case nil => exact kept_nil
  case cons v items hi =>
    rw [List.foldl_cons]
    obtain h | ⟨l, hv, hw, hs⟩ := useless_or wanted pass.seen v
    · rw [keepItem_useless h]
      exact kept_useless h <| hi _
    · rw [keepItem_usable hv hw hs]
      exact kept_usable hv hw hs <| hi _

theorem firstsOf_eq_nil (h : firstsOf wanted [] items = []) : usable wanted items = [] := by
  cases hu : usable wanted items
  case nil => rfl
  case cons l ls => simp [firstsOf, hu, FirstByKey.firsts] at h

theorem mem_wanted_of_mem_firstsOf (h : l ∈ firstsOf wanted seen items) : l.i ∈ wanted := by
  have h := FirstByKey.firsts_sublist.subset h
  simpa using (List.mem_filter.mp h).right

theorem firstsOf_layout (hn : (kept.map Layout.i).Nodup) (h : ∀ l ∈ kept, l.i ∈ wanted) :
    firstsOf wanted [] (kept.map Layout.value) = kept := by
  rw [firstsOf, usable_layout h, FirstByKey.firsts_eq_self hn (by simp)]

end Keep

-- `d` starts where `l` ends or lower.
def Below (l d : Layout) : Prop :=
  l.y.value + l.h.value ≤ d.y.value

theorem below_iff : Below l d ↔ d.y.lt (l.y.add l.h) = false := by
  rw [Below, ← not_lt, ← Decimal.value_add, ← Decimal.lt_iff, Bool.not_eq_true]

instance : Decidable (Below l d) :=
  decidable_of_iff _ below_iff.symm

def Overlaps (a b : Layout) : Prop :=
  a.x.value < b.x.value + b.w.value ∧ b.x.value < a.x.value + a.w.value ∧
  a.y.value < b.y.value + b.h.value ∧ b.y.value < a.y.value + a.h.value

theorem Below.not_overlaps (h : Below l d) : ¬Overlaps l d :=
  fun ⟨_, _, _, ho⟩ => absurd h <| not_le.mpr ho

section Stack

-- One below the other, from `y` on.
def stack : Decimal → List Layout → List Layout
  | _, []      => []
  | y, d :: ds => d.moveTo y :: stack (y.add d.h) ds

theorem foldl_appendCard : (missing.foldl appendCard (kept, y)).1 = kept ++ stack y missing := by
  induction missing generalizing kept y
  case nil => simp [stack]
  case cons d ds hi => simp only [List.foldl_cons, appendCard, hi, stack, List.append_assoc,
    List.singleton_append]

theorem map_i_stack : (stack y missing).map Layout.i = missing.map Layout.i := by
  induction missing generalizing y
  case nil => rfl
  case cons d ds hi => rw [stack, List.map_cons, List.map_cons, hi, moveTo_i]

theorem le_of_mem_stack (hh : ∀ d ∈ missing, 0 ≤ d.h.value) (h : l ∈ stack y missing) :
    y.value ≤ l.y.value := by
  induction missing generalizing y
  case nil => contradiction
  case cons d ds hi =>
    have ⟨hd, hs⟩ := List.forall_mem_cons.mp hh
    obtain rfl | h := List.mem_cons.mp h
    · rw [moveTo_y]
    · have hy := hi hs h
      rw [Decimal.value_add] at hy
      linarith

theorem pairwise_stack (hh : ∀ d ∈ missing, 0 ≤ d.h.value) : (stack y missing).Pairwise Below := by
  induction missing generalizing y
  case nil => exact .nil
  case cons d ds hi =>
    have ⟨_, hs⟩ := List.forall_mem_cons.mp hh
    refine .cons (fun l hl => ?_) (hi hs)
    have hy := le_of_mem_stack hs hl
    rwa [Below, moveTo_y, moveTo_h, ← Decimal.value_add]

theorem le_foldl_bottom (m : Decimal) :
    let bottom := kept.foldl (fun max item => max.max <| item.y.add item.h) m
    m.value ≤ bottom.value ∧ ∀ l ∈ kept, l.y.value + l.h.value ≤ bottom.value := by
  induction kept generalizing m
  case nil => simp
  case cons l ls hi =>
    have ⟨hm, hs⟩ := hi <| m.max <| l.y.add l.h
    rw [Decimal.value_max, Decimal.value_add] at hm
    refine ⟨(le_max_left _ _).trans hm, List.forall_mem_cons.mpr ⟨(le_max_right _ _).trans hm, hs⟩⟩

theorem le_bottomOf (hl : l ∈ kept) : l.y.value + l.h.value ≤ (bottomOf kept).value :=
  (le_foldl_bottom _).right l hl

end Stack

section Reconcile

-- The first usable item of each key.
def keptOf (defaults : List Layout) (items : List JsValue) : List Layout :=
  firstsOf (defaults.map Layout.i) [] items

def missingOf (defaults kept : List Layout) : List Layout :=
  defaults.filter fun d => d.i ∉ kept.map Layout.i

theorem reconcile_of_unusable (h : keptOf defaults items = []) :
    reconcileDashboardLayout (.array items) defaults = ⟨defaults, true⟩ := by
  have hk := (@kept_foldl items (defaults.map Layout.i) ⟨[], [], false⟩).kept
  rw [List.nil_append] at hk
  simp only [reconcileDashboardLayout, hk]
  rw [← keptOf, h]
  rfl

theorem reconcile_of_usable (h : keptOf defaults items ≠ []) :
    let kept := keptOf defaults items
    let r := reconcileDashboardLayout (.array items) defaults
    r.layout = kept ++ stack (bottomOf kept) (missingOf defaults kept) ∧
    (r.changed = false ↔ kept.map Layout.value = items ∧ missingOf defaults kept = []) := by
  have hp := @kept_foldl items (defaults.map Layout.i) ⟨[], [], false⟩
  generalize hpass : items.foldl (keepItem <| defaults.map Layout.i) ⟨[], [], false⟩ = pass at hp
  have hk : pass.kept = keptOf defaults items := hp.kept
  have hm : (defaults.filter fun d => d.i ∉ pass.seen) = missingOf defaults (keptOf defaults items) :=
    List.filter_congr fun d _ => by simp [hp.seen, keptOf, firstsOf]
  have he : (keptOf defaults items).isEmpty = false := by simpa using h
  have hd : pass.dropped = false ↔ (keptOf defaults items).map Layout.value = items := by
    simpa [keptOf] using hp.dropped
  simp only [reconcileDashboardLayout, hpass, hm, hk, he, Bool.false_eq_true, if_false,
    foldl_appendCard, true_and, Bool.or_eq_false_iff, hd, Bool.not_eq_false', List.isEmpty_iff]

theorem mem_missingOf : d ∈ missingOf defaults kept ↔ d ∈ defaults ∧ d.i ∉ kept.map Layout.i := by
  simp [missingOf]

-- Every card once.
theorem perm_amended (hn : (defaults.map Layout.i).Nodup) :
    ((keptOf defaults items).map Layout.i ++
      (missingOf defaults (keptOf defaults items)).map Layout.i).Perm (defaults.map Layout.i) := by
  refine (List.perm_ext_iff_of_nodup ?_ hn).mpr fun k => ?_
  case refine_1 =>
    refine FirstByKey.nodup_firsts.append (hn.sublist <| List.filter_sublist.map _) ?_
    intro k hk hm
    obtain ⟨d, hd, rfl⟩ := List.mem_map.mp hm
    exact (mem_missingOf.mp hd).right hk
  case refine_2 =>
    simp only [List.mem_append, List.mem_map]
    constructor
    case mp =>
      rintro (⟨l, hl, rfl⟩ | ⟨d, hd, rfl⟩)
      · exact List.mem_map.mp <| mem_wanted_of_mem_firstsOf hl
      · exact ⟨d, (mem_missingOf.mp hd).left, rfl⟩
    case mpr =>
      rintro ⟨d, hd, rfl⟩
      by_cases hk : d.i ∈ (keptOf defaults items).map Layout.i
      · exact .inl <| List.mem_map.mp hk
      · exact .inr ⟨d, mem_missingOf.mpr ⟨hd, hk⟩, rfl⟩

theorem keys_reconcile (hn : (defaults.map Layout.i).Nodup) (saved : JsValue) :
    ((reconcileDashboardLayout saved defaults).layout.map Layout.i).Perm (defaults.map Layout.i) := by
  cases saved
  case array items =>
    by_cases h : keptOf defaults items = []
    case pos => rw [reconcile_of_unusable h]
    case neg =>
      rw [(reconcile_of_usable h).left, List.map_append, map_i_stack]
      exact perm_amended hn
  all_goals rfl

-- Nothing is left to do on a layout that has every card once.
theorem reconcile_layoutValue (hd : defaults ≠ []) (hn : (defaults.map Layout.i).Nodup)
    {layout : List Layout} (hp : (layout.map Layout.i).Perm (defaults.map Layout.i)) :
    reconcileDashboardLayout (layoutValue layout) defaults = ⟨layout, false⟩ := by
  have hk : keptOf defaults (layout.map Layout.value) = layout :=
    firstsOf_layout (hp.nodup_iff.mpr hn) fun l hl => hp.subset <| List.mem_map_of_mem hl
  have hne : keptOf defaults (layout.map Layout.value) ≠ [] := by
    rw [hk]
    rintro rfl
    exact hd <| by simpa using hp.symm
  have hm : missingOf defaults layout = [] := by
    refine List.filter_eq_nil_iff.mpr fun d hd => ?_
    simpa using hp.symm.subset <| List.mem_map_of_mem hd
  have ⟨hl, hc⟩ := reconcile_of_usable hne
  rw [hk, hm, stack, List.append_nil] at hl
  rw [hk] at hc
  exact ReconcileResult.ext hl <| hc.mpr ⟨rfl, hm⟩

theorem changed_iff (hd : defaults ≠ []) (hn : (defaults.map Layout.i).Nodup) (saved : JsValue) :
    let r := reconcileDashboardLayout saved defaults
    r.changed = false ↔ layoutValue r.layout = saved := by
  constructor
  case mp =>
    cases saved
    case array items =>
      by_cases h : keptOf defaults items = []
      case pos => simp [reconcile_of_unusable h]
      case neg =>
        have ⟨hl, hc⟩ := reconcile_of_usable h
        intro hf
        have ⟨hk, hm⟩ := hc.mp hf
        rw [hl, hm, stack, List.append_nil, layoutValue, hk]
    all_goals simp [reconcileDashboardLayout]
  case mpr =>
    intro he
    have hr := reconcile_layoutValue hd hn <| keys_reconcile hn saved
    rw [he] at hr
    rw [hr]

end Reconcile

-- What a saved layout with a usable item becomes.
structure Amended (items : List JsValue) (defaults layout kept appended : List Layout) : Prop where
  split : layout = kept ++ appended
  order : (kept.map Layout.value).Sublist items
  first : ∀ k, RowLookup.find Layout.i kept k =
    RowLookup.find Layout.i (usable (defaults.map Layout.i) items) k
  below : (∀ d ∈ defaults, 0 ≤ d.h.value) →
    (∀ l ∈ kept, ∀ d ∈ appended, Below l d) ∧ appended.Pairwise Below
  apart : (∀ d ∈ defaults, 0 ≤ d.h.value) →
    (∀ l ∈ kept, ∀ d ∈ appended, ¬Overlaps l d) ∧ appended.Pairwise fun l d => ¬Overlaps l d

theorem below_amended (hh : ∀ d ∈ defaults, 0 ≤ d.h.value) :
    let appended := stack (bottomOf kept) (missingOf defaults kept)
    (∀ l ∈ kept, ∀ d ∈ appended, Below l d) ∧ appended.Pairwise Below := by
  have hm : ∀ d ∈ missingOf defaults kept, 0 ≤ d.h.value := fun d hd => hh d (mem_missingOf.mp hd).left
  exact ⟨fun l hl d hd => (le_bottomOf hl).trans <| le_of_mem_stack hm hd, pairwise_stack hm⟩

theorem amended_reconcile (hu : usable (defaults.map Layout.i) items ≠ []) :
    ∃ kept appended,
      Amended items defaults (reconcileDashboardLayout (.array items) defaults).layout kept appended := by
  have h : keptOf defaults items ≠ [] := fun h => hu <| firstsOf_eq_nil h
  refine ⟨_, _, (reconcile_of_usable h).left, firstsOf_sublist, ?first, below_amended, ?apart⟩
  case first => exact fun k => FirstByKey.find_firsts (by simp)
  case apart =>
    intro hh
    have hb := @below_amended defaults (keptOf defaults items) hh
    exact ⟨fun l hl d hd => (hb.left l hl d hd).not_overlaps, hb.right.imp Below.not_overlaps⟩

theorem reconcileDashboardLayout_amends (hd : defaults ≠ []) (hn : (defaults.map Layout.i).Nodup)
    (saved : JsValue) :
    let r := reconcileDashboardLayout saved defaults
    (r.layout.map Layout.i).Perm (defaults.map Layout.i) ∧
    (∀ items, saved = .array items → usable (defaults.map Layout.i) items ≠ [] →
      ∃ kept appended, Amended items defaults r.layout kept appended) ∧
    (r.changed = false ↔ layoutValue r.layout = saved) ∧
    reconcileDashboardLayout (layoutValue r.layout) defaults = ⟨r.layout, false⟩ := by
  refine ⟨keys_reconcile hn saved, ?_, changed_iff hd hn saved, ?_⟩
  · rintro items rfl hu
    exact amended_reconcile hu
  · exact reconcile_layoutValue hd hn <| keys_reconcile hn saved

def card (key : String) (x y w h : Int) : Layout where
  members := [("i", .string key), ("x", .number <| .finite <| .ofInt x),
    ("y", .number <| .finite <| .ofInt y), ("w", .number <| .finite <| .ofInt w),
    ("h", .number <| .finite <| .ofInt h)]
  wellFormed := by simp [isLayoutItem, isObject, isText, isFiniteNumber, JsValue.get, List.lookup_cons]

def twoCards : List Layout :=
  [card "a" 0 0 6 2, card "b" 6 0 6 2]

-- Of two items the first is usable, and the card that is missing comes below it.
def oneOfTwo : JsValue :=
  .array [(card "b" 0 3 4 1).value, .null]

theorem oneOfTwo_amended :
    twoCards ≠ [] ∧ (twoCards.map Layout.i).Nodup ∧
    (reconcileDashboardLayout oneOfTwo twoCards).layout.map (fun l => (l.i, l.y)) =
      [("b", .ofInt 3), ("a", .ofInt 4)] ∧
    reconcileDashboardLayout (layoutValue (reconcileDashboardLayout oneOfTwo twoCards).layout) twoCards =
      ⟨(reconcileDashboardLayout oneOfTwo twoCards).layout, false⟩ := by
  have hd : twoCards ≠ [] := by simp [twoCards]
  have hn : (twoCards.map Layout.i).Nodup := by decide
  exact ⟨hd, hn, by decide, (reconcileDashboardLayout_amends hd hn oneOfTwo).right.right.right⟩

-- The second card reaches upwards, and the third would start where it ends.
def upwards : List Layout :=
  [card "a" 0 0 6 2, card "b" 0 2 6 (-5), card "c" 0 4 6 1]

theorem not_below_all :
    upwards ≠ [] ∧ (upwards.map Layout.i).Nodup ∧
    ∃ a b c, (reconcileDashboardLayout (layoutValue [card "a" 0 0 6 10]) upwards).layout = [a, b, c] ∧
      [a, b, c].map Layout.i = ["a", "b", "c"] ∧ ¬Below a c := by
  exact ⟨by simp [upwards], by decide, _, _, _, rfl, by decide, by decide⟩

end Dashboard
