import Mathlib.Data.Finset.Card
import Mathlib.Data.Finset.Dedup
import Mathlib.Tactic.TypeStar

-- Walks through what may lead back to where it has been: a node with a key is entered once, by the first way that
-- leads to it.

structure Traversal (ν ω κ : Type*) where
  key      : ν → Option κ
  -- What stands at a node, if it is found in so many steps; at some nodes there is nothing.
  enter    : Nat → ν → Option (Option ω)
  children : ω → List ν

namespace Traversal

variable {ν ω κ σ : Type*}

section Relations

variable (t : Traversal ν ω κ)

def Opens (v : ν) (w : ω) : Prop :=
  ∃ n, t.enter n v = some (some w)

-- How many steps are made does not matter to what is found.
def Stable : Prop :=
  ∀ m n v o o', t.enter m v = some o → t.enter n v = some o' → o = o'

inductive Reach (roots : List ν) : ν → Prop
  | root {v} : v ∈ roots → Reach roots v
  | child {v w c} : Reach roots v → t.Opens v w → c ∈ t.children w → Reach roots c

-- A node of which everything below was recorded, or is behind a key that was seen.
inductive Done (seen : List κ) (ws : List ω) : ν → Prop
  | seen {v k} : t.key v = some k → k ∈ seen → Done seen ws v
  | entered {v} : (∀ w, t.Opens v w → w ∈ ws) → (∀ w, t.Opens v w → ∀ c ∈ t.children w, Done seen ws c) →
      Done seen ws v

def Entered (seen : List κ) (ws : List ω) (v : ν) : Prop :=
  ∀ w, t.Opens v w → w ∈ ws ∧ ∀ c ∈ t.children w, t.Done seen ws c

-- What a walk from some nodes leaves behind: what it recorded, and which keys it saw.
structure Walked (vs : List ν) (seen seen' : List κ) (ws : List ω) : Prop where
  grows : seen ⊆ seen'
  sound : ∀ w ∈ ws, ∃ u, t.Reach vs u ∧ t.Opens u w
  done  : ∀ v ∈ vs, t.Done seen' ws v
  fresh : ∀ k ∈ seen', k ∈ seen ∨ ∃ u, t.Reach vs u ∧ t.key u = some k ∧ t.Entered seen' ws u

end Relations

def mark (t : Traversal ν ω κ) (v : ν) (seen : List κ) : List κ :=
  (t.key v).toList ++ seen

section Walk

variable [DecidableEq κ] (t : Traversal ν ω κ) (record : ω → σ → σ)

def met (v : ν) (seen : List κ) : Bool :=
  (t.key v).any (· ∈ seen)

def walk : Nat → ν → List κ × σ → Option (List κ × σ)
  | 0, _, _         => none
  | n + 1, v, state =>
    if t.met v state.1 then some state
    else match t.enter n v with
      | none          => none
      | some none     => some (t.mark v state.1, state.2)
      | some (some w) =>
        (t.children w).foldlM (fun state c => walk n c state) (t.mark v state.1, record w state.2)

def walkAll (n : Nat) (vs : List ν) (state : List κ × σ) : Option (List κ × σ) :=
  vs.foldlM (fun state v => t.walk record n v state) state

-- What is recorded between the start and the end.
def Ends (vs : List ν) (state state' : List κ × σ) : Prop :=
  ∃ ws, state'.2 = ws.foldl (fun s w => record w s) state.2 ∧ t.Walked vs state.1 state'.1 ws

end Walk

variable {t : Traversal ν ω κ} {record : ω → σ → σ} {n : Nat} {v : ν} {vs us roots : List ν}
variable {seen seen' seen'' : List κ} {ws ws' : List ω} {w : ω} {state state' : List κ × σ}

theorem Reach.trans (h : t.Reach us v) (hv : ∀ u ∈ us, t.Reach vs u) : t.Reach vs v := by
  induction h
  case root hm           => exact hv _ hm
  case child ho hc hi => exact hi.child ho hc

theorem Done.mono (h : t.Done seen ws v) (hs : seen ⊆ seen') (hw : ws ⊆ ws') : t.Done seen' ws' v := by
  induction h
  case seen hk hm       => exact .seen hk <| hs hm
  case entered hm _ hi => exact .entered (fun w ho => hw <| hm w ho) hi

theorem Entered.mono (h : t.Entered seen ws v) (hs : seen ⊆ seen') (hw : ws ⊆ ws') : t.Entered seen' ws' v :=
  fun w ho => ⟨hw (h w ho).1, fun c hc => ((h w ho).2 c hc).mono hs hw⟩

namespace Walked

theorem nil : t.Walked [] seen seen [] where
  grows := List.Subset.refl seen
  sound := by simp
  done  := by simp
  fresh := fun _ hk => .inl hk

theorem append (h : t.Walked vs seen seen' ws) (h' : t.Walked us seen' seen'' ws') :
    t.Walked (vs ++ us) seen seen'' (ws ++ ws') where
  grows := List.Subset.trans h.grows h'.grows
  sound := by
    intro w hm
    rcases List.mem_append.mp hm with hm | hm
    · obtain ⟨u, hr, ho⟩ := h.sound w hm
      exact ⟨u, hr.trans fun _ hu => .root <| List.mem_append_left _ hu, ho⟩
    · obtain ⟨u, hr, ho⟩ := h'.sound w hm
      exact ⟨u, hr.trans fun _ hu => .root <| List.mem_append_right _ hu, ho⟩
  done := by
    intro v hm
    rcases List.mem_append.mp hm with hm | hm
    · exact (h.done v hm).mono h'.grows <| List.subset_append_left _ _
    · exact (h'.done v hm).mono (List.Subset.refl _) <| List.subset_append_right _ _
  fresh := by
    intro k hk
    rcases h'.fresh k hk with hk | ⟨u, hr, hu, he⟩
    · rcases h.fresh k hk with hk | ⟨u, hr, hu, he⟩
      · exact .inl hk
      · exact .inr ⟨u, hr.trans fun _ hm => .root <| List.mem_append_left _ hm, hu,
          he.mono h'.grows <| List.subset_append_left _ _⟩
    · exact .inr ⟨u, hr.trans fun _ hm => .root <| List.mem_append_right _ hm, hu,
        he.mono (List.Subset.refl _) <| List.subset_append_right _ _⟩

end Walked

theorem mem_mark {k : κ} : k ∈ t.mark v seen ↔ t.key v = some k ∨ k ∈ seen := by
  rw [mark, List.mem_append, Option.mem_toList]

variable [DecidableEq κ]

theorem met_iff : t.met v seen = true ↔ ∃ k, t.key v = some k ∧ k ∈ seen := by
  rw [met, Option.any_eq_true]
  simp

namespace Walked

theorem of_met (h : t.met v seen = true) : t.Walked [v] seen seen [] where
  grows := List.Subset.refl seen
  sound := by simp
  fresh := fun _ hk => .inl hk
  done  := by
    obtain ⟨k, hk, hm⟩ := met_iff.mp h
    simpa using Done.seen hk hm

omit [DecidableEq κ] in
-- A node that is entered is done, whether it has a key or not.
theorem enter (hg : t.mark v seen ⊆ seen') (he : t.Entered seen' ws v)
    (hs : ∀ w ∈ ws, ∃ u, t.Reach [v] u ∧ t.Opens u w)
    (hf : ∀ k ∈ seen', k ∈ t.mark v seen ∨ ∃ u, t.Reach [v] u ∧ t.key u = some k ∧ t.Entered seen' ws u) :
    t.Walked [v] seen seen' ws where
  grows := fun _ hk => hg <| mem_mark.mpr <| .inr hk
  sound := hs
  done  := by
    intro u hm
    obtain rfl := List.mem_singleton.mp hm
    cases hk : t.key u
    case none   => exact .entered (fun w ho => (he w ho).1) fun w ho => (he w ho).2
    case some k => exact .seen hk <| hg <| mem_mark.mpr <| .inl hk
  fresh := by
    intro k hk
    rcases hf k hk with hm | hu
    · rcases mem_mark.mp hm with hm | hm
      · exact .inr ⟨v, .root <| List.mem_singleton_self v, hm, he⟩
      · exact .inl hm
    · exact .inr hu

end Walked

theorem ends_walkAll (hw : ∀ v state state', t.walk record n v state = some state' → t.Ends record [v] state state')
    (h : t.walkAll record n vs state = some state') : t.Ends record vs state state' := by
  induction vs generalizing state
  case nil =>
    obtain rfl := Option.some.inj h
    exact ⟨[], rfl, .nil⟩
  case cons v vs hi =>
    rw [walkAll, List.foldlM_cons] at h
    obtain ⟨state₁, h₁, h₂⟩ := Option.bind_eq_some_iff.mp h
    obtain ⟨ws, hs, hw₁⟩ := hw v state state₁ h₁
    obtain ⟨ws', hs', hw₂⟩ := hi h₂
    exact ⟨ws ++ ws', by rw [List.foldl_append, ← hs, hs'], hw₁.append hw₂⟩

theorem ends_walk (hs : t.Stable) (h : t.walk record n v state = some state') : t.Ends record [v] state state' := by
  induction n generalizing v state state'
  case zero => cases h
  case succ n hi =>
    rw [walk] at h
    split at h
    case isTrue hm =>
      obtain rfl := Option.some.inj h
      exact ⟨[], rfl, .of_met hm⟩
    case isFalse =>
      split at h
      case h_1 => cases h
      case h_2 he =>
        obtain rfl := Option.some.inj h
        have hn (w : ω) (ho : t.Opens v w) : False := by
          obtain ⟨m, ho⟩ := ho
          cases hs _ _ _ _ _ he ho
        exact ⟨[], rfl, .enter (List.Subset.refl _) (fun w ho => (hn w ho).elim) (by simp) fun _ hk => .inl hk⟩
      case h_3 w he =>
        obtain ⟨ws, hf, hw⟩ := ends_walkAll (fun _ _ _ => hi) h
        have hr (u : ν) (hu : t.Reach (t.children w) u) : t.Reach [v] u :=
          hu.trans fun c hc => .child (.root <| List.mem_singleton_self v) ⟨n, he⟩ hc
        have hsub : ws ⊆ w :: ws := List.subset_cons_self w ws
        refine ⟨w :: ws, hf, .enter hw.grows ?_ ?_ ?_⟩
        · intro w' ho
          obtain ⟨m, ho⟩ := ho
          obtain rfl := Option.some.inj <| hs _ _ _ _ _ he ho
          exact ⟨List.mem_cons_self, fun c hc => (hw.done c hc).mono (List.Subset.refl _) hsub⟩
        · refine List.forall_mem_cons.mpr ⟨⟨v, .root <| List.mem_singleton_self v, n, he⟩, fun w' hm => ?_⟩
          obtain ⟨u, hu, ho⟩ := hw.sound w' hm
          exact ⟨u, hr u hu, ho⟩
        · intro k hk
          rcases hw.fresh k hk with hk | ⟨u, hu, hk, he⟩
          · exact .inl hk
          · exact .inr ⟨u, hr u hu, hk, he.mono (List.Subset.refl _) hsub⟩

section Covers

variable {R : ν → ν → Prop} {S : ω → ω → Prop}

-- Nodes that are alike lead to the same, and so do any two with one key.
structure Likeness (t : Traversal ν ω κ) (roots : List ν) (R : ν → ν → Prop) (S : ω → ω → Prop) : Prop where
  refl     : ∀ v, R v v
  trans    : ∀ u v u', R u v → R v u' → R u u'
  key      : ∀ u v k, t.Reach roots u → t.Reach roots v → t.key u = some k → t.key v = some k → R u v
  opens    : ∀ u v w, R u v → t.Opens v w → ∃ w', t.Opens u w' ∧ S w' w
  children : ∀ w' w, S w' w → ∀ c ∈ t.children w, ∃ c' ∈ t.children w', R c' c

omit [DecidableEq κ] in
theorem Done.entered_alike (hl : t.Likeness roots R S) (hw : t.Walked roots [] seen ws) (hr : t.Reach roots v)
    (h : t.Done seen ws v) : ∃ u, R u v ∧ t.Reach roots u ∧ t.Entered seen ws u := by
  cases h
  case seen k hm hk     =>
    rcases hw.fresh k hm with hm | ⟨u, hu, hku, he⟩
    · cases hm
    · exact ⟨u, hl.key u v k hu hr hku hk, hu, he⟩
  case entered hm hc => exact ⟨v, hl.refl v, hr, fun w ho => ⟨hm w ho, hc w ho⟩⟩

omit [DecidableEq κ] in
-- Of everything that can be reached one that is alike was recorded.
theorem Walked.covers (hl : t.Likeness roots R S) (hw : t.Walked roots [] seen ws) (hr : t.Reach roots v)
    (ho : t.Opens v w) : ∃ w' ∈ ws, S w' w := by
  have he : ∃ u, R u v ∧ t.Reach roots u ∧ t.Entered seen ws u := by
    clear ho
    induction hr
    case root hm => exact (hw.done _ hm).entered_alike hl hw <| .root hm
    case child v w c hr ho hc hi =>
      obtain ⟨u, hu, hru, heu⟩ := hi
      obtain ⟨w', ho', hs⟩ := hl.opens u v w hu ho
      obtain ⟨c', hc', hR⟩ := hl.children w' w hs c hc
      obtain ⟨u', hu', hru', heu'⟩ := ((heu w' ho').2 c' hc').entered_alike hl hw <| hru.child ho' hc'
      exact ⟨u', hl.trans u' c' c hu' hR, hru', heu'⟩
  obtain ⟨u, hu, -, heu⟩ := he
  obtain ⟨w', ho', hs⟩ := hl.opens u v w hu ho
  exact ⟨w', (heu w' ho').1, hs⟩

end Covers

section Returns

variable {rank : ν → Nat} {keys : List κ} {N M : Nat}

-- What keeps a walk from going on forever: every node is found in some number of steps, there are so many keys, and
-- without one the way down ends.
structure Bounded (t : Traversal ν ω κ) (roots : List ν) (rank : ν → Nat) (keys : List κ) (N M : Nat) : Prop where
  found : ∀ v n, t.Reach roots v → N ≤ n → (t.enter n v).isSome
  keyed : ∀ v k, t.Reach roots v → t.key v = some k → k ∈ keys
  below : ∀ v w c, t.Reach roots v → t.key v = none → t.Opens v w → c ∈ t.children w → rank c < rank v
  rank  : ∀ v, t.Reach roots v → rank v ≤ M

def unseen (keys seen : List κ) : Nat :=
  (keys.toFinset.filter (· ∉ seen)).card

theorem unseen_mono (h : seen ⊆ seen') : unseen keys seen' ≤ unseen keys seen :=
  Finset.card_le_card <| Finset.monotone_filter_right _ fun _ _ hn hm => hn <| h hm

theorem unseen_lt {k : κ} (hk : k ∈ keys) (hs : k ∉ seen) (hs' : k ∈ seen') (h : seen ⊆ seen') :
    unseen keys seen' < unseen keys seen := by
  refine Finset.card_lt_card <| Finset.ssubset_iff_subset_ne.mpr ⟨?_, fun he => ?_⟩
  · exact Finset.monotone_filter_right _ fun _ _ hn hm => hn <| h hm
  · have hm : k ∈ keys.toFinset.filter (· ∉ seen) := by simp [hk, hs]
    rw [← he] at hm
    simp [hs'] at hm

theorem walkAll_returns (h : ∀ c ∈ vs, ∀ st : List κ × σ, seen ⊆ st.1 →
      ∃ st', t.walk record n c st = some st' ∧ st.1 ⊆ st'.1) (hs : seen ⊆ state.1) :
    ∃ state', t.walkAll record n vs state = some state' ∧ state.1 ⊆ state'.1 := by
  induction vs generalizing state
  case nil => exact ⟨state, rfl, List.Subset.refl _⟩
  case cons v vs hi =>
    obtain ⟨st, hv, hg⟩ := h v List.mem_cons_self state hs
    obtain ⟨state', hvs, hg'⟩ := hi (fun c hc => h c <| List.mem_cons_of_mem v hc) (List.Subset.trans hs hg)
    refine ⟨state', ?_, List.Subset.trans hg hg'⟩
    rw [walkAll, List.foldlM_cons, hv]
    exact hvs

theorem walk_returns (hb : t.Bounded roots rank keys N M) (hr : t.Reach roots v)
    (hn : N + unseen keys state.1 * (M + 1) + rank v < n) :
    ∃ state', t.walk record n v state = some state' ∧ state.1 ⊆ state'.1 := by
  induction n generalizing v state
  case zero => omega
  case succ n hi =>
    have hg : state.1 ⊆ t.mark v state.1 := fun _ hk => mem_mark.mpr <| .inr hk
    rw [walk]
    split
    case isTrue => exact ⟨state, rfl, List.Subset.refl _⟩
    case isFalse hm =>
      split
      case h_1 he =>
        have hf := hb.found v n hr <| by omega
        rw [he] at hf
        cases hf
      case h_2 => exact ⟨_, rfl, hg⟩
      case h_3 w he =>
        have hc (c : ν) (hc : c ∈ t.children w) (st : List κ × σ) (hst : t.mark v state.1 ⊆ st.1) :
            ∃ st', t.walk record n c st = some st' ∧ st.1 ⊆ st'.1 := by
          refine hi (hr.child ⟨n, he⟩ hc) ?_
          -- Either the way down is shorter, or there is a key less.
          cases hk : t.key v
          case none   =>
            have hd := hb.below v w c hr hk ⟨n, he⟩ hc
            have hu : unseen keys st.1 * (M + 1) ≤ unseen keys state.1 * (M + 1) :=
              Nat.mul_le_mul_right _ <| unseen_mono <| List.Subset.trans hg hst
            omega
          case some k =>
            have hd := hb.rank c <| hr.child ⟨n, he⟩ hc
            have hns : k ∉ state.1 := fun hs => hm <| met_iff.mpr ⟨k, hk, hs⟩
            have hu : unseen keys st.1 + 1 ≤ unseen keys state.1 :=
              unseen_lt (hb.keyed v k hr hk) hns (hst <| mem_mark.mpr <| .inl hk) (List.Subset.trans hg hst)
            have hu' := Nat.mul_le_mul_right (M + 1) hu
            rw [Nat.add_mul, Nat.one_mul] at hu'
            omega
        have hw : ∃ state', t.walkAll record n (t.children w) (t.mark v state.1, record w state.2) = some state' ∧
            t.mark v state.1 ⊆ state'.1 :=
          walkAll_returns hc (List.Subset.refl _)
        obtain ⟨state', hw, hg'⟩ := hw
        exact ⟨state', hw, List.Subset.trans hg hg'⟩

theorem walkAll_roots_returns {s : σ} (hb : t.Bounded roots rank keys N M)
    (hn : N + keys.length * (M + 1) + M < n) : ∃ state', t.walkAll record n roots ([], s) = some state' := by
  have hu (st : List κ × σ) : unseen keys st.1 ≤ keys.length :=
    (Finset.card_filter_le _ _).trans <| List.toFinset_card_le keys
  have hw (v : ν) (hv : v ∈ roots) (st : List κ × σ) (_ : [] ⊆ st.1) :
      ∃ st', t.walk record n v st = some st' ∧ st.1 ⊆ st'.1 := by
    refine walk_returns hb (.root hv) ?_
    have hk := Nat.mul_le_mul_right (M + 1) <| hu st
    have hr := hb.rank v <| .root hv
    omega
  obtain ⟨state', h, -⟩ := walkAll_returns hw <| List.Subset.refl ([], s).1
  exact ⟨state', h⟩

end Returns

end Traversal
