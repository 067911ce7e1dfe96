import Mathlib.Data.List.Induction
import Mathlib.Tactic.TypeStar

-- Runs of a machine whose step is a partial function of the state and an event. An event carries
-- everything the environment chose, so a state and an event have at most one successor, and a step
-- that is not enabled is `none`. A run is recorded by the events it took, oldest first.

inductive Run {σ ε : Type*} (step : σ → ε → Option σ) (s : σ) : List ε → σ → Prop
  | nil : Run step s [] s
  | snoc {es e s₁ s₂} : Run step s es s₁ → step s₁ e = some s₂ → Run step s (es ++ [e]) s₂

namespace Run

variable {σ ε : Type*} {step : σ → ε → Option σ} {s s₁ s₂ s₃ : σ} {e : ε} {es es₁ es₂ : List ε}

-- The state that a list of events leads to, for evaluating a concrete run.
def exec (step : σ → ε → Option σ) : σ → List ε → Option σ
  | s, []      => some s
  | s, e :: es => (step s e).bind (exec step · es)

theorem single (h : step s e = some s₁) : Run step s [e] s₁ :=
  .snoc .nil h

theorem trans (r₁ : Run step s es₁ s₁) (r₂ : Run step s₁ es₂ s₂) : Run step s (es₁ ++ es₂) s₂ := by
  induction r₂
  case nil          => simpa
  case snoc r hs hi => exact List.append_assoc .. ▸ hi.snoc hs

theorem cons (h : step s e = some s₁) (r : Run step s₁ es s₂) : Run step s (e :: es) s₂ :=
  (single h).trans r

theorem of_exec (h : exec step s es = some s₁) : Run step s es s₁ := by
  induction es generalizing s
  case nil => cases h; exact .nil
  case cons e es hi =>
    obtain ⟨_, he, h⟩ := Option.bind_eq_some_iff.mp h
    exact cons he (hi h)

theorem nil_eq (r : Run step s [] s₁) : s₁ = s := by
  generalize h : ([] : List ε) = es at r
  cases r
  case nil  => rfl
  case snoc => simp at h

theorem snoc_inv (r : Run step s (es ++ [e]) s₂) : ∃ s₁, Run step s es s₁ ∧ step s₁ e = some s₂ := by
  generalize h : es ++ [e] = es' at r
  cases r
  case nil => simp at h
  case snoc r hs =>
    obtain ⟨rfl, he⟩ := List.append_inj' h rfl
    obtain rfl := List.singleton_inj.mp he
    exact ⟨_, r, hs⟩

theorem deterministic (r₁ : Run step s es s₁) (r₂ : Run step s es s₂) : s₁ = s₂ := by
  induction r₁ generalizing s₂
  case nil => exact r₂.nil_eq.symm
  case snoc hs hi =>
    have ⟨_, r₂, hs₂⟩ := r₂.snoc_inv
    cases hi r₂
    exact Option.some.inj (hs.symm.trans hs₂)

theorem split (r : Run step s (es₁ ++ es₂) s₂) : ∃ s₁, Run step s es₁ s₁ ∧ Run step s₁ es₂ s₂ := by
  induction es₂ using List.reverseRecOn generalizing s₂
  case nil => exact ⟨_, List.append_nil es₁ ▸ r, .nil⟩
  case append_singleton es₂ e hi =>
    have ⟨_, r, hs⟩ := snoc_inv (List.append_assoc es₁ es₂ [e] ▸ r)
    have ⟨_, r₁, r₂⟩ := hi r
    exact ⟨_, r₁, r₂.snoc hs⟩

-- The state before and the state after the event at a given place of a run.
theorem split_at (r : Run step s (es₁ ++ e :: es₂) s₃) :
    ∃ s₁ s₂, Run step s es₁ s₁ ∧ step s₁ e = some s₂ ∧ Run step s₂ es₂ s₃ := by
  have r : Run step s ((es₁ ++ [e]) ++ es₂) s₃ := by simpa using r
  have ⟨s₂, r₁, r₂⟩ := r.split
  have ⟨s₁, r₁, hs⟩ := r₁.snoc_inv
  exact ⟨s₁, s₂, r₁, hs, r₂⟩

theorem cons_inv (r : Run step s (e :: es) s₂) : ∃ s₁, step s e = some s₁ ∧ Run step s₁ es s₂ := by
  have ⟨s₀, s₁, r₀, hs, r₁⟩ := split_at (List.nil_append (e :: es) ▸ r)
  obtain rfl := r₀.nil_eq
  exact ⟨s₁, hs, r₁⟩

theorem of_prefix (r : Run step s es s₂) (h : es₁ <+: es) : ∃ s₁, Run step s es₁ s₁ := by
  obtain ⟨_, rfl⟩ := h
  have ⟨s₁, r, _⟩ := r.split
  exact ⟨s₁, r⟩

theorem invariant {P : σ → Prop} (h₀ : P s) (hs : ∀ s₁ e s₂, P s₁ → step s₁ e = some s₂ → P s₂)
    (r : Run step s es s₁) : P s₁ := by
  induction r
  case nil          => exact h₀
  case snoc h hi    => exact hs _ _ _ hi h

-- A given event of a run followed by one more is that one, or an event of the run.
theorem snoc_eq_append_cons {e' : ε} (h : es ++ [e] = es₁ ++ e' :: es₂) :
    (es = es₁ ∧ e = e' ∧ es₂ = []) ∨ (∃ es₃, es₂ = es₃ ++ [e] ∧ es = es₁ ++ e' :: es₃) := by
  rcases List.eq_nil_or_concat es₂ with rfl | ⟨es₃, e'', rfl⟩
  · have ⟨h₁, h₂⟩ := List.append_inj' h rfl
    exact .inl ⟨h₁, List.singleton_inj.mp h₂, rfl⟩
  · rw [List.concat_eq_append, ← List.cons_append, ← List.append_assoc] at h
    have ⟨h₁, h₂⟩ := List.append_inj' h rfl
    exact .inr ⟨es₃, by rw [List.concat_eq_append, List.singleton_inj.mp h₂], h₁⟩

-- Every step of the run is taken in a state, and by an event, that meet `C`.
def Along (step : σ → ε → Option σ) (s : σ) (C : σ → ε → Prop) (es : List ε) : Prop :=
  ∀ es₁ e es₂ s₁, es = es₁ ++ e :: es₂ → Run step s es₁ s₁ → C s₁ e

-- Some step of the run is taken in a state, and by an event, that meet `C`.
def Sometime (step : σ → ε → Option σ) (s : σ) (C : σ → ε → Prop) (es : List ε) : Prop :=
  ∃ es₁ e es₂ s₁, es = es₁ ++ e :: es₂ ∧ Run step s es₁ s₁ ∧ C s₁ e

-- Every step of the run meets `P`, which may look at the events before the step.
def EachStep (step : σ → ε → Option σ) (s : σ) (P : List ε → σ → ε → σ → Prop) (es : List ε) :
    Prop :=
  ∀ es₁ e es₂ s₁ s₂, es = es₁ ++ e :: es₂ → Run step s es₁ s₁ → step s₁ e = some s₂ →
    P es₁ s₁ e s₂

variable {C : σ → ε → Prop} {P Q : List ε → σ → ε → σ → Prop}

theorem eachStep_congr (h : EachStep step s (fun es₁ s₁ e s₂ => P es₁ s₁ e s₂ ↔ Q es₁ s₁ e s₂) es) :
    EachStep step s P es ↔ EachStep step s Q es where
  mp hp es₁ e es₂ s₁ s₂ he r hs  := (h es₁ e es₂ s₁ s₂ he r hs).mp <| hp es₁ e es₂ s₁ s₂ he r hs
  mpr hq es₁ e es₂ s₁ s₂ he r hs := (h es₁ e es₂ s₁ s₂ he r hs).mpr <| hq es₁ e es₂ s₁ s₂ he r hs

theorem eachStep_iff_along (r : Run step s es s₁) :
    EachStep step s (fun _ s₁ e _ => C s₁ e) es ↔ Along step s C es := by
  constructor
  case mp =>
    rintro h es₁ e es₂ s₁ rfl r₁
    obtain ⟨s₁', s₂, r₁', hs, _⟩ := r.split_at
    obtain rfl := r₁.deterministic r₁'
    exact h es₁ e es₂ s₁ s₂ rfl r₁ hs
  case mpr => exact fun a es₁ e es₂ s₁ _ he r₁ _ => a es₁ e es₂ s₁ he r₁

theorem along_nil : Along step s C [] := by
  intro es₁ e es₂ s₁ h
  simp at h

theorem along_cons (h : step s e = some s₁) (hc : C s e) (a : Along step s₁ C es) :
    Along step s C (e :: es) := by
  rintro (_ | ⟨e₁, es₁⟩) e' es₂ s' he r
  · obtain ⟨rfl, rfl⟩ : e = e' ∧ es = es₂ := by simpa using he
    exact r.nil_eq ▸ hc
  · obtain ⟨rfl, rfl⟩ : e = e₁ ∧ es = es₁ ++ e' :: es₂ := by simpa using he
    obtain ⟨s₂, hs, r₂⟩ := r.cons_inv
    obtain rfl : s₁ = s₂ := Option.some.inj <| h.symm.trans hs
    exact a es₁ e' es₂ s' rfl r₂

theorem along_snoc_iff (r : Run step s es s₁) :
    Along step s C (es ++ [e]) ↔ Along step s C es ∧ C s₁ e := by
  constructor
  case mp =>
    intro a
    refine ⟨?_, a es e [] s₁ rfl r⟩
    rintro es₁ e' es₂ s' rfl r'
    exact a es₁ e' (es₂ ++ [e]) s' (by simp) r'
  case mpr =>
    rintro ⟨a, h⟩ es₁ e' es₂ s' he r'
    obtain ⟨rfl, rfl, _⟩ | ⟨es₃, _, rfl⟩ := snoc_eq_append_cons he
    · exact r.deterministic r' ▸ h
    · exact a es₁ e' es₃ s' rfl r'

-- Whether the steps of a concrete run meet a condition that can be computed.
def check (step : σ → ε → Option σ) (c : σ → ε → Bool) : σ → List ε → Bool
  | _, []      => true
  | s, e :: es => c s e && (step s e).all (check step c · es)

theorem along_of_check {c : σ → ε → Bool} (h : check step c s es = true) :
    Along step s (fun s₁ e => c s₁ e = true) es := by
  induction es generalizing s
  case nil => exact along_nil
  case cons e es hi =>
    simp only [check, Bool.and_eq_true] at h
    cases hs : step s e
    case some s₁ => exact along_cons hs h.left <| hi <| by simpa [hs] using h.right
    case none =>
      rintro (_ | ⟨e₁, es₁⟩) e' es₂ s' he r
      · obtain ⟨rfl, _⟩ : e = e' ∧ es = es₂ := by simpa using he
        exact r.nil_eq ▸ h.left
      · obtain ⟨rfl, _⟩ : e = e₁ ∧ es = es₁ ++ e' :: es₂ := by simpa using he
        obtain ⟨_, h, _⟩ := r.cons_inv
        simp [hs] at h

theorem Along.of_prefix (a : Along step s C es) (h : es₁ <+: es) : Along step s C es₁ := by
  obtain ⟨es', rfl⟩ := h
  rintro es₂ e es₃ s₁ rfl r
  exact a es₂ e (es₃ ++ es') s₁ (by simp) r

theorem not_sometime_nil : ¬Sometime step s C [] := by
  rintro ⟨es₁, e, es₂, s₁, h, _⟩
  simp at h

theorem sometime_snoc_iff (r : Run step s es s₁) :
    Sometime step s C (es ++ [e]) ↔ Sometime step s C es ∨ C s₁ e := by
  constructor
  case mp =>
    rintro ⟨es₁, e', es₂, s', he, r', h⟩
    obtain ⟨rfl, rfl, _⟩ | ⟨es₃, _, rfl⟩ := snoc_eq_append_cons he
    · exact .inr (r.deterministic r' ▸ h)
    · exact .inl ⟨es₁, e', es₃, s', rfl, r', h⟩
  case mpr =>
    rintro (⟨es₁, e', es₂, s', rfl, r', h⟩ | h)
    · exact ⟨es₁, e', es₂ ++ [e], s', by simp, r', h⟩
    · exact ⟨es, e, [], s₁, rfl, r, h⟩

theorem history_along {P : List ε → σ → Prop} (h₀ : P [] s)
    (hs : ∀ es s₁ e s₂, Run step s es s₁ → P es s₁ → C s₁ e → step s₁ e = some s₂ →
      P (es ++ [e]) s₂)
    (r : Run step s es s₁) (a : Along step s C es) : P es s₁ := by
  induction r
  case nil => exact h₀
  case snoc r h hi =>
    have ⟨a, hc⟩ := (along_snoc_iff r).mp a
    exact hs _ _ _ _ r (hi a) hc h

end Run
