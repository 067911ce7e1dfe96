import Mathlib.Logic.Basic
import Mathlib.Tactic.TypeStar

-- Programs that call on the world outside. A call is answered, or it raises and the program is over. What a
-- program may do is told by its transcripts, whatever the world answers.

inductive Script (γ β ε α : Type)
  | done (r : Except ε α)
  | call (c : γ) (k : β → Script γ β ε α)

namespace Script

variable {γ β ε α α' : Type}

def bind (x : Script γ β ε α) (f : α → Script γ β ε α') : Script γ β ε α' :=
  match x with
  | done (.ok a)    => f a
  | done (.error e) => done (.error e)
  | call c k        => call c fun b => (k b).bind f

instance : Monad (Script γ β ε) where
  pure a := done (.ok a)
  bind   := bind

instance : MonadLift (Except ε) (Script γ β ε) where
  monadLift := done

def raise (e : ε) : Script γ β ε α :=
  done (.error e)

-- The calls of a run with their answers, oldest first, and its result.
inductive Runs : Script γ β ε α → List (γ × Except ε β) → Except ε α → Prop
  | done {r} : Runs (done r) [] r
  | answered {c k b t r} : Runs (k b) t r → Runs (call c k) ((c, .ok b) :: t) r
  | raised {c k e} : Runs (call c k) [(c, .error e)] (.error e)

section Rules

variable {x : Script γ β ε α} {f : α → Script γ β ε α'} {t : List (γ × Except ε β)} {r : Except ε α}
variable {r' : Except ε α'} {c : γ} {k : β → Script γ β ε α} {e : ε} {a : α}

theorem runs_done {s : Except ε α} : (done s : Script γ β ε α).Runs t r ↔ t = [] ∧ r = s := by
  constructor
  case mp =>
    intro h
    cases h
    exact ⟨rfl, rfl⟩
  case mpr =>
    rintro ⟨rfl, rfl⟩
    exact .done

theorem runs_call : (call c k).Runs t r ↔
    (∃ e, t = [(c, .error e)] ∧ r = .error e) ∨ ∃ b t', t = (c, .ok b) :: t' ∧ (k b).Runs t' r := by
  constructor
  case mp =>
    intro h
    cases h
    case answered h => exact .inr ⟨_, _, rfl, h⟩
    case raised     => exact .inl ⟨_, rfl, rfl⟩
  case mpr =>
    rintro (⟨e, rfl, rfl⟩ | ⟨b, t', rfl, h⟩)
    · exact .raised
    · exact .answered h

-- A program that is one call.
theorem runs_single {s : Except ε β} {t : List (γ × Except ε β)} :
    (call c fun b => done (.ok b) : Script γ β ε β).Runs t s ↔ t = [(c, s)] := by
  rw [runs_call]
  constructor
  case mp =>
    rintro (⟨e, rfl, rfl⟩ | ⟨b, t', rfl, h⟩)
    · rfl
    · obtain ⟨rfl, rfl⟩ := runs_done.mp h
      rfl
  case mpr =>
    rintro rfl
    cases s
    case error e => exact .inl ⟨e, rfl, rfl⟩
    case ok b    => exact .inr ⟨b, [], rfl, .done⟩

-- A sequence of two programs ends in the first, or runs the second behind it.
theorem runs_bind : (x >>= f).Runs t r' ↔
    (∃ e, r' = .error e ∧ x.Runs t (.error e)) ∨
    ∃ a t₁ t₂, t = t₁ ++ t₂ ∧ x.Runs t₁ (.ok a) ∧ (f a).Runs t₂ r' := by
  change (x.bind f).Runs t r' ↔ _
  induction x generalizing t
  case done s =>
    cases s
    case error e =>
      simp only [bind, runs_done, Except.error.injEq, reduceCtorEq, and_false, false_and, exists_false, or_false]
      exact ⟨fun ⟨ht, hr⟩ => ⟨e, hr, ht, rfl⟩, fun ⟨e', hr, ht, he⟩ => ⟨ht, he ▸ hr⟩⟩
    case ok a =>
      simp only [bind, runs_done, Except.ok.injEq, reduceCtorEq, and_false, exists_false, false_or]
      constructor
      case mp  => exact fun h => ⟨a, [], t, rfl, ⟨rfl, rfl⟩, h⟩
      case mpr =>
        rintro ⟨_, _, _, rfl, ⟨rfl, rfl⟩, h⟩
        exact h
  case call c k hi =>
    simp only [bind, runs_call, hi]
    constructor
    case mp =>
      rintro (⟨e, rfl, rfl⟩ | ⟨b, t', rfl, ⟨e, rfl, h⟩ | ⟨a, t₁, t₂, rfl, h₁, h₂⟩⟩)
      · exact .inl ⟨e, rfl, .inl ⟨e, rfl, rfl⟩⟩
      · exact .inl ⟨e, rfl, .inr ⟨b, t', rfl, h⟩⟩
      · exact .inr ⟨a, (c, .ok b) :: t₁, t₂, rfl, .inr ⟨b, t₁, rfl, h₁⟩, h₂⟩
    case mpr =>
      rintro (⟨e, rfl, ⟨e', rfl, he⟩ | ⟨b, t', rfl, h⟩⟩ | ⟨a, t₁, t₂, rfl, ⟨e, _, he⟩ | ⟨b, t', rfl, h₁⟩, h₂⟩)
      · obtain rfl := Except.error.inj he
        exact .inl ⟨e, rfl, rfl⟩
      · exact .inr ⟨b, t', rfl, .inl ⟨e, rfl, h⟩⟩
      · cases he
      · exact .inr ⟨b, t' ++ t₂, rfl, .inr ⟨a, t', t₂, rfl, h₁, h₂⟩⟩

theorem runs_bind_ok {b : α'} : (x >>= f).Runs t (.ok b) ↔
    ∃ a t₁ t₂, t = t₁ ++ t₂ ∧ x.Runs t₁ (.ok a) ∧ (f a).Runs t₂ (.ok b) := by
  simp only [runs_bind, reduceCtorEq, false_and, exists_false, false_or]

theorem runs_pure : (pure a : Script γ β ε α).Runs t r ↔ t = [] ∧ r = .ok a :=
  runs_done

theorem runs_raise : (raise e : Script γ β ε α).Runs t r ↔ t = [] ∧ r = .error e :=
  runs_done

theorem runs_lift {s : Except ε α} : (liftM s : Script γ β ε α).Runs t r ↔ t = [] ∧ r = s :=
  runs_done

theorem runs_lift_bind {s : Except ε α} : ((liftM s : Script γ β ε α) >>= f).Runs t r' ↔
    (∃ e, s = .error e ∧ t = [] ∧ r' = .error e) ∨ ∃ a, s = .ok a ∧ (f a).Runs t r' := by
  cases s
  case error e =>
    simp only [reduceCtorEq, false_and, exists_false, or_false, Except.error.injEq]
    exact runs_done.trans ⟨fun ⟨ht, hr⟩ => ⟨e, rfl, ht, hr⟩, fun ⟨e', he, ht, hr⟩ => ⟨ht, he ▸ hr⟩⟩
  case ok a =>
    simp only [reduceCtorEq, false_and, exists_false, false_or, Except.ok.injEq]
    exact ⟨fun h => ⟨a, rfl, h⟩, fun ⟨a', ha, h⟩ => ha ▸ h⟩

theorem runs_lift_bind_ok {s : Except ε α} {b : α'} : ((liftM s : Script γ β ε α) >>= f).Runs t (.ok b) ↔
    ∃ a, s = .ok a ∧ (f a).Runs t (.ok b) := by
  simp only [runs_lift_bind, reduceCtorEq, and_false, exists_false, false_or]

end Rules

section Only

variable {x : Script γ β ε α} {f : α → Script γ β ε α'} {P : γ → Prop}

-- Every call that the program may make meets `P`.
def Only (P : γ → Prop) (x : Script γ β ε α) : Prop :=
  ∀ t r, x.Runs t r → ∀ entry ∈ t, P entry.1

theorem only_done {s : Except ε α} : Only P (done s : Script γ β ε α) := by
  intro t r h
  obtain ⟨rfl, -⟩ := runs_done.mp h
  simp

theorem only_call {c : γ} {k : β → Script γ β ε α} (hc : P c) (hk : ∀ b, Only P (k b)) : Only P (call c k) := by
  intro t r h
  rcases runs_call.mp h with ⟨e, rfl, -⟩ | ⟨b, t', rfl, h'⟩
  · simpa using hc
  · exact List.forall_mem_cons.mpr ⟨hc, hk b t' r h'⟩

theorem only_bind (hx : Only P x) (hf : ∀ a, Only P (f a)) : Only P (x >>= f) := by
  intro t r h
  rcases runs_bind.mp h with ⟨e, -, h'⟩ | ⟨a, t₁, t₂, rfl, h₁, h₂⟩
  · exact hx t _ h'
  · exact List.forall_mem_append.mpr ⟨hx t₁ _ h₁, hf a t₂ r h₂⟩

end Only

-- The calls are made in the order of the list, one after the other was answered.
inductive Follows : List γ → List (γ × Except ε β) → Prop
  | nil {cs} : Follows cs []
  | last {c cs answer} : Follows (c :: cs) [(c, answer)]
  | next {c cs b t} : Follows cs t → Follows (c :: cs) ((c, .ok b) :: t)

theorem Follows.mem {cs : List γ} {t : List (γ × Except ε β)} (h : Follows cs t) : ∀ entry ∈ t, entry.1 ∈ cs := by
  induction h
  case nil       => simp
  case last      => simp
  case next h hi => exact List.forall_mem_cons.mpr ⟨List.mem_cons_self, fun entry hm => List.mem_cons_of_mem _ (hi entry hm)⟩

-- Nothing is called before the first of the list was answered.
theorem Follows.first {c : γ} {cs : List γ} {t : List (γ × Except ε β)} (h : Follows (c :: cs) t) :
    ∀ entry ∈ t, entry.1 = c ∨ ∃ b, (c, .ok b) ∈ t := by
  cases h
  case nil    => simp
  case last   => simp
  case next b t h => exact fun _ _ => .inr ⟨b, List.mem_cons_self⟩

end Script
