import Mathlib.Data.List.Basic
import Mathlib.Algebra.Order.Ring.Nat

/-!
# Runs of a partial step function

A system is a state and a step function that is defined on the actions that are enabled. A
run is a list of actions performed one after another. The second half counts the members of
a list that satisfy a predicate while members are replaced one at a time.
-/

namespace Harmonia.Library

section Runs

variable {σ α : Type}

/-- The state after a list of actions, when each of them is enabled in turn. -/
def run (step : σ → α → Option σ) : σ → List α → Option σ
  | state, [] => some state
  | state, action :: rest =>
    match step state action with
    | some next => run step next rest
    | none => none

/-- Every action of a run is allowed in the state it is taken in. -/
def Abides (step : σ → α → Option σ) (allowed : σ → α → Prop) : σ → List α → Prop
  | _, [] => True
  | state, action :: rest =>
    allowed state action ∧ ∀ next, step state action = some next → Abides step allowed next rest

/-- Every state of a run, from its first to its last, has a property. -/
def Always (step : σ → α → Option σ) (P : σ → Prop) (state : σ) (actions : List α) : Prop :=
  ∀ before after final, actions = before ++ after → run step state before = some final → P final

variable {step : σ → α → Option σ}

/-- A run whose first action leads to a state goes on from that state. -/
theorem run_cons {state next : σ} {action : α} (first : step state action = some next)
    (rest : List α) : run step state (action :: rest) = run step next rest := by
  simp only [run, first]

/-- A run that ends took its first action. -/
theorem run_cons_some {state final : σ} {action : α} {rest : List α}
    (ends : run step state (action :: rest) = some final) :
    ∃ next, step state action = some next ∧ run step next rest = some final := by
  simp only [run] at ends
  split at ends
  case h_1 next first => exact ⟨next, first, ends⟩
  case h_2 => cases ends

/-- Whether every action of a run is allowed can be computed along the run. -/
instance decideAbides {allowed : σ → α → Prop} [∀ s a, Decidable (allowed s a)] :
    ∀ (state : σ) (actions : List α), Decidable (Abides step allowed state actions)
  | _, [] => .isTrue trivial
  | state, action :: rest =>
    match first : step state action with
    | none => decidable_of_iff (allowed state action)
        ⟨fun ok => ⟨ok, fun next taken => by rw [first] at taken; cases taken⟩, And.left⟩
    | some next =>
      have : Decidable (Abides step allowed next rest) := decideAbides next rest
      decidable_of_iff (allowed state action ∧ Abides step allowed next rest)
        ⟨fun ok => ⟨ok.1, fun other taken => by rw [first] at taken; cases taken; exact ok.2⟩,
          fun ok => ⟨ok.1, ok.2 next first⟩⟩

/-- A property kept by every allowed step holds after every run of allowed steps. -/
theorem run_invariant {P : σ → Prop} {allowed : σ → α → Prop}
    (keeps : ∀ {s a s'}, P s → allowed s a → step s a = some s' → P s') :
    ∀ (actions : List α) {state final : σ}, P state → Abides step allowed state actions →
      run step state actions = some final → P final
  | [], state, final, holds, _, ends => by
    cases ends
    exact holds
  | action :: rest, state, final, holds, abides, ends => by
    obtain ⟨next, first, later⟩ := run_cons_some ends
    apply run_invariant keeps rest (keeps holds abides.1 first) _ later
    exact abides.2 next first

/-- Every start of a run of allowed steps consists of allowed steps. -/
theorem Abides.of_append {allowed : σ → α → Prop} :
    ∀ {before after : List α} {state : σ}, Abides step allowed state (before ++ after) →
      Abides step allowed state before
  | [], _, _, _ => trivial
  | _ :: _, _, _, abides => ⟨abides.1, fun next first => (abides.2 next first).of_append⟩

/-- Along a run of allowed steps an invariant of them always holds. -/
theorem Abides.always {P : σ → Prop} {allowed : σ → α → Prop} {state : σ} {actions : List α}
    (keeps : ∀ {s a s'}, P s → allowed s a → step s a = some s' → P s') (holds : P state)
    (abides : Abides step allowed state actions) : Always step P state actions := by
  intro before after final split ends
  subst split
  exact run_invariant keeps before holds abides.of_append ends

/-- A property that every forbidden step destroys and every allowed step keeps holds all
along a run that ends exactly when no step of it is forbidden. -/
theorem always_iff_abides {P Q : σ → Prop} {allowed : σ → α → Prop}
    (keeps : ∀ {s a s'}, Q s → P s → allowed s a → step s a = some s' → P s')
    (sound : ∀ {s a s'}, Q s → step s a = some s' → Q s')
    (breaks : ∀ {s a s'}, Q s → P s → step s a = some s' → P s' → allowed s a) :
    ∀ (actions : List α) {state final : σ}, Q state → P state →
      run step state actions = some final →
      (Always step P state actions ↔ Abides step allowed state actions)
  | [], state, _, _, holds, _ => by
    constructor
    · intro _
      trivial
    · intro _ before after final split ends
      have none : before = [] := (List.append_eq_nil_iff.mp split.symm).1
      subst none
      cases ends
      exact holds
  | action :: rest, state, _, good, holds, ends => by
    obtain ⟨next, first, later⟩ := run_cons_some ends
    constructor
    · intro always
      have after : P next := always [action] rest next rfl (by rw [run_cons first]; rfl)
      refine ⟨breaks good holds first after, ?_⟩
      intro other same
      obtain rfl : next = other := by rw [first] at same; exact Option.some.inj same
      apply (always_iff_abides keeps sound breaks rest (sound good first) after later).mp
      intro before behind final split reached
      apply always (action :: before) behind final (by rw [split]; rfl)
      rw [run_cons first]
      exact reached
    · intro abides
      have both : Always step (fun s => Q s ∧ P s) state (action :: rest) := by
        refine abides.always ?_ ⟨good, holds⟩
        intro s a s' both allowed taken
        exact ⟨sound both.1 taken, keeps both.1 both.2 allowed taken⟩
      intro before behind final split reached
      exact (both before behind final split reached).2

end Runs

section Counting

variable {τ : Type}

/-- Replacing a member moves it from the old predicate class to the new one. -/
theorem countP_set_add (p : τ → Bool) :
    ∀ {l : List τ} {i : Nat} {old : τ}, l[i]? = some old → ∀ new : τ,
      (l.set i new).countP p + (if p old then 1 else 0) =
        l.countP p + (if p new then 1 else 0)
  | [], _, _, found, _ => by cases found
  | head :: rest, 0, old, found, new => by
    obtain rfl : head = old := by simpa using found
    simp only [List.set_cons_zero, List.countP_cons]
    omega
  | head :: rest, i + 1, old, found, new => by
    have later := countP_set_add p (l := rest) (i := i) (by simpa using found) new
    simp only [List.set_cons_succ, List.countP_cons]
    omega

/-- A member that satisfies a predicate is counted. -/
theorem countP_pos_of_getElem? {p : τ → Bool} {l : List τ} {i : Nat} {member : τ}
    (found : l[i]? = some member) (holds : p member = true) : 0 < l.countP p := by
  apply List.countP_pos_iff.mpr
  exact ⟨member, List.mem_of_getElem? found, holds⟩

end Counting

end Harmonia.Library
