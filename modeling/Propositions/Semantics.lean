import Propositions.Syntax
import Mathlib.Algebra.Group.Nat.Basic
import Mathlib.Logic.Function.Basic

/-!
# Truth-table semantics

The semantics collaborator `propositions/semantics.py`, modelled from the spec. A model is a
Python dictionary from variable names to truth values; it is modelled as a total function, and
`assignment.get(name, False)` is its value at `name`. `evaluate` reads only the variables of the
formula, so every statement over all total functions is one over every dictionary that assigns
them. `allModels` enumerates the models over a list of variables in the order of
`itertools.product([False, True], ...)`, and every model agrees on those variables with one of
them.
-/

namespace Propositions

/-- Modelled from the spec: a model, as the values `get(name, False)` returns. -/
abbrev Model := String → Bool

/-- The truth table of a binary operator. -/
def BinOp.apply : BinOp → Bool → Bool → Bool
  | .and, a, b => a && b
  | .or, a, b => a || b
  | .implies, a, b => !a || b
  | .xor, a, b => a != b
  | .iff, a, b => a == b
  | .nand, a, b => !(a && b)
  | .nor, a, b => !(a || b)

/-- Modelled from the spec: the truth value of a formula in a model. -/
@[simp]
def evaluate : Formula → Model → Bool
  | .var name, model => model name
  | .T, _ => true
  | .F, _ => false
  | .neg f, model => !evaluate f model
  | .bin op f g, model => op.apply (evaluate f model) (evaluate g model)

/-- Modelled from the spec: `all_models(vars)`, every model over `vars`, the first
variable varying slowest; a model is `False` off its variables. -/
def allModels : List String → List Model
  | [] => [fun _ => false]
  | v :: vs => [false, true].flatMap fun b => (allModels vs).map fun m => Function.update m v b

/-- `all_models(vars)` lists `2^len(vars)` models. -/
theorem length_allModels (vars : List String) : (allModels vars).length = 2 ^ vars.length := by
  induction vars with
  | nil => rfl
  | cons v vs ih =>
    simp only [allModels, List.flatMap_cons, List.flatMap_nil, List.append_nil,
      List.length_append, List.length_map, ih, List.length_cons, Nat.pow_succ]
    omega

/-- Every model agrees on `vars` with some model `allModels` lists. -/
theorem exists_mem_allModels (vars : List String) (model : Model) :
  ∃ m ∈ allModels vars, ∀ v ∈ vars, m v = model v
  := by
  induction vars with
  | nil => exact ⟨_, List.mem_singleton_self _, by simp⟩
  | cons v vs ih =>
    obtain ⟨m, hm, hagree⟩ := ih
    refine ⟨Function.update m v (model v), ?_, ?_⟩
    · simp only [allModels, List.mem_flatMap, List.mem_map]
      exact ⟨model v, by cases model v <;> simp, m, hm, rfl⟩
    · intro w hw
      by_cases hwv : w = v
      · subst hwv
        simp
      · simp only [Function.update_noteq hwv]
        exact hagree w (by simpa [hwv] using hw)

/-- `evaluate` reads only the variables of the formula. -/
theorem evaluate_congr (f : Formula) {m m' : Model} (h : ∀ v ∈ f.variables, m v = m' v) :
  evaluate f m = evaluate f m'
  := by
  induction f with
  | var name => simpa [Formula.variables] using h
  | T | F => rfl
  | neg f ih => simp [ih (by simpa [Formula.variables] using h)]
  | bin op f g ihf ihg =>
    simp only [Formula.variables, List.mem_union_iff] at h
    simp [ihf fun v hv => h v (.inl hv), ihg fun v hv => h v (.inr hv)]

/-- The search of `all_models` finds no satisfying model exactly when the formula has none. -/
theorem find?_allModels_eq_none_iff (f : Formula) :
  (allModels f.variables).find? (evaluate f ·) = none ↔ ¬∃ model, evaluate f model
  := by
  rw [List.find?_eq_none]
  constructor
  · rintro h ⟨model, hmodel⟩
    obtain ⟨m, hm, hagree⟩ := exists_mem_allModels f.variables model
    exact h m hm (by rwa [evaluate_congr f hagree])
  · exact fun h m _ hm => h ⟨m, hm⟩

end Propositions
