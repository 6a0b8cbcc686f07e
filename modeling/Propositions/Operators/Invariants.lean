import Propositions.Operators

/-!
# What the conversions keep and what they change

Two facts about the five conversions of `propositions/operators.py` beyond their truth tables.

The conversions keep the variables of a formula. The one name they add is the `p` with which
`convert` of `to_not_and_or` spells the constants `T` and `F`, and every later recursion keeps the
variables of what it rewrites. So the result is well formed whenever the argument is.

`to_not_and_or` and `to_not_and` return a formula unchanged exactly when it already has only
their operators, so converting twice is converting once. The other three rewrite formulas that
already have only their operators: `to_nand` and `to_implies_false` leave only variables
unchanged, and `to_implies_not` only formulas built from variables by `~`. No stage of any
conversion shrinks a formula, counted in nodes (`Formula.size`), and each of the three turns a
node of its own operators (`-&` for `to_nand`, `->` for the other two) into a strictly larger
one, which rules out every other fixed point.

* `conversion_variables`: the variables of each conversion's result, and its well-formedness.
* `conversion_eq_self_iff`: which formulas each conversion returns unchanged; in particular
  `toNotAndOr_toNotAndOr` and `toNotAnd_toNotAnd`: converting twice is converting once.
-/

namespace Propositions

/-- `f` contains the constant `T` or `F`. -/
def Formula.hasConstant : Formula → Bool
  | .var _ => false
  | .T | .F => true
  | .neg f => f.hasConstant
  | .bin _ f g => f.hasConstant || g.hasConstant

/-- No constants, and no operator beyond `~`. -/
@[simps]
def Basis.notOnly : Basis := ⟨false, false, true, fun _ => false⟩

/-! ### Variables -/

theorem isWellFormed_iff_variables (f : Formula) :
  f.isWellFormed ↔ ∀ v ∈ f.variables, isVariable v
  := by
  induction f with
  | var name => simp [Formula.variables]
  | T | F => simp [Formula.variables]
  | neg f ih => simpa [Formula.variables] using ih
  | bin op f g ihf ihg => simp [Formula.variables, ihf, ihg, or_imp, forall_and]

/-- Whatever its operator, `convert` builds a binary node from the converted operands alone. -/
theorem mem_variables_convert_bin (op : BinOp) (f g : Formula) (v : String) :
  v ∈ (toNotAndOr.convert (.bin op f g)).variables ↔
    v ∈ (toNotAndOr.convert f).variables ∨ v ∈ (toNotAndOr.convert g).variables
  := by
  cases op <;> simp [toNotAndOr.convert, Formula.variables, or_comm]

theorem mem_variables_convert (f : Formula) (v : String) :
  v ∈ (toNotAndOr.convert f).variables ↔ v ∈ f.variables ∨ (v = "p" ∧ f.hasConstant)
  := by
  induction f with
  | var name => simp [toNotAndOr.convert, Formula.variables, Formula.hasConstant]
  | T | F => simp [toNotAndOr.convert, Formula.variables, Formula.hasConstant]
  | neg f ih => simpa [toNotAndOr.convert, Formula.variables, Formula.hasConstant] using ih
  | bin op f g ihf ihg =>
    rw [mem_variables_convert_bin, ihf, ihg]
    simp only [Formula.variables, List.mem_union_iff, Formula.hasConstant, Bool.or_eq_true]
    rw [and_or_left, or_or_or_comm]

theorem mem_variables_replaceOr (f : Formula) (v : String) :
  v ∈ (toNotAnd.replaceOr f).variables ↔ v ∈ f.variables
  := by
  induction f with
  | var | T | F => rfl
  | neg f ih => simpa [toNotAnd.replaceOr, Formula.variables] using ih
  | bin op f g ihf ihg => cases op <;> simp [toNotAnd.replaceOr, Formula.variables, ihf, ihg]

theorem mem_variables_replaceWithNand (f : Formula) (v : String) :
  v ∈ (toNand.replaceWithNand f).variables ↔ v ∈ f.variables
  := by
  induction f with
  | var | T | F => rfl
  | neg f ih => simpa [toNand.replaceWithNand, Formula.variables] using ih
  | bin op f g ihf ihg => cases op <;> simp [toNand.replaceWithNand, Formula.variables, ihf, ihg]

theorem mem_variables_replaceAndOr (f : Formula) (v : String) :
  v ∈ (toImpliesNot.replaceAndOr f).variables ↔ v ∈ f.variables
  := by
  induction f with
  | var | T | F => rfl
  | neg f ih => simpa [toImpliesNot.replaceAndOr, Formula.variables] using ih
  | bin op f g ihf ihg =>
    cases op <;> simp [toImpliesNot.replaceAndOr, Formula.variables, ihf, ihg]

theorem mem_variables_replaceNot (f : Formula) (v : String) :
  v ∈ (toImpliesFalse.replaceNot f).variables ↔ v ∈ f.variables
  := by
  induction f with
  | var | T | F => rfl
  | neg f ih => simp [toImpliesFalse.replaceNot, Formula.variables, ih]
  | bin op f g ihf ihg =>
    cases op <;> simp [toImpliesFalse.replaceNot, Formula.variables, ihf, ihg]

/-- Each of the five conversions returns a formula whose variables are those of its argument,
and `p` when the argument contains a constant; so the result is well formed whenever the
argument is. -/
theorem conversion_variables (formula : Formula) :
  ∀ conversion ∈ [toNotAndOr, toNotAnd, toNand, toImpliesNot, toImpliesFalse],
    (∀ v, v ∈ (conversion formula).variables ↔
      v ∈ formula.variables ∨ (v = "p" ∧ formula.hasConstant)) ∧
    (formula.isWellFormed → (conversion formula).isWellFormed)
  := by
  have hvars : ∀ conversion ∈ [toNotAndOr, toNotAnd, toNand, toImpliesNot, toImpliesFalse],
      ∀ v, v ∈ (conversion formula).variables ↔
        v ∈ formula.variables ∨ (v = "p" ∧ formula.hasConstant) := by
    simp only [List.mem_cons, List.mem_singleton, List.not_mem_nil, or_false]
    rintro _ (rfl | rfl | rfl | rfl | rfl) v <;>
      simp only [toNotAndOr, toNotAnd, toNand, toImpliesNot, toImpliesFalse,
        mem_variables_replaceOr, mem_variables_replaceWithNand, mem_variables_replaceAndOr,
        mem_variables_replaceNot, mem_variables_convert]
  refine fun conversion hc => ⟨hvars conversion hc, fun hwf => ?_⟩
  rw [isWellFormed_iff_variables] at hwf ⊢
  intro v hv
  rcases (hvars conversion hc v).mp hv with hv | ⟨rfl, -⟩
  · exact hwf v hv
  · decide

theorem conversion_variables_toNand :
  let formula := Formula.bin .implies (.var "q") .T
  formula.isWellFormed ∧
    (∀ v, v ∈ (toNand formula).variables ↔
      v ∈ formula.variables ∨ (v = "p" ∧ formula.hasConstant)) ∧
    (toNand formula).isWellFormed
  := by
  intro formula
  have h := conversion_variables formula toNand (by simp)
  exact ⟨by decide, h.1, h.2 (by decide)⟩

/-! ### Formulas the conversions return unchanged -/

/-- The number of nodes of a formula. -/
def Formula.size : Formula → Nat
  | .var _ | .T | .F => 1
  | .neg f => f.size + 1
  | .bin _ f g => f.size + g.size + 1

/-- A formula over the operators of `b` is one over those of any `b'` that allows them all. -/
theorem Formula.inBasis_of_le {b b' : Basis} (hT : b.T → b'.T) (hF : b.F → b'.F)
    (hneg : b.neg → b'.neg) (hbin : ∀ op, b.bin op → b'.bin op) {f : Formula}
    (hf : f.inBasis b) :
  f.inBasis b'
  := by
  induction f with
  | var => rfl
  | T => exact hT hf
  | F => exact hF hf
  | neg f ih =>
    simp only [Formula.inBasis, Bool.and_eq_true] at hf ⊢
    exact ⟨hneg hf.1, ih hf.2⟩
  | bin op f g ihf ihg =>
    simp only [Formula.inBasis, Bool.and_eq_true] at hf ⊢
    exact ⟨⟨hbin op hf.1.1, ihf hf.1.2⟩, ihg hf.2⟩

theorem size_le_convert (f : Formula) : f.size ≤ (toNotAndOr.convert f).size := by
  induction f with
  | var | T | F => simp [toNotAndOr.convert, Formula.size]
  | neg f ih => simpa [toNotAndOr.convert, Formula.size] using ih
  | bin op f g ihf ihg => cases op <;> simp only [toNotAndOr.convert, Formula.size] <;> omega

theorem size_le_replaceOr (f : Formula) : f.size ≤ (toNotAnd.replaceOr f).size := by
  induction f with
  | var | T | F => exact le_rfl
  | neg f ih => simpa [toNotAnd.replaceOr, Formula.size] using ih
  | bin op f g ihf ihg => cases op <;> simp only [toNotAnd.replaceOr, Formula.size] <;> omega

theorem size_le_replaceWithNand (f : Formula) : f.size ≤ (toNand.replaceWithNand f).size := by
  induction f with
  | var | T | F => exact le_rfl
  | neg f ih => simp only [toNand.replaceWithNand, Formula.size]; omega
  | bin op f g ihf ihg =>
    cases op <;> simp only [toNand.replaceWithNand, Formula.size] <;> omega

theorem size_le_replaceAndOr (f : Formula) : f.size ≤ (toImpliesNot.replaceAndOr f).size := by
  induction f with
  | var | T | F => exact le_rfl
  | neg f ih => simpa [toImpliesNot.replaceAndOr, Formula.size] using ih
  | bin op f g ihf ihg =>
    cases op <;> simp only [toImpliesNot.replaceAndOr, Formula.size] <;> omega

theorem size_le_replaceNot (f : Formula) : f.size ≤ (toImpliesFalse.replaceNot f).size := by
  induction f with
  | var | T | F => exact le_rfl
  | neg f ih => simp only [toImpliesFalse.replaceNot, Formula.size]; omega
  | bin op f g ihf ihg =>
    cases op <;> simp only [toImpliesFalse.replaceNot, Formula.size] <;> omega

theorem size_le_toNand (f : Formula) : f.size ≤ (toNand f).size :=
  (size_le_convert f).trans ((size_le_replaceOr _).trans (size_le_replaceWithNand _))

theorem size_le_toImpliesNot (f : Formula) : f.size ≤ (toImpliesNot f).size :=
  (size_le_convert f).trans (size_le_replaceAndOr _)

theorem size_le_toImpliesFalse (f : Formula) : f.size ≤ (toImpliesFalse f).size :=
  (size_le_toImpliesNot f).trans (size_le_replaceNot _)

/-- `convert` returns a formula over `~`, `&` and `|` unchanged. -/
theorem convert_eq_self {f : Formula} (hf : f.inBasis .notAndOr) : toNotAndOr.convert f = f := by
  induction f with
  | var => rfl
  | T | F => simp at hf
  | neg f ih =>
    simp only [toNotAndOr.convert, ih (by simpa using hf)]
  | bin op f g ihf ihg =>
    simp only [Formula.inBasis, Basis.notAndOr_bin, Bool.and_eq_true, decide_eq_true_eq] at hf
    obtain ⟨⟨hop, hf⟩, hg⟩ := hf
    rcases hop with rfl | rfl <;> simp only [toNotAndOr.convert, ihf hf, ihg hg]

/-- `replace_or` returns a formula over `~` and `&` unchanged. -/
theorem replaceOr_eq_self {f : Formula} (hf : f.inBasis .notAnd) : toNotAnd.replaceOr f = f := by
  induction f with
  | var => rfl
  | T | F => simp at hf
  | neg f ih =>
    simp only [toNotAnd.replaceOr, ih (by simpa using hf)]
  | bin op f g ihf ihg =>
    simp only [Formula.inBasis, Basis.notAnd_bin, Bool.and_eq_true, decide_eq_true_eq] at hf
    obtain ⟨⟨rfl, hf⟩, hg⟩ := hf
    simp only [toNotAnd.replaceOr, ihf hf, ihg hg]

theorem toNotAndOr_eq_self_iff (f : Formula) : toNotAndOr f = f ↔ f.inBasis .notAndOr :=
  ⟨fun h => h ▸ toNotAndOr_inBasis f, convert_eq_self⟩

theorem toNotAnd_eq_self_iff (f : Formula) : toNotAnd f = f ↔ f.inBasis .notAnd := by
  refine ⟨fun h => h ▸ toNotAnd_inBasis f, fun hf => ?_⟩
  have hf' : f.inBasis .notAndOr :=
    Formula.inBasis_of_le (by simp) (by simp) (by simp) (fun op hop => by simp_all) hf
  rw [toNotAnd, toNotAndOr, convert_eq_self hf', replaceOr_eq_self hf]

/-- Converting with `to_not_and_or` twice is converting once. -/
theorem toNotAndOr_toNotAndOr (f : Formula) : toNotAndOr (toNotAndOr f) = toNotAndOr f :=
  (toNotAndOr_eq_self_iff _).mpr (toNotAndOr_inBasis f)

/-- Converting with `to_not_and` twice is converting once. -/
theorem toNotAnd_toNotAnd (f : Formula) : toNotAnd (toNotAnd f) = toNotAnd f :=
  (toNotAnd_eq_self_iff _).mpr (toNotAnd_inBasis f)

/-- `to_nand` at a `-&` node: `-&` of `A` and `B` becomes `(N-&N)-&(N-&N)` with `N` the `-&`
of their conversions. -/
theorem toNand_nand (a b : Formula) :
  toNand (.bin .nand a b) =
    let n := Formula.bin .nand (toNand a) (toNand b)
    .bin .nand (.bin .nand n n) (.bin .nand n n)
  := rfl

theorem toNand_eq_self_iff (f : Formula) : toNand f = f ↔ ∃ name, f = .var name := by
  refine ⟨fun h => ?_, fun ⟨name, hf⟩ => hf ▸ rfl⟩
  have hb := h ▸ toNand_inBasis f
  cases f with
  | var name => exact ⟨name, rfl⟩
  | T | F | neg => simp at hb
  | bin op a b =>
    simp only [Formula.inBasis, Basis.nand_bin, Bool.and_eq_true, decide_eq_true_eq] at hb
    obtain ⟨⟨rfl, -⟩, -⟩ := hb
    have hsize := congrArg Formula.size h
    rw [toNand_nand] at hsize
    simp only [Formula.size] at hsize
    have := size_le_toNand a
    have := size_le_toNand b
    omega

/-- `to_implies_not` at a `~` node and at a `->` node. -/
theorem toImpliesNot_neg (a : Formula) : toImpliesNot (.neg a) = .neg (toImpliesNot a) := rfl

theorem toImpliesNot_implies (a b : Formula) :
  toImpliesNot (.bin .implies a b) = .bin .implies (.neg (.neg (toImpliesNot a))) (toImpliesNot b)
  := rfl

theorem toImpliesNot_eq_self_iff (f : Formula) : toImpliesNot f = f ↔ f.inBasis .notOnly := by
  induction f with
  | var => exact ⟨fun _ => rfl, fun _ => rfl⟩
  | T | F => exact ⟨fun h => absurd h (by decide), fun h => by simp at h⟩
  | neg a ih =>
    rw [toImpliesNot_neg, Formula.neg.injEq, ih]
    simp
  | bin op a b =>
    refine ⟨fun h => ?_, fun h => by simp at h⟩
    have hb := h ▸ toImpliesNot_inBasis (.bin op a b)
    simp only [Formula.inBasis, Basis.impliesNot_bin, Bool.and_eq_true, decide_eq_true_eq] at hb
    obtain ⟨⟨rfl, -⟩, -⟩ := hb
    have hsize := congrArg Formula.size h
    rw [toImpliesNot_implies] at hsize
    simp only [Formula.size] at hsize
    have := size_le_toImpliesNot a
    have := size_le_toImpliesNot b
    omega

/-- `to_implies_false` at a `->` node: `(A->B)` becomes `(((A'->F)->F)->B')`. -/
theorem toImpliesFalse_implies (a b : Formula) :
  toImpliesFalse (.bin .implies a b) =
    .bin .implies (.bin .implies (.bin .implies (toImpliesFalse a) .F) .F) (toImpliesFalse b)
  := rfl

theorem toImpliesFalse_eq_self_iff (f : Formula) :
  toImpliesFalse f = f ↔ ∃ name, f = .var name
  := by
  refine ⟨fun h => ?_, fun ⟨name, hf⟩ => hf ▸ rfl⟩
  have hb := h ▸ toImpliesFalse_inBasis f
  cases f with
  | var name => exact ⟨name, rfl⟩
  | F => exact absurd h (by decide)
  | T | neg => simp at hb
  | bin op a b =>
    simp only [Formula.inBasis, Basis.impliesFalse_bin, Bool.and_eq_true, decide_eq_true_eq] at hb
    obtain ⟨⟨rfl, -⟩, -⟩ := hb
    have hsize := congrArg Formula.size h
    rw [toImpliesFalse_implies] at hsize
    simp only [Formula.size] at hsize
    have := size_le_toImpliesFalse a
    have := size_le_toImpliesFalse b
    omega

/-- `to_not_and_or` and `to_not_and` return a formula unchanged exactly when it has no constants
and no operators beyond theirs; `to_nand` and `to_implies_false` exactly when it is a variable;
`to_implies_not` exactly when it is built from variables by `~` alone. -/
theorem conversion_eq_self_iff (formula : Formula) :
  (toNotAndOr formula = formula ↔ formula.inBasis .notAndOr) ∧
    (toNotAnd formula = formula ↔ formula.inBasis .notAnd) ∧
    (toNand formula = formula ↔ ∃ name, formula = .var name) ∧
    (toImpliesNot formula = formula ↔ formula.inBasis .notOnly) ∧
    (toImpliesFalse formula = formula ↔ ∃ name, formula = .var name)
  := ⟨toNotAndOr_eq_self_iff formula, toNotAnd_eq_self_iff formula, toNand_eq_self_iff formula,
    toImpliesNot_eq_self_iff formula, toImpliesFalse_eq_self_iff formula⟩

end Propositions
