import Propositions.Semantics

/-!
# Converting formulas to restricted sets of operators

`propositions/operators.py`. `to_not_and_or` rewrites every node of a formula by its own
recursion `convert`; the other conversions first call one another and then rewrite the result by
a recursion that handles only the operators of the set it is given and returns every other node
unchanged (`return f`).

* `toNotAndOr_inBasis`, `evaluate_toNotAndOr`: `to_not_and_or` returns a formula with no
  constants and no operators beyond `~`, `&` and `|`, with the truth table of its argument.
* `toNotAnd_inBasis`, `evaluate_toNotAnd`: the same for `to_not_and` and `~`, `&`. The fall-through
  of `replace_or` is never reached, because it only ever sees outputs of `to_not_and_or`
  (`replaceOr_inBasis`).
* `toNand_correct`, `toImpliesNot_correct`, `toImpliesFalse_correct`: the same for `-&`, for `->`
  and `~`, and for `->` and `F`. Each inner recursion is correct on the operator set of the
  conversion it is applied after (`replaceWithNand_inBasis`, `replaceAndOr_inBasis`,
  `replaceNot_inBasis`), so none of their fall-throughs is reached either.
-/

namespace Propositions

/-- `convert` of `to_not_and_or`: both operands are converted first, where the node has them. -/
def toNotAndOr.convert : Formula → Formula
  | .var name => .var name
  | .T =>
    let p := Formula.var "p"
    .neg (.bin .and p (.neg p))
  | .F =>
    let p := Formula.var "p"
    .bin .and p (.neg p)
  | .neg f => .neg (convert f)
  | .bin op f g =>
    let leftConverted := convert f
    let rightConverted := convert g
    match op with
    | .and | .or => .bin op leftConverted rightConverted
    | .implies => .bin .or (.neg leftConverted) rightConverted
    | .xor =>
      .bin .or (.bin .and leftConverted (.neg rightConverted))
        (.bin .and (.neg leftConverted) rightConverted)
    | .iff =>
      .bin .and (.bin .or (.neg leftConverted) rightConverted)
        (.bin .or (.neg rightConverted) leftConverted)
    | .nand => .neg (.bin .and leftConverted rightConverted)
    | .nor => .neg (.bin .or leftConverted rightConverted)

/-- `to_not_and_or(formula)`. Its `ValueError` for an unsupported operator cannot be raised:
every root of the grammar is handled. -/
def toNotAndOr (formula : Formula) : Formula := toNotAndOr.convert formula

/-- `replace_or` of `to_not_and`. -/
def toNotAnd.replaceOr : Formula → Formula
  | .var name => .var name
  | .neg f => .neg (replaceOr f)
  | .bin .and f g => .bin .and (replaceOr f) (replaceOr g)
  | .bin .or f g => .neg (.bin .and (.neg (replaceOr f)) (.neg (replaceOr g)))
  | f => f

/-- `to_not_and(formula)`. -/
def toNotAnd (formula : Formula) : Formula := toNotAnd.replaceOr (toNotAndOr formula)

/-- `replace_with_nand` of `to_nand`. -/
def toNand.replaceWithNand : Formula → Formula
  | .var name => .var name
  | .neg f =>
    let a := replaceWithNand f
    .bin .nand a a
  | .bin .and f g =>
    let a := replaceWithNand f
    let b := replaceWithNand g
    let nandAB := Formula.bin .nand a b
    .bin .nand nandAB nandAB
  | f => f

/-- `to_nand(formula)`. -/
def toNand (formula : Formula) : Formula := toNand.replaceWithNand (toNotAnd formula)

/-- `replace_and_or` of `to_implies_not`. -/
def toImpliesNot.replaceAndOr : Formula → Formula
  | .var name => .var name
  | .neg f => .neg (replaceAndOr f)
  | .bin .and f g => .neg (.bin .implies (replaceAndOr f) (.neg (replaceAndOr g)))
  | .bin .or f g => .bin .implies (.neg (replaceAndOr f)) (replaceAndOr g)
  | .bin .implies f g => .bin .implies (replaceAndOr f) (replaceAndOr g)
  | f => f

/-- `to_implies_not(formula)`. -/
def toImpliesNot (formula : Formula) : Formula :=
  toImpliesNot.replaceAndOr (toNotAndOr formula)

/-- `replace_not` of `to_implies_false`. -/
def toImpliesFalse.replaceNot : Formula → Formula
  | .var name => .var name
  | .neg f => .bin .implies (replaceNot f) .F
  | .bin .implies f g => .bin .implies (replaceNot f) (replaceNot g)
  | f => f

/-- `to_implies_false(formula)`. -/
def toImpliesFalse (formula : Formula) : Formula :=
  toImpliesFalse.replaceNot (toImpliesNot formula)

/-! ### The operator sets of the docstrings -/

/-- No constants, and no operators beyond `~`, `&` and `|`. -/
@[simps]
def Basis.notAndOr : Basis := ⟨false, false, true, fun op => op = .and ∨ op = .or⟩

/-- No constants, and no operators beyond `~` and `&`. -/
@[simps]
def Basis.notAnd : Basis := ⟨false, false, true, fun op => op = .and⟩

/-- No constants, and no operators beyond `-&`. -/
@[simps]
def Basis.nand : Basis := ⟨false, false, false, fun op => op = .nand⟩

/-- No constants, and no operators beyond `->` and `~`. -/
@[simps]
def Basis.impliesNot : Basis := ⟨false, false, true, fun op => op = .implies⟩

/-- No constants beyond `F`, and no operators beyond `->`. -/
@[simps]
def Basis.impliesFalse : Basis := ⟨false, true, false, fun op => op = .implies⟩

/-! ### `to_not_and_or` -/

theorem toNotAndOr_inBasis (formula : Formula) :
  (toNotAndOr formula).inBasis .notAndOr
  := by
  induction formula with
  | var name => rfl
  | T | F => rfl
  | neg f ih => simpa [toNotAndOr, toNotAndOr.convert] using ih
  | bin op f g ihf ihg =>
    simp only [toNotAndOr] at ihf ihg
    cases op <;> simp [toNotAndOr, toNotAndOr.convert, ihf, ihg]

theorem evaluate_toNotAndOr (formula : Formula) (model : Model) :
  evaluate (toNotAndOr formula) model = evaluate formula model
  := by
  induction formula with
  | var name => rfl
  | T | F => simp [toNotAndOr, toNotAndOr.convert, BinOp.apply]
  | neg f ih => simpa [toNotAndOr, toNotAndOr.convert] using ih
  | bin op f g ihf ihg =>
    simp only [toNotAndOr] at ihf ihg
    cases op <;> simp only [toNotAndOr, toNotAndOr.convert, evaluate, ihf, ihg] <;>
      cases evaluate f model <;> cases evaluate g model <;> rfl

/-- `to_not_and_or` returns, for every formula, a formula with no constants and no operators
beyond `~`, `&` and `|` that evaluates as the given one in every model. -/
theorem toNotAndOr_correct (formula : Formula) :
  (toNotAndOr formula).inBasis .notAndOr ∧
    ∀ model, evaluate (toNotAndOr formula) model = evaluate formula model
  := ⟨toNotAndOr_inBasis formula, evaluate_toNotAndOr formula⟩

/-! ### `to_not_and` -/

/-- On a formula over `~`, `&` and `|`, `replace_or` returns a formula over `~` and `&` with
the same truth table. -/
theorem replaceOr_inBasis {f : Formula} (hf : f.inBasis .notAndOr) :
  (toNotAnd.replaceOr f).inBasis .notAnd ∧
    ∀ model, evaluate (toNotAnd.replaceOr f) model = evaluate f model
  := by
  induction f with
  | var name => exact ⟨rfl, fun _ => rfl⟩
  | T | F => simp at hf
  | neg f ih =>
    obtain ⟨hb, he⟩ := ih (by simpa using hf)
    exact ⟨by simpa [toNotAnd.replaceOr] using hb,
      fun model => by simp [toNotAnd.replaceOr, he]⟩
  | bin op f g ihf ihg =>
    simp only [Formula.inBasis, Basis.notAndOr_bin, Bool.and_eq_true, Bool.or_eq_true,
      decide_eq_true_eq] at hf
    obtain ⟨⟨hop, hf⟩, hg⟩ := hf
    obtain ⟨hbf, hef⟩ := ihf hf
    obtain ⟨hbg, heg⟩ := ihg hg
    rcases hop with rfl | rfl
    · exact ⟨by simp [toNotAnd.replaceOr, hbf, hbg],
        fun model => by simp [toNotAnd.replaceOr, hef, heg, BinOp.apply]⟩
    · refine ⟨by simp [toNotAnd.replaceOr, hbf, hbg], fun model => ?_⟩
      simp only [toNotAnd.replaceOr, evaluate, hef, heg, BinOp.apply]
      cases evaluate f model <;> cases evaluate g model <;> rfl

theorem toNotAnd_inBasis (formula : Formula) : (toNotAnd formula).inBasis .notAnd :=
  (replaceOr_inBasis (toNotAndOr_inBasis formula)).1

theorem evaluate_toNotAnd (formula : Formula) (model : Model) :
  evaluate (toNotAnd formula) model = evaluate formula model
  := by
  rw [toNotAnd, (replaceOr_inBasis (toNotAndOr_inBasis formula)).2, evaluate_toNotAndOr]

/-- `to_not_and` returns, for every formula, a formula with no constants and no operators beyond
`~` and `&` that evaluates as the given one in every model. -/
theorem toNotAnd_correct (formula : Formula) :
  (toNotAnd formula).inBasis .notAnd ∧
    ∀ model, evaluate (toNotAnd formula) model = evaluate formula model
  := ⟨toNotAnd_inBasis formula, evaluate_toNotAnd formula⟩

/-! ### `to_nand` -/

/-- On a formula over `~` and `&`, `replace_with_nand` returns a formula over `-&` with the same
truth table. -/
theorem replaceWithNand_inBasis {f : Formula} (hf : f.inBasis .notAnd) :
  (toNand.replaceWithNand f).inBasis .nand ∧
    ∀ model, evaluate (toNand.replaceWithNand f) model = evaluate f model
  := by
  induction f with
  | var name => exact ⟨rfl, fun _ => rfl⟩
  | T | F => simp at hf
  | neg f ih =>
    obtain ⟨hb, he⟩ := ih (by simpa using hf)
    exact ⟨by simp [toNand.replaceWithNand, hb],
      fun model => by simp [toNand.replaceWithNand, he, BinOp.apply]⟩
  | bin op f g ihf ihg =>
    simp only [Formula.inBasis, Basis.notAnd_bin, Bool.and_eq_true, decide_eq_true_eq] at hf
    obtain ⟨⟨rfl, hf⟩, hg⟩ := hf
    obtain ⟨hbf, hef⟩ := ihf hf
    obtain ⟨hbg, heg⟩ := ihg hg
    exact ⟨by simp [toNand.replaceWithNand, hbf, hbg],
      fun model => by simp [toNand.replaceWithNand, hef, heg, BinOp.apply]⟩

theorem toNand_inBasis (formula : Formula) : (toNand formula).inBasis .nand :=
  (replaceWithNand_inBasis (toNotAnd_inBasis formula)).1

theorem evaluate_toNand (formula : Formula) (model : Model) :
  evaluate (toNand formula) model = evaluate formula model
  := by
  rw [toNand, (replaceWithNand_inBasis (toNotAnd_inBasis formula)).2, evaluate_toNotAnd]

/-- `to_nand` returns, for every formula, a formula with no constants and no operators beyond
`-&` that evaluates as the given one in every model. -/
theorem toNand_correct (formula : Formula) :
  (toNand formula).inBasis .nand ∧
    ∀ model, evaluate (toNand formula) model = evaluate formula model
  := ⟨toNand_inBasis formula, evaluate_toNand formula⟩

/-! ### `to_implies_not` -/

/-- On a formula over `~`, `&` and `|`, `replace_and_or` returns a formula over `->` and `~` with
the same truth table. -/
theorem replaceAndOr_inBasis {f : Formula} (hf : f.inBasis .notAndOr) :
  (toImpliesNot.replaceAndOr f).inBasis .impliesNot ∧
    ∀ model, evaluate (toImpliesNot.replaceAndOr f) model = evaluate f model
  := by
  induction f with
  | var name => exact ⟨rfl, fun _ => rfl⟩
  | T | F => simp at hf
  | neg f ih =>
    obtain ⟨hb, he⟩ := ih (by simpa using hf)
    exact ⟨by simpa [toImpliesNot.replaceAndOr] using hb,
      fun model => by simp [toImpliesNot.replaceAndOr, he]⟩
  | bin op f g ihf ihg =>
    simp only [Formula.inBasis, Basis.notAndOr_bin, Bool.and_eq_true, Bool.or_eq_true,
      decide_eq_true_eq] at hf
    obtain ⟨⟨hop, hf⟩, hg⟩ := hf
    obtain ⟨hbf, hef⟩ := ihf hf
    obtain ⟨hbg, heg⟩ := ihg hg
    refine ⟨by rcases hop with rfl | rfl <;> simp [toImpliesNot.replaceAndOr, hbf, hbg],
      fun model => ?_⟩
    rcases hop with rfl | rfl <;> simp only [toImpliesNot.replaceAndOr, evaluate, hef, heg] <;>
      cases evaluate f model <;> cases evaluate g model <;> rfl

theorem toImpliesNot_inBasis (formula : Formula) : (toImpliesNot formula).inBasis .impliesNot :=
  (replaceAndOr_inBasis (toNotAndOr_inBasis formula)).1

theorem evaluate_toImpliesNot (formula : Formula) (model : Model) :
  evaluate (toImpliesNot formula) model = evaluate formula model
  := by
  rw [toImpliesNot, (replaceAndOr_inBasis (toNotAndOr_inBasis formula)).2, evaluate_toNotAndOr]

/-- `to_implies_not` returns, for every formula, a formula with no constants and no operators
beyond `->` and `~` that evaluates as the given one in every model. -/
theorem toImpliesNot_correct (formula : Formula) :
  (toImpliesNot formula).inBasis .impliesNot ∧
    ∀ model, evaluate (toImpliesNot formula) model = evaluate formula model
  := ⟨toImpliesNot_inBasis formula, evaluate_toImpliesNot formula⟩

/-! ### `to_implies_false` -/

/-- On a formula over `->` and `~`, `replace_not` returns a formula over `->` and `F` with the
same truth table. -/
theorem replaceNot_inBasis {f : Formula} (hf : f.inBasis .impliesNot) :
  (toImpliesFalse.replaceNot f).inBasis .impliesFalse ∧
    ∀ model, evaluate (toImpliesFalse.replaceNot f) model = evaluate f model
  := by
  induction f with
  | var name => exact ⟨rfl, fun _ => rfl⟩
  | T | F => simp at hf
  | neg f ih =>
    obtain ⟨hb, he⟩ := ih (by simpa using hf)
    exact ⟨by simp [toImpliesFalse.replaceNot, hb],
      fun model => by simp [toImpliesFalse.replaceNot, he, BinOp.apply]⟩
  | bin op f g ihf ihg =>
    simp only [Formula.inBasis, Basis.impliesNot_bin, Bool.and_eq_true, decide_eq_true_eq] at hf
    obtain ⟨⟨rfl, hf⟩, hg⟩ := hf
    obtain ⟨hbf, hef⟩ := ihf hf
    obtain ⟨hbg, heg⟩ := ihg hg
    exact ⟨by simp [toImpliesFalse.replaceNot, hbf, hbg],
      fun model => by simp [toImpliesFalse.replaceNot, hef, heg]⟩

theorem toImpliesFalse_inBasis (formula : Formula) :
  (toImpliesFalse formula).inBasis .impliesFalse
  := (replaceNot_inBasis (toImpliesNot_inBasis formula)).1

theorem evaluate_toImpliesFalse (formula : Formula) (model : Model) :
  evaluate (toImpliesFalse formula) model = evaluate formula model
  := by
  rw [toImpliesFalse, (replaceNot_inBasis (toImpliesNot_inBasis formula)).2,
    evaluate_toImpliesNot]

/-- `to_implies_false` returns, for every formula, a formula with no operators beyond `->` and
no constant beyond `F` that evaluates as the given one in every model. -/
theorem toImpliesFalse_correct (formula : Formula) :
  (toImpliesFalse formula).inBasis .impliesFalse ∧
    ∀ model, evaluate (toImpliesFalse formula) model = evaluate formula model
  := ⟨toImpliesFalse_inBasis formula, evaluate_toImpliesFalse formula⟩

end Propositions
