import Propositions.Runtime
import Propositions.Proofs

/-!
# Proofs from opposites and by way of contradiction

`prove_from_opposites` and `prove_by_way_of_contradiction` of `propositions/deduction.py`.

* `proveFromOpposites_isValid`: from valid proofs of `A` and of `~A` with the same assumptions
  and rules, `prove_from_opposites` builds a valid proof of any `C` via the rules and `MP` and
  `I2`. The lines of the proof of `~A` keep their validity with their citations shifted past
  the proof of `A`, and the three lines after them are the `I2` instance and two Modus Ponens
  steps.
* `proveByWayOfContradiction_raises_nameError`: `prove_by_way_of_contradiction` reads a name
  `rules` that neither the function nor `deduction.py` binds, so it raises `NameError` on a
  proof that meets all its assertions.
-/

namespace Propositions

/-- `prove_from_opposites(proof_of_affirmation, proof_of_negation, conclusion)`. -/
def proveFromOpposites (proofOfAffirmation proofOfNegation : Proof) (conclusion : Formula) :
    Except PyError Proof := do
  pyAssert proofOfAffirmation.isValid
  pyAssert proofOfNegation.isValid
  pyAssert (proofOfAffirmation.statement.assumptions == proofOfNegation.statement.assumptions)
  pyAssert (Formula.neg proofOfAffirmation.statement.conclusion ==
    proofOfNegation.statement.conclusion)
  pyAssert (decide (proofOfAffirmation.rules = proofOfNegation.rules))
  let affirmation := proofOfAffirmation.statement.conclusion
  let i2Formula := Formula.bin .implies (.neg affirmation) (.bin .implies affirmation conclusion)
  let lines := proofOfAffirmation.lines
  let offsetAffirmation := lines.length - 1
  let lines := lines ++ proofOfNegation.lines.map (Line.reindex (· + offsetAffirmation + 1))
  let offsetNegationEnd := lines.length - 1
  let lines := lines ++ [⟨i2Formula, some I2, []⟩]
  let i2Line := lines.length - 1
  let lines := lines ++
    [⟨.bin .implies affirmation conclusion, some MP, [offsetNegationEnd, i2Line]⟩]
  let lines := lines ++ [⟨conclusion, some MP, [offsetAffirmation, lines.length - 1]⟩]
  let rules := proofOfAffirmation.rules ∪ {MP, I2}
  pure ⟨⟨proofOfAffirmation.statement.assumptions, conclusion⟩, rules, lines⟩

/-- `prove_by_way_of_contradiction(proof)`. The name `rules` in its last line is bound neither
in the function nor by a definition of `deduction.py`; it is looked up among the module's
globals, which come from the star imports of collaborators the repository does not contain.
`rules` is the value found there, `none` when the lookup raises `NameError`. -/
def proveByWayOfContradiction (rules : Option (Finset InferenceRule)) (proof : Proof) :
    Except PyError Proof := do
  pyAssert proof.isValid
  pyAssert (proof.statement.conclusion == contradiction)
  pyAssert (proof.statement.assumptions.length > 0)
  let negation ← pyIndex proof.statement.assumptions (proof.statement.assumptions.length - 1)
  pyAssert (negation matches .neg _)
  pyAssert (decide (∀ rule ∈ proof.rules, rule = MP ∨ rule.assumptions.length = 0))
  let some formula := negation.first | throw .typeError
  let newStatement : InferenceRule := ⟨proof.statement.assumptions.dropLast, formula⟩
  let some rules := rules | throw (.nameError "rules")
  pure ⟨newStatement, rules, []⟩

/-! ### Splicing the two proofs -/

/-- What `prove_from_opposites` returns when its assertions hold: the lines of the proof of the
affirmation, those of the proof of the negation shifted past them, the `I2` instance and two
Modus Ponens steps. -/
theorem proveFromOpposites_eq {Pa Pn : Proof} {conclusion : Formula}
    (ha : Pa.isValid) (hn : Pn.isValid)
    (hassm : Pa.statement.assumptions = Pn.statement.assumptions)
    (hneg : Pn.statement.conclusion = .neg Pa.statement.conclusion) (hrules : Pa.rules = Pn.rules) :
  proveFromOpposites Pa Pn conclusion = .ok
    ⟨⟨Pa.statement.assumptions, conclusion⟩, Pa.rules ∪ {MP, I2},
      Pa.lines ++ Pn.lines.map (Line.reindex (· + Pa.lines.length)) ++
        [⟨.bin .implies (.neg Pa.statement.conclusion)
            (.bin .implies Pa.statement.conclusion conclusion), some I2, []⟩,
         ⟨.bin .implies Pa.statement.conclusion conclusion, some MP,
            [Pa.lines.length + Pn.lines.length - 1, Pa.lines.length + Pn.lines.length]⟩,
         ⟨conclusion, some MP, [Pa.lines.length - 1, Pa.lines.length + Pn.lines.length + 1]⟩]⟩
  := by
  have hpos := length_pos_of_isValid ha
  have hshift : (fun a => a + (Pa.lines.length - 1) + 1) = (· + Pa.lines.length) := by
    funext a
    omega
  simp [proveFromOpposites, ha, hn, hassm, hneg, hrules, hshift]
  rfl

/-- Proof from opposites: from valid proofs of `A` and of `~A` with the same assumptions and
rules, `prove_from_opposites` builds, for every `C`, a valid proof of `C` from the same
assumptions via the same rules and `MP` and `I2`. -/
theorem proveFromOpposites_isValid {Pa Pn : Proof} {conclusion : Formula}
    (ha : Pa.isValid) (hn : Pn.isValid)
    (hassm : Pa.statement.assumptions = Pn.statement.assumptions)
    (hneg : Pn.statement.conclusion = .neg Pa.statement.conclusion) (hrules : Pa.rules = Pn.rules) :
  ∃ P, proveFromOpposites Pa Pn conclusion = .ok P ∧ P.isValid ∧
    P.statement = ⟨Pa.statement.assumptions, conclusion⟩ ∧ P.rules = Pa.rules ∪ {MP, I2}
  := by
  refine ⟨_, proveFromOpposites_eq ha hn hassm hneg hrules, ?_, rfl, rfl⟩
  have hpa := length_pos_of_isValid ha
  have hpn := length_pos_of_isValid hn
  have hMP : MP ∈ Pa.rules ∪ {MP, I2} := by simp
  have hI2 : I2 ∈ Pa.rules ∪ {MP, I2} := by simp
  -- the `I2` instance and the two Modus Ponens steps after the spliced proofs
  refine isValid_splice ha hn rfl hassm Finset.subset_union_left hrules rfl fun j hj => ?_
  match j, hj with
  | 0, _ =>
    exact isLineValid_of_axiom (getElem?_splice_tail 0 rfl) hI2 (isSpecializationOf_I2 _ _)
  | 1, _ =>
    refine isLineValid_of_mp (a := .neg Pa.statement.conclusion) (getElem?_splice_tail 1 rfl) hMP
      (by simp; omega) (by simp) ?_ ?_
    · rw [getElem?_splice_middle (j := Pn.lines.length - 1) (by simp; omega) (by omega),
        List.getElem?_map, Option.map_map]
      simpa [Function.comp_def, ← hneg] using formula_last_of_isValid hn
    · rw [getElem?_splice_tail 0 (by simp)]
      rfl
  | 2, _ =>
    refine isLineValid_of_mp (a := Pa.statement.conclusion) (getElem?_splice_tail 2 rfl) hMP
      (by omega) (by simp) ?_ ?_
    · rw [getElem?_splice_front (by omega)]
      exact formula_last_of_isValid ha
    · rw [getElem?_splice_tail 1 (by simp)]
      rfl

theorem proveFromOpposites_isValid_modusPonens :
  let assumptions := [Formula.var "p", .bin .implies (.var "p") (.neg (.var "p"))]
  let Pa : Proof := ⟨⟨assumptions, .var "p"⟩, {MP}, [⟨.var "p", none, []⟩]⟩
  let Pn : Proof := ⟨⟨assumptions, .neg (.var "p")⟩, {MP},
    [⟨.var "p", none, []⟩, ⟨.bin .implies (.var "p") (.neg (.var "p")), none, []⟩,
      ⟨.neg (.var "p"), some MP, [0, 1]⟩]⟩
  Pa.isValid ∧ Pn.isValid ∧ Pa.statement.assumptions = Pn.statement.assumptions ∧
    Pn.statement.conclusion = .neg Pa.statement.conclusion ∧ Pa.rules = Pn.rules ∧
    ∃ P, proveFromOpposites Pa Pn (.var "q") = .ok P ∧ P.isValid ∧
      P.statement = ⟨Pa.statement.assumptions, .var "q"⟩ ∧ P.rules = Pa.rules ∪ {MP, I2}
  := ⟨rfl, rfl, rfl, rfl, rfl, proveFromOpposites_isValid rfl rfl rfl rfl rfl⟩

/-! ### Proof by way of contradiction -/

/-- With `rules` unbound, the valid one-line proof of `~(p->p)` from itself, which meets every
assertion of `prove_by_way_of_contradiction`, makes it raise `NameError`. -/
theorem proveByWayOfContradiction_raises_nameError :
  let proof : Proof := ⟨⟨[contradiction], contradiction⟩, ∅, [⟨contradiction, none, []⟩]⟩
  proof.isValid ∧ proveByWayOfContradiction none proof = .error (.nameError "rules")
  := ⟨rfl, rfl⟩

end Propositions
