import Propositions.Runtime
import Propositions.Proofs

/-!
# Corollaries and combined proofs

`prove_corollary` and `combine_proofs` of `propositions/deduction.py`. Both copy the given
proofs, add a line that states the specialized conditional, and close with Modus Ponens. The
added line names as its rule the specialization of `conditional` (of `double_conditional`), and
not the rule itself, which is the one added to the proof's rules. So:

* `proveCorollary_isValid_iff`, `combineProofs_isValid_iff`: when the assertions hold, the call
  returns a proof of the consequent from the same assumptions via the rules and `MP` and the
  conditional; the proof is valid exactly when the specialized conditional is itself among those
  rules. Every other line of it is valid whatever the rules (`proveCorollary_isLineValid`,
  `combineProofs_isLineValid`).
* `proveCorollary_specialized_rule_not_permitted`, `combineProofs_specialized_rule_not_permitted`:
  with `I1` as the conditional, which is no specialization of itself in the place it is used,
  the result is not valid.
-/

namespace Propositions

/-- `prove_corollary(antecedent_proof, consequent, conditional)`. The proof
`implication_proof` the source builds and never uses is left out. -/
def proveCorollary (antecedentProof : Proof) (consequent : Formula)
    (conditional : InferenceRule) : Except PyError Proof := do
  pyAssert antecedentProof.isValid
  pyAssert (InferenceRule.isSpecializationOf
    ⟨[], .bin .implies antecedentProof.statement.conclusion consequent⟩ conditional)
  let implicationRule : InferenceRule :=
    ⟨[], .bin .implies antecedentProof.statement.conclusion consequent⟩
  let some specializationMap := conditional.specializationMap implicationRule
    | throw .typeError
  let specializedConditional := conditional.specialize specializationMap
  let antecedentLine := antecedentProof.lines.length - 1
  let implicationLine := antecedentLine + 1
  let lines := antecedentProof.lines ++
    [⟨specializedConditional.conclusion, some specializedConditional, []⟩]
  let lines := lines ++ [⟨consequent, some MP, [antecedentLine, implicationLine]⟩]
  let rules := antecedentProof.rules ∪ {MP, conditional}
  pure ⟨⟨antecedentProof.statement.assumptions, consequent⟩, rules, lines⟩

/-- `combine_proofs(antecedent1_proof, antecedent2_proof, consequent, double_conditional)`. -/
def combineProofs (antecedent1Proof antecedent2Proof : Proof) (consequent : Formula)
    (doubleConditional : InferenceRule) : Except PyError Proof := do
  pyAssert antecedent1Proof.isValid
  pyAssert antecedent2Proof.isValid
  pyAssert (antecedent1Proof.statement.assumptions == antecedent2Proof.statement.assumptions)
  pyAssert (decide (antecedent1Proof.rules = antecedent2Proof.rules))
  pyAssert (InferenceRule.isSpecializationOf
    ⟨[], .bin .implies antecedent1Proof.statement.conclusion
      (.bin .implies antecedent2Proof.statement.conclusion consequent)⟩ doubleConditional)
  let doubleImplicationRule : InferenceRule :=
    ⟨[], .bin .implies antecedent1Proof.statement.conclusion
      (.bin .implies antecedent2Proof.statement.conclusion consequent)⟩
  let some specializationMap := doubleConditional.specializationMap doubleImplicationRule
    | throw .typeError
  let specializedDoubleConditional := doubleConditional.specialize specializationMap
  let totalLinesFromProof1 := antecedent1Proof.lines.length
  let totalLinesFromProof2 := antecedent2Proof.lines.length
  let lines := antecedent1Proof.lines ++
    antecedent2Proof.lines.map (Line.reindex (· + totalLinesFromProof1))
  let lines := lines ++ [⟨specializedDoubleConditional.conclusion,
    some specializedDoubleConditional, []⟩]
  let lines := lines ++ [⟨.bin .implies antecedent2Proof.statement.conclusion consequent, some MP,
    [totalLinesFromProof1 - 1, totalLinesFromProof1 + totalLinesFromProof2]⟩]
  let lines := lines ++ [⟨consequent, some MP, [totalLinesFromProof1 + totalLinesFromProof2 - 1,
    totalLinesFromProof1 + totalLinesFromProof2 + 1]⟩]
  let rules := antecedent1Proof.rules ∪ {MP, doubleConditional}
  pure ⟨⟨antecedent1Proof.statement.assumptions, consequent⟩, rules, lines⟩

/-! ### `prove_corollary` -/

/-- The specialization of `conditional` that `prove_corollary` and `combine_proofs` compute is
the assumptionless rule they matched it against. -/
theorem specialize_of_isSpecializationOf {conditional : InferenceRule} {f : Formula}
    (h : InferenceRule.isSpecializationOf ⟨[], f⟩ conditional) :
  ∃ m, conditional.specializationMap ⟨[], f⟩ = some m ∧ conditional.specialize m = ⟨[], f⟩
  := by
  obtain ⟨m, hm⟩ := Option.isSome_iff_exists.mp h
  exact ⟨m, hm, specialize_specializationMap hm⟩

/-- What `prove_corollary` returns when its assertions hold. -/
theorem proveCorollary_eq {P : Proof} {consequent : Formula} {conditional : InferenceRule}
    (hP : P.isValid)
    (hspec : InferenceRule.isSpecializationOf
      ⟨[], .bin .implies P.statement.conclusion consequent⟩ conditional) :
  proveCorollary P consequent conditional = .ok
    ⟨⟨P.statement.assumptions, consequent⟩, P.rules ∪ {MP, conditional},
      P.lines ++
        [⟨.bin .implies P.statement.conclusion consequent,
            some ⟨[], .bin .implies P.statement.conclusion consequent⟩, []⟩,
         ⟨consequent, some MP, [P.lines.length - 1, P.lines.length]⟩]⟩
  := by
  obtain ⟨m, hm, hsp⟩ := specialize_of_isSpecializationOf hspec
  have hpos := length_pos_of_isValid hP
  simp only [proveCorollary, hP, hspec, hm, hsp, pyAssert_true, List.append_assoc,
    List.singleton_append, Nat.sub_add_cancel hpos]
  rfl

/-- Every line of the proof `prove_corollary` returns, other than the specialized conditional,
is valid whatever its rules: the lines of the given proof and the Modus Ponens step. -/
theorem proveCorollary_isLineValid {P : Proof} {consequent : Formula}
    {conditional : InferenceRule} (hP : P.isValid)
    (hspec : InferenceRule.isSpecializationOf
      ⟨[], .bin .implies P.statement.conclusion consequent⟩ conditional)
    {P' : Proof} (hP' : proveCorollary P consequent conditional = .ok P')
    {n : Nat} (hn : n < P'.lines.length) (hne : n ≠ P.lines.length) :
  P'.isLineValid n
  := by
  rw [proveCorollary_eq hP hspec, Except.ok.injEq] at hP'
  subst hP'
  have hpos := length_pos_of_isValid hP
  simp only [List.length_append, List.length_cons, List.length_nil] at hn
  rcases Nat.lt_or_ge n P.lines.length with hlt | hge
  · -- the lines of the given proof
    exact isLineValid_append rfl Finset.subset_union_left hlt ((isValid_iff.mp hP).2 n hlt)
  · -- `consequent` from the antecedent and the specialized conditional
    obtain rfl : n = P.lines.length + 1 := by omega
    refine isLineValid_of_mp (a := P.statement.conclusion) (getElem?_append_of_eq 1 rfl)
      (by simp) (by omega) (by omega) ?_ ?_
    · rw [List.getElem?_append_left (by omega)]
      exact formula_last_of_isValid hP
    · rw [getElem?_append_of_eq 0 (by simp)]
      rfl

/-- When its assertions hold, `prove_corollary` returns a proof of `consequent` from the same
assumptions via the same rules and `MP` and `conditional`; that proof is valid exactly when
the specialized conditional it cites is one of those rules. -/
theorem proveCorollary_isValid_iff {P : Proof} {consequent : Formula}
    {conditional : InferenceRule} (hP : P.isValid)
    (hspec : InferenceRule.isSpecializationOf
      ⟨[], .bin .implies P.statement.conclusion consequent⟩ conditional) :
  ∃ P', proveCorollary P consequent conditional = .ok P' ∧
    P'.statement = ⟨P.statement.assumptions, consequent⟩ ∧
    P'.rules = P.rules ∪ {MP, conditional} ∧
    (P'.isValid ↔
      ⟨[], .bin .implies P.statement.conclusion consequent⟩ ∈ P.rules ∪ {MP, conditional})
  := ⟨_, proveCorollary_eq hP hspec, rfl, rfl, isValid_iff_mem_rules
    (getElem?_append_of_eq 0 rfl) (by simp)
    fun _ hn hne => proveCorollary_isLineValid hP hspec (proveCorollary_eq hP hspec) hn hne⟩

theorem proveCorollary_isValid_iff_I0 :
  let P : Proof := ⟨⟨[.var "p"], .var "p"⟩, ∅, [⟨.var "p", none, []⟩]⟩
  P.isValid ∧ InferenceRule.isSpecializationOf ⟨[], .bin .implies (.var "p") (.var "p")⟩ I0 ∧
    ∃ P', proveCorollary P (.var "p") I0 = .ok P' ∧
      P'.statement = ⟨P.statement.assumptions, .var "p"⟩ ∧ P'.rules = P.rules ∪ {MP, I0} ∧
      (P'.isValid ↔ ⟨[], .bin .implies (.var "p") (.var "p")⟩ ∈ P.rules ∪ {MP, I0})
  := ⟨rfl, rfl, proveCorollary_isValid_iff rfl rfl⟩

/-- `prove_corollary` at a valid proof of `p` from `p`, with `I1` as the conditional of which
`(p->(q->p))` is a specialization, returns a proof that is not valid: its second-to-last line
names the specialization `(p->(q->p))`, which is not one of its rules. -/
theorem proveCorollary_specialized_rule_not_permitted :
  let P : Proof := ⟨⟨[.var "p"], .var "p"⟩, ∅, [⟨.var "p", none, []⟩]⟩
  let consequent : Formula := .bin .implies (.var "q") (.var "p")
  P.isValid ∧
    InferenceRule.isSpecializationOf ⟨[], .bin .implies (.var "p") consequent⟩ I1 ∧
    (proveCorollary P consequent I1).map Proof.isValid = .ok false
  := ⟨rfl, rfl, rfl⟩

/-! ### `combine_proofs` -/

/-- What `combine_proofs` returns when its assertions hold: the first proof's lines, the second
proof's lines with their citations shifted past them, the specialized double conditional, and
two Modus Ponens steps. -/
theorem combineProofs_eq {P₁ P₂ : Proof} {consequent : Formula} {doubleConditional : InferenceRule}
    (h₁ : P₁.isValid) (h₂ : P₂.isValid)
    (hassm : P₁.statement.assumptions = P₂.statement.assumptions) (hrules : P₁.rules = P₂.rules)
    (hspec : InferenceRule.isSpecializationOf ⟨[], .bin .implies P₁.statement.conclusion
      (.bin .implies P₂.statement.conclusion consequent)⟩ doubleConditional) :
  combineProofs P₁ P₂ consequent doubleConditional = .ok
    ⟨⟨P₁.statement.assumptions, consequent⟩, P₁.rules ∪ {MP, doubleConditional},
      P₁.lines ++ P₂.lines.map (Line.reindex (· + P₁.lines.length)) ++
        [⟨.bin .implies P₁.statement.conclusion (.bin .implies P₂.statement.conclusion consequent),
            some ⟨[], .bin .implies P₁.statement.conclusion
              (.bin .implies P₂.statement.conclusion consequent)⟩, []⟩,
         ⟨.bin .implies P₂.statement.conclusion consequent, some MP,
            [P₁.lines.length - 1, P₁.lines.length + P₂.lines.length]⟩,
         ⟨consequent, some MP,
            [P₁.lines.length + P₂.lines.length - 1, P₁.lines.length + P₂.lines.length + 1]⟩]⟩
  := by
  obtain ⟨m, hm, hsp⟩ := specialize_of_isSpecializationOf hspec
  simp [combineProofs, h₁, h₂, hassm, hrules, hspec, hm, hsp]
  rfl

/-- Every line of the proof `combine_proofs` returns, other than the specialized double
conditional, is valid whatever its rules: the lines of both proofs, the second's with their
citations shifted, and both Modus Ponens steps. -/
theorem combineProofs_isLineValid {P₁ P₂ : Proof} {consequent : Formula}
    {doubleConditional : InferenceRule} (h₁ : P₁.isValid) (h₂ : P₂.isValid)
    (hassm : P₁.statement.assumptions = P₂.statement.assumptions) (hrules : P₁.rules = P₂.rules)
    (hspec : InferenceRule.isSpecializationOf ⟨[], .bin .implies P₁.statement.conclusion
      (.bin .implies P₂.statement.conclusion consequent)⟩ doubleConditional)
    {P' : Proof} (hP' : combineProofs P₁ P₂ consequent doubleConditional = .ok P')
    {n : Nat} (hn : n < P'.lines.length) (hne : n ≠ P₁.lines.length + P₂.lines.length) :
  P'.isLineValid n
  := by
  rw [combineProofs_eq h₁ h₂ hassm hrules hspec, Except.ok.injEq] at hP'
  subst hP'
  have hp₁ := length_pos_of_isValid h₁
  have hp₂ := length_pos_of_isValid h₂
  have hMP : MP ∈ P₁.rules ∪ {MP, doubleConditional} := by simp
  simp only [List.length_append, List.length_map, List.length_cons, List.length_nil] at hn
  rcases Nat.lt_or_ge n (P₁.lines.length + P₂.lines.length) with hlt | hge
  · -- the lines of both proofs
    exact isLineValid_splice h₁ h₂ rfl hassm Finset.subset_union_left hrules n (by simpa using hlt)
  obtain rfl | rfl : n = P₁.lines.length + P₂.lines.length + 1 ∨
      n = P₁.lines.length + P₂.lines.length + 2 := by omega
  · -- `(B->C)` from `A` and the double conditional
    refine isLineValid_of_mp (a := P₁.statement.conclusion) (getElem?_splice_tail 1 (by simp))
      hMP (by omega) (by omega) ?_ ?_
    · rw [getElem?_splice_front (by omega)]
      exact formula_last_of_isValid h₁
    · rw [getElem?_splice_tail 0 (by simp)]
      rfl
  · -- `C` from `B` and `(B->C)`
    refine isLineValid_of_mp (a := P₂.statement.conclusion) (getElem?_splice_tail 2 (by simp))
      hMP (by omega) (by omega) ?_ ?_
    · rw [getElem?_splice_middle (j := P₂.lines.length - 1) (by simp; omega) (by omega),
        List.getElem?_map, Option.map_map]
      simpa [Function.comp_def] using formula_last_of_isValid h₂
    · rw [getElem?_splice_tail 1 (by simp)]
      rfl

/-- When its assertions hold, `combine_proofs` returns a proof of `consequent` from the same
assumptions via the same rules and `MP` and `double_conditional`, with
`len(P₁.lines) + len(P₂.lines) + 3` lines, every one of which other than the specialized double
conditional is valid; that proof is valid exactly when the specialized double conditional it
cites is one of those rules. -/
theorem combineProofs_isValid_iff {P₁ P₂ : Proof} {consequent : Formula}
    {doubleConditional : InferenceRule} (h₁ : P₁.isValid) (h₂ : P₂.isValid)
    (hassm : P₁.statement.assumptions = P₂.statement.assumptions) (hrules : P₁.rules = P₂.rules)
    (hspec : InferenceRule.isSpecializationOf ⟨[], .bin .implies P₁.statement.conclusion
      (.bin .implies P₂.statement.conclusion consequent)⟩ doubleConditional) :
  ∃ P', combineProofs P₁ P₂ consequent doubleConditional = .ok P' ∧
    P'.statement = ⟨P₁.statement.assumptions, consequent⟩ ∧
    P'.rules = P₁.rules ∪ {MP, doubleConditional} ∧
    P'.lines.length = P₁.lines.length + P₂.lines.length + 3 ∧
    (∀ n < P'.lines.length, n ≠ P₁.lines.length + P₂.lines.length → P'.isLineValid n) ∧
    (P'.isValid ↔ ⟨[], .bin .implies P₁.statement.conclusion
      (.bin .implies P₂.statement.conclusion consequent)⟩ ∈ P₁.rules ∪ {MP, doubleConditional})
  := by
  have heq := combineProofs_eq h₁ h₂ hassm hrules hspec
  have hother := fun n (hn : n < _) hne =>
    combineProofs_isLineValid h₁ h₂ hassm hrules hspec heq hn hne
  exact ⟨_, heq, rfl, rfl, by simp; omega, hother,
    isValid_iff_mem_rules (getElem?_splice_tail 0 (by simp)) (by simp) hother⟩

theorem combineProofs_isValid_iff_I1 :
  let P : Proof := ⟨⟨[.var "p"], .var "p"⟩, ∅, [⟨.var "p", none, []⟩]⟩
  let pp : Formula := .bin .implies (.var "p") (.bin .implies (.var "p") (.var "p"))
  P.isValid ∧ P.isValid ∧ P.statement.assumptions = P.statement.assumptions ∧ P.rules = P.rules ∧
    InferenceRule.isSpecializationOf ⟨[], pp⟩ I1 ∧
    ∃ P', combineProofs P P (.var "p") I1 = .ok P' ∧
      P'.statement = ⟨P.statement.assumptions, .var "p"⟩ ∧ P'.rules = P.rules ∪ {MP, I1} ∧
      P'.lines.length = P.lines.length + P.lines.length + 3 ∧
      (∀ n < P'.lines.length, n ≠ P.lines.length + P.lines.length → P'.isLineValid n) ∧
      (P'.isValid ↔ ⟨[], pp⟩ ∈ P.rules ∪ {MP, I1})
  := ⟨rfl, rfl, rfl, rfl, rfl, combineProofs_isValid_iff rfl rfl rfl rfl rfl⟩

/-- `combine_proofs` at two copies of the valid proof of `p` from `p`, with `I1` as the double
conditional of which `(p->(p->p))` is a specialization, returns a proof that is not valid: the
line it adds first names the specialization `(p->(p->p))`, which is not one of its rules. -/
theorem combineProofs_specialized_rule_not_permitted :
  let P : Proof := ⟨⟨[.var "p"], .var "p"⟩, ∅, [⟨.var "p", none, []⟩]⟩
  P.isValid ∧
    InferenceRule.isSpecializationOf
      ⟨[], .bin .implies (.var "p") (.bin .implies (.var "p") (.var "p"))⟩ I1 ∧
    (combineProofs P P (.var "p") I1).map Proof.isValid = .ok false
  := ⟨rfl, rfl, rfl⟩

end Propositions
