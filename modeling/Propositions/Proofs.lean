import Propositions.Specialization
import Mathlib.Data.Finset.Basic

/-!
# Proofs

The proof collaborator of `propositions/proofs.py` and the axiom schemas of
`propositions/axiomatic_systems.py`, modelled from the spec. A proof is a statement, a set of
permitted rules and a list of lines. A line is either an assumption line, whose formula must be
one of the statement's assumptions, or a rule line, which names a permitted rule and cites
strictly earlier lines, and whose formula, with the cited lines' formulas as assumptions, is a
specialization of the rule. A proof is valid when every line is and the last line proves the
statement's conclusion.

The validity of a line depends on the line, the statement's assumptions, the rules, and the
formulas of the lines it cites, and on nothing else: `isLineValid_transport` moves a valid line
to another proof along any map of line numbers that keeps these. Copying a proof's lines in
front of others (`isLineValid_append`) and after others with shifted citations
(`isLineValid_shifted`) are its two instances the maneuvers of `deduction.py` use. A proof
all of whose lines but one are valid, that one stating a formula by its own assumptionless rule,
is valid exactly when that rule is permitted (`isValid_iff_mem_rules`).
-/

namespace Propositions

/-- Modelled from the spec: a line of a proof, its formula, and, unless it is an assumption
line, the rule it names and the numbers of the lines it cites. -/
structure Line where
  formula : Formula
  rule : Option InferenceRule := none
  assumptions : List Nat := []
  deriving DecidableEq, Repr

/-- Modelled from the spec: `is_assumption()`, a line that names no rule. -/
def Line.isAssumption (line : Line) : Bool := line.rule.isNone

/-- Modelled from the spec: a proof of a statement via a set of rules. -/
structure Proof where
  statement : InferenceRule
  rules : Finset InferenceRule
  lines : List Line

/-- Modelled from the spec: `rule_for_line`, the rule a rule line applies: the formulas of the
cited lines as assumptions, and the line's formula as conclusion. -/
def Proof.ruleForLine (proof : Proof) (lineNumber : Nat) : Option InferenceRule :=
  match proof.lines[lineNumber]? with
  | none => none
  | some line =>
    if line.isAssumption then none
    else (line.assumptions.mapM fun i => proof.lines[i]?.map Line.formula).map
      fun assumptions => ⟨assumptions, line.formula⟩

/-- Modelled from the spec: `is_line_valid`. -/
def Proof.isLineValid (proof : Proof) (lineNumber : Nat) : Bool :=
  match proof.lines[lineNumber]? with
  | none => false
  | some line =>
    match line.rule with
    | none => line.formula ∈ proof.statement.assumptions
    | some rule =>
      decide (rule ∈ proof.rules) && line.assumptions.all (· < lineNumber) &&
        (proof.ruleForLine lineNumber).any (·.isSpecializationOf rule)

/-- Modelled from the spec: `is_valid`, every line valid and the last one the conclusion. -/
def Proof.isValid (proof : Proof) : Bool :=
  proof.lines.getLast?.map Line.formula == some proof.statement.conclusion &&
    (List.range proof.lines.length).all proof.isLineValid

/-! ### The axiom schemas -/

/-- Modelled from the spec: Modus Ponens, `p` and `(p->q)` give `q`. -/
def MP : InferenceRule :=
  ⟨[.var "p", .bin .implies (.var "p") (.var "q")], .var "q"⟩

/-- Modelled from the spec: the identity schema `(p->p)`. -/
def I0 : InferenceRule := ⟨[], .bin .implies (.var "p") (.var "p")⟩

/-- Modelled from the spec: the weakening schema `(q->(p->q))`. -/
def I1 : InferenceRule := ⟨[], .bin .implies (.var "q") (.bin .implies (.var "p") (.var "q"))⟩

/-- Modelled from the spec: the distribution schema `((p->(q->r))->((p->q)->(p->r)))`. -/
def D : InferenceRule :=
  ⟨[], .bin .implies (.bin .implies (.var "p") (.bin .implies (.var "q") (.var "r")))
    (.bin .implies (.bin .implies (.var "p") (.var "q")) (.bin .implies (.var "p") (.var "r")))⟩

/-- Modelled from the spec: the ex falso schema `(~p->(p->q))`. -/
def I2 : InferenceRule :=
  ⟨[], .bin .implies (.neg (.var "p")) (.bin .implies (.var "p") (.var "q"))⟩

/-- Every Modus Ponens step is a specialization of `MP`. -/
theorem isSpecializationOf_MP (a b : Formula) :
  InferenceRule.isSpecializationOf ⟨[a, .bin .implies a b], b⟩ MP
  := isSpecializationOf_iff.mpr ⟨[("p", a), ("q", b)], rfl⟩

/-- Every `(~a->(a->c))` is a specialization of `I2`. -/
theorem isSpecializationOf_I2 (a c : Formula) :
  InferenceRule.isSpecializationOf ⟨[], .bin .implies (.neg a) (.bin .implies a c)⟩ I2
  := isSpecializationOf_iff.mpr ⟨[("p", a), ("q", c)], rfl⟩

/-- Every `(a->a)` is a specialization of `I0`. -/
theorem isSpecializationOf_I0 (a : Formula) :
  InferenceRule.isSpecializationOf ⟨[], .bin .implies a a⟩ I0
  := isSpecializationOf_iff.mpr ⟨[("p", a)], rfl⟩

/-- Every `(b->(a->b))` is a specialization of `I1`. -/
theorem isSpecializationOf_I1 (a b : Formula) :
  InferenceRule.isSpecializationOf ⟨[], .bin .implies b (.bin .implies a b)⟩ I1
  := isSpecializationOf_iff.mpr ⟨[("p", a), ("q", b)], rfl⟩

/-- `((a->(b->c))->((a->b)->(a->d)))` is a specialization of `D` exactly when `c` is `d`. -/
theorem isSpecializationOf_D_iff (a b c d : Formula) :
  InferenceRule.isSpecializationOf ⟨[], .bin .implies (.bin .implies a (.bin .implies b c))
    (.bin .implies (.bin .implies a b) (.bin .implies a d))⟩ D ↔ c = d
  := by
  rw [isSpecializationOf_iff]
  constructor
  · rintro ⟨m, hm⟩
    simp only [D, InferenceRule.specialize, Formula.substituteVariables, List.map_nil,
      InferenceRule.mk.injEq, Formula.bin.injEq, true_and] at hm
    exact hm.1.2.2.symm.trans hm.2.2.2
  · rintro rfl
    exact ⟨[("p", a), ("q", b), ("r", c)], rfl⟩

/-! ### Validity, line by line -/

theorem isValid_iff {proof : Proof} :
  proof.isValid ↔ proof.lines.getLast?.map Line.formula = some proof.statement.conclusion ∧
    ∀ n < proof.lines.length, proof.isLineValid n
  := by
  simp [Proof.isValid, List.all_eq_true]

/-- A proof with no lines proves nothing. -/
@[simp]
theorem isValid_nil (statement : InferenceRule) (rules : Finset InferenceRule) :
  (Proof.mk statement rules []).isValid = false
  := rfl

/-- `line` with its citations sent through `g`; an assumption line cites nothing and is kept. -/
def Line.reindex (g : Nat → Nat) (line : Line) : Line :=
  if line.isAssumption then line else { line with assumptions := line.assumptions.map g }

@[simp]
theorem Line.reindex_formula (g : Nat → Nat) (line : Line) :
  (line.reindex g).formula = line.formula
  := by
  unfold Line.reindex
  split <;> rfl

@[simp]
theorem Line.reindex_id : Line.reindex id = id := by
  funext line
  simp [Line.reindex]

@[simp]
theorem Line.reindex_rule (g : Nat → Nat) (line : Line) : (line.reindex g).rule = line.rule := by
  unfold Line.reindex
  split <;> rfl

theorem Line.reindex_of_rule {g : Nat → Nat} {line : Line} {rule : InferenceRule}
    (h : line.rule = some rule) :
  line.reindex g = { line with assumptions := line.assumptions.map g }
  := by
  simp [Line.reindex, Line.isAssumption, h]

theorem mapM_map_congr {l : List Nat} {g : Nat → Nat} {f f' : Nat → Option Formula}
    (h : ∀ i ∈ l, f' (g i) = f i) :
  (l.map g).mapM f' = l.mapM f
  := by
  induction l with
  | nil => rfl
  | cons i l ih =>
    simp only [List.map_cons, List.mapM_cons, h i (List.mem_cons_self i l),
      ih fun j hj => h j (List.mem_cons_of_mem i hj)]

/-- The rule a rule line applies, from the formulas of the lines it cites. -/
theorem ruleForLine_of_rule {P : Proof} {n : Nat} {line : Line} {rule : InferenceRule}
    (hline : P.lines[n]? = some line) (hrule : line.rule = some rule) :
  P.ruleForLine n =
    (line.assumptions.mapM fun i => P.lines[i]?.map Line.formula).map (⟨·, line.formula⟩)
  := by
  simp [Proof.ruleForLine, hline, Line.isAssumption, hrule]

/-- A valid line stays valid in another proof with the same assumptions and more rules, moved
along a map of line numbers `g` that keeps cited lines before it and their formulas. -/
theorem isLineValid_transport {P P' : Proof} {n n' : Nat} (g : Nat → Nat)
    (hassm : P'.statement.assumptions = P.statement.assumptions) (hrules : P.rules ⊆ P'.rules)
    (hline : P'.lines[n']? = P.lines[n]?.map (Line.reindex g))
    (hlt : ∀ i < n, g i < n')
    (hcited : ∀ i < n, P'.lines[g i]?.map Line.formula = P.lines[i]?.map Line.formula)
    (hvalid : P.isLineValid n) :
  P'.isLineValid n'
  := by
  unfold Proof.isLineValid at hvalid ⊢
  cases hP : P.lines[n]? with
  | none => simp [hP] at hvalid
  | some line =>
    simp only [hP, Option.map_some'] at hvalid hline
    simp only [hline, Line.reindex_rule]
    cases hrule : line.rule with
    | none => simpa [hrule, hassm] using hvalid
    | some rule =>
      simp only [hrule, Bool.and_eq_true, decide_eq_true_eq, List.all_eq_true] at hvalid ⊢
      obtain ⟨⟨hmem, hcites⟩, hspec⟩ := hvalid
      have hfor : P'.ruleForLine n' = P.ruleForLine n := by
        rw [ruleForLine_of_rule hline ((Line.reindex_rule g line).trans hrule),
          ruleForLine_of_rule hP hrule, Line.reindex_of_rule hrule]
        simp only [Line.reindex_formula]
        rw [mapM_map_congr fun i hi => hcited i (hcites i hi)]
      rw [Line.reindex_of_rule hrule, hfor]
      simp only [List.mem_map, forall_exists_index, and_imp, forall_apply_eq_imp_iff₂]
      exact ⟨⟨hrules hmem, fun i hi => hlt i (hcites i hi)⟩, hspec⟩

/-- A valid line stays valid when lines are appended after the proof. -/
theorem isLineValid_append {statement statement' : InferenceRule}
    {rules rules' : Finset InferenceRule} {lines rest : List Line} {n : Nat}
    (hassm : statement'.assumptions = statement.assumptions) (hrules : rules ⊆ rules')
    (hn : n < lines.length) (hvalid : (Proof.mk statement rules lines).isLineValid n) :
  (Proof.mk statement' rules' (lines ++ rest)).isLineValid n
  := by
  refine isLineValid_transport id hassm hrules ?_ (fun i hi => hi) (fun i hi => ?_) hvalid
  · simp [List.getElem?_append_left hn]
  · simp [List.getElem?_append_left (hi.trans hn)]

/-- A valid line stays valid, with its citations shifted by `front.length`, when its proof's
lines are laid out after `front` and before `rest`. -/
theorem isLineValid_shifted {statement statement' : InferenceRule}
    {rules rules' : Finset InferenceRule} {front lines rest : List Line} {j : Nat}
    (hassm : statement'.assumptions = statement.assumptions) (hrules : rules ⊆ rules')
    (hj : j < lines.length) (hvalid : (Proof.mk statement rules lines).isLineValid j) :
  (Proof.mk statement' rules'
    (front ++ lines.map (Line.reindex (· + front.length)) ++ rest)).isLineValid
    (front.length + j)
  := by
  have hget : ∀ i < lines.length,
      (front ++ lines.map (Line.reindex (· + front.length)) ++ rest)[front.length + i]? =
        lines[i]?.map (Line.reindex (· + front.length)) := fun i hi => by
    rw [List.append_assoc, List.getElem?_append_right (by omega), Nat.add_sub_cancel_left,
      List.getElem?_append_left (by simpa using hi), List.getElem?_map]
  refine isLineValid_transport (· + front.length) hassm hrules (hget j hj)
    (fun i hi => by dsimp only; omega) (fun i hi => ?_) hvalid
  dsimp only
  rw [Nat.add_comm, hget i (hi.trans hj), Option.map_map]
  simp [Function.comp_def]

/-- A Modus Ponens line citing earlier lines that prove `a` and `(a->b)` is valid. -/
theorem isLineValid_of_mp {P : Proof} {n i j : Nat} {a b : Formula}
    (hline : P.lines[n]? = some ⟨b, some MP, [i, j]⟩) (hMP : MP ∈ P.rules)
    (hi : i < n) (hj : j < n) (hfi : P.lines[i]?.map Line.formula = some a)
    (hfj : P.lines[j]?.map Line.formula = some (.bin .implies a b)) :
  P.isLineValid n
  := by
  have hfor := ruleForLine_of_rule hline rfl
  simp only [List.mapM_cons, List.mapM_nil, hfi, hfj] at hfor
  simp [Proof.isLineValid, hline, hMP, hi, hj, hfor, isSpecializationOf_MP]

/-- A line that cites nothing is valid exactly when its rule is permitted and the assumptionless
rule with the line's formula is a specialization of it. -/
theorem isLineValid_axiom_iff {P : Proof} {n : Nat} {f : Formula} {r : InferenceRule}
    (hline : P.lines[n]? = some ⟨f, some r, []⟩) :
  P.isLineValid n ↔ r ∈ P.rules ∧ InferenceRule.isSpecializationOf ⟨[], f⟩ r
  := by
  have hfor := ruleForLine_of_rule hline rfl
  simp only [List.mapM_nil] at hfor
  simp [Proof.isLineValid, hline, hfor]

theorem isLineValid_of_axiom {P : Proof} {n : Nat} {f : Formula} {r : InferenceRule}
    (hline : P.lines[n]? = some ⟨f, some r, []⟩) (hr : r ∈ P.rules)
    (hspec : InferenceRule.isSpecializationOf ⟨[], f⟩ r) :
  P.isLineValid n
  := (isLineValid_axiom_iff hline).mpr ⟨hr, hspec⟩

/-- A proof whose last line proves its conclusion and each line of which but one is valid, that
one stating a formula `f` by the assumptionless rule of `f`, is valid exactly when that rule is
permitted. -/
theorem isValid_iff_mem_rules {P : Proof} {k : Nat} {f : Formula}
    (hline : P.lines[k]? = some ⟨f, some ⟨[], f⟩, []⟩)
    (hlast : P.lines.getLast?.map Line.formula = some P.statement.conclusion)
    (hother : ∀ n < P.lines.length, n ≠ k → P.isLineValid n) :
  P.isValid ↔ ⟨[], f⟩ ∈ P.rules
  := by
  refine ⟨fun h => ((isLineValid_axiom_iff hline).mp ((isValid_iff.mp h).2 k ?_)).1,
    fun hmem => isValid_iff.mpr ⟨hlast, fun n hn => ?_⟩⟩
  · exact (List.getElem?_eq_some_iff.mp hline).1
  · rcases eq_or_ne n k with rfl | hne
    · exact isLineValid_of_axiom hline hmem (isSpecializationOf_self _)
    · exact hother n hn hne

/-! ### Splicing line lists -/

/-- The last line of a valid proof proves its conclusion. -/
theorem formula_last_of_isValid {P : Proof} (h : P.isValid) :
  P.lines[P.lines.length - 1]?.map Line.formula = some P.statement.conclusion
  := by
  rw [← List.getLast?_eq_getElem?]
  exact (isValid_iff.mp h).1

theorem length_pos_of_isValid {P : Proof} (h : P.isValid) : 0 < P.lines.length := by
  cases hl : P.lines with
  | nil => simp [Proof.isValid, hl] at h
  | cons _ _ => simp

/-- A property holds at every line number of `front ++ tail` when it holds at those of `front`
and at those of `tail`, counted from the end of `front`. -/
theorem forall_lt_length_append {P : Nat → Prop} {front tail : List Line}
    (hfront : ∀ n < front.length, P n) (htail : ∀ j < tail.length, P (front.length + j)) :
  ∀ n < (front ++ tail).length, P n
  := by
  intro n hn
  rw [List.length_append] at hn
  by_cases h : n < front.length
  · exact hfront n h
  · simpa [Nat.add_sub_cancel' (Nat.le_of_not_lt h)] using htail (n - front.length) (by omega)

/-- Two valid proofs with the same assumptions and rules, the second's lines laid out after the
first's with their citations shifted past them, and then any `tail`: each line of the two proofs
is valid there, for a statement with those assumptions via more rules. -/
theorem isLineValid_splice {P₁ P₂ : Proof} {statement : InferenceRule}
    {rules : Finset InferenceRule} {tail : List Line} (h₁ : P₁.isValid) (h₂ : P₂.isValid)
    (hassm₁ : statement.assumptions = P₁.statement.assumptions)
    (hassm₂ : P₁.statement.assumptions = P₂.statement.assumptions)
    (hsub : P₁.rules ⊆ rules) (hrules : P₁.rules = P₂.rules) :
  ∀ n < (P₁.lines ++ P₂.lines.map (Line.reindex (· + P₁.lines.length))).length,
    (Proof.mk statement rules
      (P₁.lines ++ P₂.lines.map (Line.reindex (· + P₁.lines.length)) ++ tail)).isLineValid n
  := by
  refine forall_lt_length_append (fun n hn => ?_) fun j hj => ?_
  · -- the lines of the first proof
    rw [List.append_assoc]
    exact isLineValid_append hassm₁ hsub hn ((isValid_iff.mp h₁).2 n hn)
  · -- the lines of the second proof, shifted
    rw [List.length_map] at hj
    exact isLineValid_shifted (hassm₁.trans hassm₂) (hrules ▸ hsub) hj ((isValid_iff.mp h₂).2 j hj)

/-- The same two proofs and then `tail` form a valid proof when every line of `tail` is valid
there and the last one proves the statement's conclusion. -/
theorem isValid_splice {P₁ P₂ : Proof} {statement : InferenceRule} {rules : Finset InferenceRule}
    {tail : List Line} (h₁ : P₁.isValid) (h₂ : P₂.isValid)
    (hassm₁ : statement.assumptions = P₁.statement.assumptions)
    (hassm₂ : P₁.statement.assumptions = P₂.statement.assumptions)
    (hsub : P₁.rules ⊆ rules) (hrules : P₁.rules = P₂.rules)
    (hlast : tail.getLast?.map Line.formula = some statement.conclusion)
    (htail : ∀ j < tail.length, (Proof.mk statement rules
      (P₁.lines ++ P₂.lines.map (Line.reindex (· + P₁.lines.length)) ++ tail)).isLineValid
        (P₁.lines.length + (P₂.lines.map (Line.reindex (· + P₁.lines.length))).length + j)) :
  (Proof.mk statement rules
    (P₁.lines ++ P₂.lines.map (Line.reindex (· + P₁.lines.length)) ++ tail)).isValid
  := by
  obtain ⟨last, hl, hf⟩ := Option.map_eq_some'.mp hlast
  refine isValid_iff.mpr ⟨by simp [hl, hf], forall_lt_length_append
    (isLineValid_splice h₁ h₂ hassm₁ hassm₂ hsub hrules) fun j hj => ?_⟩
  simpa using htail j hj

theorem getElem?_append_of_eq {front tail : List Line} {n : Nat} (j : Nat)
    (hn : n = front.length + j) :
  (front ++ tail)[n]? = tail[j]?
  := by
  rw [List.getElem?_append_right (by omega), hn, Nat.add_sub_cancel_left]

theorem getElem?_splice_front {front middle tail : List Line} {n : Nat} (hn : n < front.length) :
  (front ++ middle ++ tail)[n]? = front[n]?
  := by
  rw [List.append_assoc, List.getElem?_append_left hn]

theorem getElem?_splice_middle {front middle tail : List Line} {n j : Nat}
    (hj : j < middle.length) (hn : n = front.length + j) :
  (front ++ middle ++ tail)[n]? = middle[j]?
  := by
  rw [List.append_assoc, List.getElem?_append_right (by omega), List.getElem?_append_left
    (by omega), hn, Nat.add_sub_cancel_left]

theorem getElem?_splice_tail {front middle tail : List Line} {n : Nat} (j : Nat)
    (hn : n = front.length + middle.length + j) :
  (front ++ middle ++ tail)[n]? = tail[j]?
  := by
  rw [List.getElem?_append_right (by simp; omega), hn, List.length_append, Nat.add_sub_cancel_left]

end Propositions
