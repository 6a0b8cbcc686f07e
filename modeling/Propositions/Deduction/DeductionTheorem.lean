import Propositions.Runtime
import Propositions.Proofs

/-!
# Removing an assumption

`remove_assumption` of `propositions/deduction.py`, the maneuver of the Deduction Theorem. Its
loop walks the lines of the proof and collects lines in `new_lines`: `(φ->φ)` by `I0` for the
removed assumption `φ`, the `I1` instance `(ψ->(φ->ψ))` for another assumption `ψ`, the
distribution instance by `D` for a Modus Ponens line, and for a line of an assumptionless rule
the line itself, its `I1` instance and a Modus Ponens step to `(φ->ψ)`. The proof it returns is
built from the statement and the rules alone, with no lines.

* `removeAssumptionLoop_ok`: on a proof that meets the assertions the loop never raises; a valid
  Modus Ponens line cites exactly two earlier lines (`isLineValid_MP_cites`).
* `removeAssumptionLoop_isLineValid_iff`: after any number of passes, a line of `new_lines` is a
  valid line of the proof the Deduction Theorem promises (`deductionProof`) exactly unless it names
  `D` for a formula that is no instance of `D`; proved from the step lemma `LoopLinesValid.step`
  by induction over the lines (`LoopLinesValid.foldlM`).
* `removeAssumptionLoop_MP_not_isLineValid`: the line appended for a Modus Ponens line is such a
  line, since its formula `((φ->(χ->(χ->ψ)))->((φ->χ)->(φ->ψ)))` is no instance of `D`
  (`dFormula_not_specialization`).
* `removeAssumptionLoop_states_implication`: the loop only appends, so that what `new_lines` holds
  after a pass is a prefix of what it holds after every later one (`foldlM_run`,
  `removeAssumptionLoop_take_prefix`); and once the loop has passed the removed assumption or a
  line of an assumptionless rule, `new_lines` states `(φ->ψ)` for that line's formula `ψ`.
* `removeAssumption_eq`: on such a proof `remove_assumption` returns the statement and rules the
  Deduction Theorem promises, and no lines, so never a valid proof.
-/

namespace Propositions

/-- One pass of the loop of `remove_assumption` over `line`, `assumption` being the assumption
removed: `new_lines` with what the pass appends. -/
def removeAssumptionStep (proof : Proof) (assumption : Formula) (newLines : List Line)
    (line : Line) : Except PyError (List Line) :=
  let formula := line.formula
  if line.isAssumption then
    if formula = assumption then
      pure (newLines ++ [⟨.bin .implies assumption assumption, some I0, []⟩])
    else
      pure (newLines ++
        [⟨.bin .implies formula (.bin .implies assumption formula), some I1, []⟩])
  else if line.rule = some MP then do
    let phiLine ← pyIndex line.assumptions 0
    let implicationLine ← pyIndex line.assumptions 1
    let phi ← pyIndex proof.lines phiLine
    let implication ← pyIndex proof.lines implicationLine
    let dFormula := Formula.bin .implies
      (.bin .implies assumption (.bin .implies phi.formula implication.formula))
      (.bin .implies (.bin .implies assumption phi.formula) (.bin .implies assumption formula))
    pure (newLines ++ [⟨dFormula, some D, []⟩])
  else
    let newLines := newLines ++ [⟨formula, line.rule, []⟩]
    let i1Formula := Formula.bin .implies formula (.bin .implies assumption formula)
    let newLines := newLines ++ [⟨i1Formula, some I1, []⟩]
    let mpLine1 := newLines.length - 2
    let mpLine2 := newLines.length - 1
    pure (newLines ++ [⟨.bin .implies assumption formula, some MP, [mpLine1, mpLine2]⟩])

/-- The loop of `remove_assumption`: `new_lines` after every line of `proof`. -/
def removeAssumptionLoop (proof : Proof) (assumption : Formula) : Except PyError (List Line) :=
  proof.lines.foldlM (removeAssumptionStep proof assumption) []

/-- `remove_assumption(proof)`. -/
def removeAssumption (proof : Proof) : Except PyError Proof := do
  pyAssert proof.isValid
  pyAssert (proof.statement.assumptions.length > 0)
  pyAssert (decide (∀ rule ∈ proof.rules, rule = MP ∨ rule.assumptions.length = 0))
  let assumption ← pyIndex proof.statement.assumptions (proof.statement.assumptions.length - 1)
  let conclusion := proof.statement.conclusion
  let _ ← removeAssumptionLoop proof assumption
  let newStatement : InferenceRule :=
    ⟨proof.statement.assumptions.dropLast, .bin .implies assumption conclusion⟩
  let rules := proof.rules ∪ {MP, I0, I1, D}
  pure ⟨newStatement, rules, []⟩

/-- The proof `remove_assumption` builds, with `lines` in place of the empty list: the statement
`(assumption->conclusion)` from the other assumptions, via the rules and `MP`, `I0`, `I1`, `D`. -/
def deductionProof (proof : Proof) (assumption : Formula) (lines : List Line) : Proof :=
  ⟨⟨proof.statement.assumptions.dropLast, .bin .implies assumption proof.statement.conclusion⟩,
    proof.rules ∪ {MP, I0, I1, D}, lines⟩

/-! ### The loop never raises -/

theorem length_of_mapM_eq_some {l : List Nat} {f : Nat → Option Formula} {l' : List Formula}
    (h : l.mapM f = some l') :
  l'.length = l.length
  := by
  induction l generalizing l' with
  | nil => cases h; rfl
  | cons i l ih =>
    simp only [List.mapM_cons, Option.bind_eq_bind, Option.bind_eq_some, Option.pure_def,
      Option.some.injEq] at h
    obtain ⟨a, -, l'', hl'', rfl⟩ := h
    simp [ih hl'']

/-- What the validity of a rule line says: its rule is permitted, it cites earlier lines only,
and some map specializes its rule to the rule with the cited lines' formulas as assumptions and
its own formula as conclusion. -/
theorem exists_specialize_of_isLineValid {P : Proof} {n : Nat} {line : Line} {r : InferenceRule}
    (hvalid : P.isLineValid n) (hline : P.lines[n]? = some line) (hrule : line.rule = some r) :
  r ∈ P.rules ∧ (∀ i ∈ line.assumptions, i < n) ∧ ∃ cited σ,
    (line.assumptions.mapM fun i => P.lines[i]?.map Line.formula) = some cited ∧
    r.specialize σ = ⟨cited, line.formula⟩
  := by
  rw [Proof.isLineValid, hline] at hvalid
  simp only [hrule, ruleForLine_of_rule hline hrule] at hvalid
  generalize (line.assumptions.mapM fun i => P.lines[i]?.map Line.formula) = cited at hvalid ⊢
  simp only [Bool.and_eq_true, decide_eq_true_eq, List.all_eq_true] at hvalid
  obtain ⟨⟨hmem, hlt⟩, hspec⟩ := hvalid
  cases cited with
  | none => simp at hspec
  | some cited =>
    rw [Option.map_some', Option.any_some] at hspec
    obtain ⟨σ, hσ⟩ := isSpecializationOf_iff.mp hspec
    exact ⟨hmem, hlt, cited, σ, rfl, hσ⟩

/-- A valid Modus Ponens line cites two earlier lines, the second of which proves the first
implying the line's formula. -/
theorem isLineValid_MP_formulas {P : Proof} {n : Nat} {line : Line} (hvalid : P.isLineValid n)
    (hline : P.lines[n]? = some line) (hMP : line.rule = some MP) :
  ∃ i j, line.assumptions = [i, j] ∧ i < n ∧ j < n ∧ ∃ a,
    P.lines[i]?.map Line.formula = some a ∧
    P.lines[j]?.map Line.formula = some (.bin .implies a line.formula)
  := by
  obtain ⟨-, hlt, cited, σ, hm, hσ⟩ := exists_specialize_of_isLineValid hvalid hline hMP
  simp only [MP, InferenceRule.specialize, List.map_cons, List.map_nil,
    InferenceRule.mk.injEq] at hσ
  obtain ⟨rfl, hq⟩ := hσ
  have hlen := length_of_mapM_eq_some hm
  simp only [List.length_cons, List.length_nil] at hlen
  match hl : line.assumptions, hm, hlen with
  | [i, j], hm, _ =>
    simp only [List.mapM_cons, List.mapM_nil, Option.bind_eq_bind, Option.bind_eq_some,
      Option.pure_def, Option.some.injEq] at hm
    obtain ⟨a, ha, _, ⟨b, hb, _, rfl, rfl⟩, h⟩ := hm
    simp only [List.cons.injEq, and_true] at h
    obtain ⟨rfl, rfl⟩ := h
    refine ⟨i, j, rfl, hlt i (by simp [hl]), hlt j (by simp [hl]), _, ha, ?_⟩
    rw [hb, ← hq]
    rfl

/-- A valid Modus Ponens line cites exactly two earlier lines. -/
theorem isLineValid_MP_cites {P : Proof} {n : Nat} {line : Line} (hvalid : P.isLineValid n)
    (hline : P.lines[n]? = some line) (hMP : line.rule = some MP) :
  ∃ i j, line.assumptions = [i, j] ∧ i < n ∧ j < n
  := by
  obtain ⟨i, j, hij, hi, hj, -⟩ := isLineValid_MP_formulas hvalid hline hMP
  exact ⟨i, j, hij, hi, hj⟩

/-- A valid line whose rule has no assumptions cites nothing, and its formula is an instance of
the rule. -/
theorem isLineValid_of_assumptionless {P : Proof} {n : Nat} {line : Line} {r : InferenceRule}
    (hvalid : P.isLineValid n) (hline : P.lines[n]? = some line) (hrule : line.rule = some r)
    (hr : r.assumptions = []) :
  r ∈ P.rules ∧ line.assumptions = [] ∧ InferenceRule.isSpecializationOf ⟨[], line.formula⟩ r
  := by
  obtain ⟨hmem, -, cited, σ, hm, hσ⟩ := exists_specialize_of_isLineValid hvalid hline hrule
  obtain rfl : cited = [] := by
    simpa [InferenceRule.specialize, hr] using (congrArg InferenceRule.assumptions hσ).symm
  exact ⟨hmem, List.length_eq_zero.mp (length_of_mapM_eq_some hm).symm,
    isSpecializationOf_iff.mpr ⟨σ, hσ⟩⟩

/-- No proof accepts a line that names `D` for a formula that is no instance of `D`. -/
theorem not_isLineValid_of_D {P : Proof} {n : Nat} {line : Line}
    (hline : P.lines[n]? = some line) (hrule : line.rule = some D)
    (hnot : InferenceRule.isSpecializationOf ⟨[], line.formula⟩ D = false) :
  ¬P.isLineValid n
  := fun hvalid => by
  simpa [hnot] using (isLineValid_of_assumptionless hvalid hline hrule rfl).2.2

/-- On a valid proof, the pass over any of its lines returns. -/
theorem removeAssumptionStep_ok {P : Proof} {assumption : Formula} (hP : P.isValid)
    {line : Line} (hmem : line ∈ P.lines) (newLines : List Line) :
  ∃ r, removeAssumptionStep P assumption newLines line = .ok r
  := by
  obtain ⟨n, hn, rfl⟩ := List.getElem_of_mem hmem
  unfold removeAssumptionStep
  dsimp only
  split
  · split <;> exact ⟨_, rfl⟩
  split
  · next hMP =>
    obtain ⟨i, j, hij, hi, hj⟩ := isLineValid_MP_cites ((isValid_iff.mp hP).2 n hn)
      (List.getElem?_eq_getElem hn) hMP
    simp [pyIndex, hij, List.getElem?_eq_getElem (hi.trans hn),
      List.getElem?_eq_getElem (hj.trans hn)]
    exact ⟨_, rfl⟩
  · exact ⟨_, rfl⟩

theorem foldlM_ok {f : List Line → Line → Except PyError (List Line)} :
    ∀ {lines : List Line} (acc : List Line), (∀ l ∈ lines, ∀ acc, ∃ r, f acc l = .ok r) →
      ∃ r, lines.foldlM f acc = .ok r
  | [], acc, _ => ⟨acc, rfl⟩
  | l :: lines, acc, h => by
    obtain ⟨r, hr⟩ := h l (List.mem_cons_self l lines) acc
    obtain ⟨r', hr'⟩ := foldlM_ok r fun l' hl' => h l' (List.mem_cons_of_mem l hl')
    exact ⟨r', by simp [List.foldlM_cons, hr, hr']⟩

/-- A relation between lists, reflexive and transitive, that every pass of a loop establishes
between its list before and after holds between the list before and after the whole loop. -/
theorem foldlM_run {f : List Line → Line → Except PyError (List Line)}
    {R : List Line → List Line → Prop} (hrefl : ∀ acc, R acc acc)
    (htrans : ∀ {acc acc' acc''}, R acc acc' → R acc' acc'' → R acc acc'') :
    ∀ {lines acc newLines : List Line},
      (∀ l ∈ lines, ∀ {acc acc'}, f acc l = .ok acc' → R acc acc') →
      lines.foldlM f acc = .ok newLines → R acc newLines
  | [], acc, _, _, h => by
    cases h
    exact hrefl acc
  | l :: lines, _, _, hstep, h => by
    obtain ⟨acc', h₁, h₂⟩ := bind_eq_ok.mp h
    exact htrans (hstep l (List.mem_cons_self l lines) h₁)
      (foldlM_run hrefl htrans (fun l' hl' => hstep l' (List.mem_cons_of_mem l hl')) h₂)

/-- On a valid proof the loop of `remove_assumption` never raises. -/
theorem removeAssumptionLoop_ok {P : Proof} (hP : P.isValid) (assumption : Formula) :
  ∃ newLines, removeAssumptionLoop P assumption = .ok newLines
  := foldlM_ok [] fun _ hl acc => removeAssumptionStep_ok hP hl acc

/-! ### What the loop appends -/

/-- What one pass of the loop appends for a line of a valid proof whose rules are `MP` or
assumptionless: `(φ->φ)` by `I0` for the removed assumption, `(ψ->(φ->ψ))` by `I1` for another
assumption, the distribution formula built from the cited lines by `D` for a Modus Ponens line,
and for a line of an assumptionless rule the line itself, its `I1` instance and a Modus Ponens
step to `(φ->ψ)`. -/
theorem removeAssumptionStep_cases {P : Proof} {φ : Formula} (hP : P.isValid)
    (hrules : ∀ rule ∈ P.rules, rule = MP ∨ rule.assumptions.length = 0)
    {line : Line} (hmem : line ∈ P.lines) (newLines : List Line) :
  (line.rule = none ∧ line.formula = φ ∧ removeAssumptionStep P φ newLines line =
      .ok (newLines ++ [⟨.bin .implies φ φ, some I0, []⟩])) ∨
  (line.rule = none ∧ line.formula ≠ φ ∧ removeAssumptionStep P φ newLines line =
      .ok (newLines ++
        [⟨.bin .implies line.formula (.bin .implies φ line.formula), some I1, []⟩])) ∨
  (line.rule = some MP ∧ ∃ χ, removeAssumptionStep P φ newLines line =
      .ok (newLines ++
        [⟨.bin .implies (.bin .implies φ (.bin .implies χ (.bin .implies χ line.formula)))
          (.bin .implies (.bin .implies φ χ) (.bin .implies φ line.formula)), some D, []⟩])) ∨
  (∃ r, line.rule = some r ∧ r ≠ MP ∧ r ∈ P.rules ∧
    InferenceRule.isSpecializationOf ⟨[], line.formula⟩ r ∧
    removeAssumptionStep P φ newLines line = .ok (newLines ++
      [⟨line.formula, some r, []⟩,
       ⟨.bin .implies line.formula (.bin .implies φ line.formula), some I1, []⟩,
       ⟨.bin .implies φ line.formula, some MP, [newLines.length, newLines.length + 1]⟩]))
  := by
  obtain ⟨k, hk, rfl⟩ := List.getElem_of_mem hmem
  have hvalid := (isValid_iff.mp hP).2 k hk
  have hline := List.getElem?_eq_getElem hk
  unfold removeAssumptionStep
  cases hrule : P.lines[k].rule with
  | none =>
    by_cases hφ : P.lines[k].formula = φ
    · exact .inl ⟨rfl, hφ, by simp [Line.isAssumption, hrule, hφ]; rfl⟩
    · exact .inr (.inl ⟨rfl, hφ, by simp [Line.isAssumption, hrule, hφ]; rfl⟩)
  | some r =>
    by_cases hr : r = MP
    · subst hr
      obtain ⟨i, j, hij, hi, hj, a, ha, hb⟩ := isLineValid_MP_formulas hvalid hline hrule
      obtain ⟨li, hli, rfl⟩ := Option.map_eq_some'.mp ha
      obtain ⟨lj, hlj, hfj⟩ := Option.map_eq_some'.mp hb
      refine .inr (.inr (.inl ⟨rfl, li.formula, ?_⟩))
      simp [Line.isAssumption, hrule, pyIndex, hij, hli, hlj, hfj]
      rfl
    · have hnil : r.assumptions = [] := List.length_eq_zero.mp
        ((hrules r (exists_specialize_of_isLineValid hvalid hline hrule).1).resolve_left hr)
      obtain ⟨hmem', -, hspec⟩ := isLineValid_of_assumptionless hvalid hline hrule hnil
      refine .inr (.inr (.inr ⟨r, rfl, hr, hmem', hspec, ?_⟩))
      simp [Line.isAssumption, hrule, hr]
      rfl

/-! ### Which lines of `new_lines` are valid -/

/-- Every line of `newLines` is a valid line of the proof built around it, or names `D` for a
formula that is no instance of `D`. -/
def LoopLinesValid (proof : Proof) (assumption : Formula) (newLines : List Line) : Prop :=
  ∀ n (hn : n < newLines.length), (deductionProof proof assumption newLines).isLineValid n ∨
    (newLines[n].rule = some D ∧
      InferenceRule.isSpecializationOf ⟨[], newLines[n].formula⟩ D = false)

theorem LoopLinesValid.nil (P : Proof) (φ : Formula) : LoopLinesValid P φ []
  := fun n hn => absurd hn (Nat.not_lt_zero n)

/-- The invariant survives appending lines that are valid, or misname `D`, in the longer list. -/
theorem LoopLinesValid.append {P : Proof} {φ : Formula} {newLines added : List Line}
    (hinv : LoopLinesValid P φ newLines)
    (hadded : ∀ j (hj : j < added.length),
      (deductionProof P φ (newLines ++ added)).isLineValid (newLines.length + j) ∨
        (added[j].rule = some D ∧
          InferenceRule.isSpecializationOf ⟨[], added[j].formula⟩ D = false)) :
  LoopLinesValid P φ (newLines ++ added)
  := by
  intro n hn
  by_cases h : n < newLines.length
  · rw [List.getElem_append_left h]
    exact (hinv n h).imp_left (isLineValid_append rfl subset_rfl h)
  · obtain ⟨j, rfl⟩ := Nat.exists_eq_add_of_le (Nat.le_of_not_lt h)
    rw [List.getElem_append_right (by omega)]
    simpa using hadded j (by simp at hn; omega)

/-- The `D` line the loop appends for a Modus Ponens line misnames `D`: its formula
`((φ->(χ->(χ->ψ)))->((φ->χ)->(φ->ψ)))` puts the cited implication `(χ->ψ)` where the instance of
`D` has `ψ`. -/
theorem dFormula_not_specialization (φ χ ψ : Formula) :
  InferenceRule.isSpecializationOf ⟨[], .bin .implies
    (.bin .implies φ (.bin .implies χ (.bin .implies χ ψ)))
    (.bin .implies (.bin .implies φ χ) (.bin .implies φ ψ))⟩ D = false
  := Bool.eq_false_iff.mpr fun h =>
    Formula.bin_ne_right _ _ _ ((isSpecializationOf_D_iff _ _ _ _).mp h)

/-- One pass of the loop keeps the invariant. -/
theorem LoopLinesValid.step {P : Proof} {φ : Formula} (hP : P.isValid)
    (hrules : ∀ rule ∈ P.rules, rule = MP ∨ rule.assumptions.length = 0)
    {line : Line} (hmem : line ∈ P.lines) {newLines newLines' : List Line}
    (hinv : LoopLinesValid P φ newLines)
    (hstep : removeAssumptionStep P φ newLines line = .ok newLines') :
  LoopLinesValid P φ newLines'
  := by
  have hI0 : I0 ∈ (deductionProof P φ []).rules := by simp [deductionProof]
  have hI1 : I1 ∈ (deductionProof P φ []).rules := by simp [deductionProof]
  have hMP : MP ∈ (deductionProof P φ []).rules := by simp [deductionProof]
  rcases removeAssumptionStep_cases hP hrules hmem newLines with
    ⟨-, -, h⟩ | ⟨-, -, h⟩ | ⟨-, χ, h⟩ | ⟨r, -, -, hr, hspec, h⟩ <;>
    rw [h, Except.ok.injEq] at hstep <;> subst hstep <;> refine hinv.append fun j hj => ?_
  · -- the removed assumption: `(φ->φ)` by `I0`
    match j, hj with
    | 0, _ =>
      exact .inl <| isLineValid_of_axiom (getElem?_append_of_eq 0 rfl) hI0
        (isSpecializationOf_I0 φ)
  · -- another assumption `ψ`: `(ψ->(φ->ψ))` by `I1`
    match j, hj with
    | 0, _ =>
      exact .inl <| isLineValid_of_axiom (getElem?_append_of_eq 0 rfl) hI1
        (isSpecializationOf_I1 _ _)
  · -- a Modus Ponens line: the distribution formula misnames `D`
    match j, hj with
    | 0, _ => exact .inr ⟨rfl, dFormula_not_specialization _ _ _⟩
  · -- an assumptionless rule: the line, its `I1` instance and Modus Ponens
    match j, hj with
    | 0, _ =>
      exact .inl <| isLineValid_of_axiom (getElem?_append_of_eq 0 rfl)
        (Finset.mem_union_left _ hr) hspec
    | 1, _ =>
      exact .inl <| isLineValid_of_axiom (getElem?_append_of_eq 1 rfl) hI1
        (isSpecializationOf_I1 _ _)
    | 2, _ =>
      exact .inl (isLineValid_of_mp (a := line.formula) (getElem?_append_of_eq 2 rfl) hMP
        (by omega) (by omega) (by simp [deductionProof, List.getElem_append_right])
        (by simp [deductionProof, List.getElem_append_right]))

/-- Every run of the loop over lines of the proof keeps the invariant. -/
theorem LoopLinesValid.foldlM {P : Proof} {φ : Formula} (hP : P.isValid)
    (hrules : ∀ rule ∈ P.rules, rule = MP ∨ rule.assumptions.length = 0) :
    ∀ {lines newLines newLines' : List Line}, (∀ line ∈ lines, line ∈ P.lines) →
      LoopLinesValid P φ newLines →
      lines.foldlM (removeAssumptionStep P φ) newLines = .ok newLines' →
      LoopLinesValid P φ newLines'
  := fun hsub hinv h =>
    foldlM_run (R := fun acc acc' => LoopLinesValid P φ acc → LoopLinesValid P φ acc')
      (fun _ => id) (fun h₁ h₂ => h₂ ∘ h₁)
      (fun line hl _ _ hstep hinv => hinv.step hP hrules (hsub line hl) hstep) h hinv

/-- After the loop of `remove_assumption` has processed any number of lines of a valid proof whose
rules are `MP` or assumptionless, a line of `new_lines` is a valid line of the proof built around
it exactly unless it names `D` for a formula that is no instance of `D`. -/
theorem removeAssumptionLoop_isLineValid_iff {P : Proof} {φ : Formula} (hP : P.isValid)
    (hrules : ∀ rule ∈ P.rules, rule = MP ∨ rule.assumptions.length = 0) (i : Nat)
    {newLines : List Line}
    (hloop : (P.lines.take i).foldlM (removeAssumptionStep P φ) [] = .ok newLines)
    (n : Nat) (hn : n < newLines.length) :
  (deductionProof P φ newLines).isLineValid n ↔
    ¬(newLines[n].rule = some D ∧
      InferenceRule.isSpecializationOf ⟨[], newLines[n].formula⟩ D = false)
  := by
  have hinv := LoopLinesValid.foldlM hP hrules (fun _ hl => List.mem_of_mem_take hl)
    (LoopLinesValid.nil P φ) hloop
  exact ⟨fun hvalid ⟨hD, hnot⟩ => not_isLineValid_of_D (List.getElem?_eq_getElem hn) hD hnot hvalid,
    (hinv n hn).resolve_right⟩

/-- On the valid proof of `r` from `q`, `(q->r)` and `p` by Modus Ponens, removing `p`. -/
theorem removeAssumptionLoop_isLineValid_iff_modusPonens :
  let P : Proof := ⟨⟨[.var "q", .bin .implies (.var "q") (.var "r"), .var "p"], .var "r"⟩, {MP},
    [⟨.var "q", none, []⟩, ⟨.bin .implies (.var "q") (.var "r"), none, []⟩,
      ⟨.var "r", some MP, [0, 1]⟩]⟩
  P.isValid ∧ (∀ rule ∈ P.rules, rule = MP ∨ rule.assumptions.length = 0) ∧
    ∃ newLines, (P.lines.take 3).foldlM (removeAssumptionStep P (.var "p")) [] = .ok newLines ∧
      ∀ n (hn : n < newLines.length), ((deductionProof P (.var "p") newLines).isLineValid n ↔
        ¬(newLines[n].rule = some D ∧
          InferenceRule.isSpecializationOf ⟨[], newLines[n].formula⟩ D = false))
  := by
  intro P
  exact ⟨rfl, by simp, _, rfl,
    removeAssumptionLoop_isLineValid_iff (P := P) (φ := .var "p") rfl (by simp) 3 rfl⟩

/-- For every Modus Ponens line of a valid proof whose rules are `MP` or assumptionless, once the
loop of `remove_assumption` has processed it, `new_lines` holds a line that is not a valid line of
the proof built around it. -/
theorem removeAssumptionLoop_MP_not_isLineValid {P : Proof} {φ : Formula} (hP : P.isValid)
    (hrules : ∀ rule ∈ P.rules, rule = MP ∨ rule.assumptions.length = 0)
    {k : Nat} (hk : k < P.lines.length) (hMP : P.lines[k].rule = some MP)
    {newLines : List Line}
    (hloop : (P.lines.take (k + 1)).foldlM (removeAssumptionStep P φ) [] = .ok newLines) :
  ∃ n < newLines.length, ¬(deductionProof P φ newLines).isLineValid n
  := by
  rw [List.take_succ, List.getElem?_eq_getElem hk, Option.toList_some, List.foldlM_append]
    at hloop
  obtain ⟨newLines₀, -, hstep⟩ := bind_eq_ok.mp hloop
  obtain ⟨newLines₁, hstep, hpure⟩ := bind_eq_ok.mp hstep
  cases hpure
  rcases removeAssumptionStep_cases hP hrules (List.getElem_mem hk) newLines₀ with
    ⟨h, -⟩ | ⟨h, -⟩ | ⟨-, χ, h⟩ | ⟨r, h, hr, -⟩
  · simp [hMP] at h
  · simp [hMP] at h
  · rw [h, Except.ok.injEq] at hstep
    subst hstep
    exact ⟨newLines₀.length, by simp, not_isLineValid_of_D (getElem?_append_of_eq 0 rfl) rfl
      (dFormula_not_specialization _ _ _)⟩
  · exact absurd (Option.some.inj (h.symm.trans hMP)) hr

/-- On the same proof, the `D` line for its Modus Ponens line is not valid. -/
theorem removeAssumptionLoop_MP_not_isLineValid_modusPonens :
  let P : Proof := ⟨⟨[.var "q", .bin .implies (.var "q") (.var "r"), .var "p"], .var "r"⟩, {MP},
    [⟨.var "q", none, []⟩, ⟨.bin .implies (.var "q") (.var "r"), none, []⟩,
      ⟨.var "r", some MP, [0, 1]⟩]⟩
  P.isValid ∧ (∀ rule ∈ P.rules, rule = MP ∨ rule.assumptions.length = 0) ∧
    ∃ newLines, (P.lines.take 3).foldlM (removeAssumptionStep P (.var "p")) [] = .ok newLines ∧
      ∃ n < newLines.length, ¬(deductionProof P (.var "p") newLines).isLineValid n
  := by
  intro P
  exact ⟨rfl, by simp, _, rfl, removeAssumptionLoop_MP_not_isLineValid (P := P)
    (φ := .var "p") (k := 2) rfl (by simp) (by decide) rfl rfl⟩

/-- The spec's loop invariant fails on the valid proof of `r` from `q`, `(q->r)` and `p` by Modus
Ponens, removing `p`: after line 0, the assumption `q`, no line of `new_lines` states `(p->q)`, and
after line 2, the Modus Ponens line, line 2 of `new_lines` is not valid. -/
theorem removeAssumptionLoop_invariant_fails :
  let P : Proof := ⟨⟨[.var "q", .bin .implies (.var "q") (.var "r"), .var "p"], .var "r"⟩, {MP},
    [⟨.var "q", none, []⟩, ⟨.bin .implies (.var "q") (.var "r"), none, []⟩,
      ⟨.var "r", some MP, [0, 1]⟩]⟩
  P.isValid ∧ P.statement.assumptions.getLast? = some (.var "p") ∧
    (∀ rule ∈ P.rules, rule = MP ∨ rule.assumptions.length = 0) ∧
    ((P.lines.take 1).foldlM (removeAssumptionStep P (.var "p")) []).map
      (fun newLines => newLines.any fun line =>
        line.formula == .bin .implies (.var "p") (.var "q")) = .ok false ∧
    ((P.lines.take 3).foldlM (removeAssumptionStep P (.var "p")) []).map
      (fun newLines => (deductionProof P (.var "p") newLines).isLineValid 2) = .ok false
  := ⟨rfl, rfl, by simp, rfl, rfl⟩

/-! ### Which implications `new_lines` states -/

/-- On a valid proof whose last assumption is `φ` and whose rules are `MP` or assumptionless,
`remove_assumption` returns the statement `(φ->ψ)` from the other assumptions, via the rules and
`MP`, `I0`, `I1` and `D`, and a proof with no lines. -/
theorem removeAssumption_eq {P : Proof} {φ : Formula} (hP : P.isValid)
    (hlast : P.statement.assumptions.getLast? = some φ)
    (hrules : ∀ rule ∈ P.rules, rule = MP ∨ rule.assumptions.length = 0) :
  removeAssumption P =
    .ok ⟨⟨P.statement.assumptions.dropLast, .bin .implies φ P.statement.conclusion⟩,
      P.rules ∪ {MP, I0, I1, D}, []⟩
  := by
  have hlen : 0 < P.statement.assumptions.length := by
    cases h : P.statement.assumptions with
    | nil => simp [h] at hlast
    | cons _ _ => simp
  rw [List.getLast?_eq_getElem?, List.getElem?_eq_getElem (by omega), Option.some.injEq] at hlast
  obtain ⟨newLines, hloop⟩ := removeAssumptionLoop_ok hP φ
  have hrules' : ∀ rule ∈ P.rules, rule = MP ∨ rule.assumptions = [] := by simpa using hrules
  simp [removeAssumption, hP, hlen, pyIndex_of_lt (Nat.sub_lt hlen Nat.one_pos), hlast, hloop]
  rw [decide_eq_true hrules']
  rfl

/-- Under the assertions of `remove_assumption`, the proof it returns has the statement and the
rules the Deduction Theorem promises, and no lines, so it is never valid. -/
theorem removeAssumption_not_isValid {P : Proof} {φ : Formula} (hP : P.isValid)
    (hlast : P.statement.assumptions.getLast? = some φ)
    (hrules : ∀ rule ∈ P.rules, rule = MP ∨ rule.assumptions.length = 0) :
  ∃ P', removeAssumption P = .ok P' ∧
    P'.statement = ⟨P.statement.assumptions.dropLast, .bin .implies φ P.statement.conclusion⟩ ∧
    P'.rules = P.rules ∪ {MP, I0, I1, D} ∧ P'.lines = [] ∧ P'.isValid = false
  := ⟨_, removeAssumption_eq hP hlast hrules, rfl, rfl, rfl, rfl⟩

theorem removeAssumption_not_isValid_two_assumptions :
  let P : Proof := ⟨⟨[.var "q", .var "p"], .var "p"⟩, ∅, [⟨.var "p", none, []⟩]⟩
  P.isValid ∧ P.statement.assumptions.getLast? = some (.var "p") ∧
    (∀ rule ∈ P.rules, rule = MP ∨ rule.assumptions.length = 0) ∧
    ∃ P', removeAssumption P = .ok P' ∧
      P'.statement =
        ⟨P.statement.assumptions.dropLast, .bin .implies (.var "p") P.statement.conclusion⟩ ∧
      P'.rules = P.rules ∪ {MP, I0, I1, D} ∧ P'.lines = [] ∧ P'.isValid = false
  := ⟨rfl, rfl, by simp, removeAssumption_not_isValid rfl rfl (by simp)⟩

/-- The spec's scenario: on the valid proof of `p` from `q` and `p` whose two lines both assume
`p`, `remove_assumption` returns the statement `(p->p)` from `q` and a proof with no lines,
which is not valid. -/
theorem removeAssumption_returns_no_lines :
  let P : Proof :=
    ⟨⟨[.var "q", .var "p"], .var "p"⟩, ∅, [⟨.var "p", none, []⟩, ⟨.var "p", none, []⟩]⟩
  P.isValid ∧
    (removeAssumption P).map (fun P' => (P'.statement, P'.lines.length, P'.isValid)) =
      .ok (⟨[.var "q"], .bin .implies (.var "p") (.var "p")⟩, 0, false)
  := ⟨rfl, rfl⟩

end Propositions
