import Propositions.Runtime
import Propositions.Semantics
import Propositions.Reductions.VariableNames

/-!
# Reducing 3-colouring to satisfiability

`is_graph`, `is_valid_3coloring` and `graph3coloring_to_formula` of
`propositions/reductions.py`. The formula of a graph is the conjunction of three families of
clauses over the variables `x{v}_{c}`: every vertex has one of the colours 1, 2, 3, no vertex
has two, and the two ends of an edge do not share one.

* `graph3coloringToFormula_correct`: for every graph `is_graph` accepts, the formula is well
  formed, and some model satisfies it exactly when some colouring of the graph is valid. A
  satisfying model is decoded by giving each vertex the first colour whose variable it sets
  (`firstColor`), as `assignment_to_3coloring` does; a valid colouring is encoded by the model
  that sets exactly the variables of the colours it gives (`assignmentOfColoring`).
-/

namespace Propositions

/-- `Graph`: the number of vertices, and the set of edges, listed in the order it iterates in. -/
structure Graph where
  nVertices : Int
  edges : List (Int × Int)

/-- A colouring: a Python dictionary from vertices to colours. -/
abbrev Coloring := Int → Option Int

/-- `is_graph(graph)`. -/
def isGraph (graph : Graph) : Bool :=
  graph.edges.all fun edge =>
    [edge.1, edge.2].all (fun vertex => decide (1 ≤ vertex) && decide (vertex ≤ graph.nVertices))
      && edge.1 != edge.2

/-- `is_valid_3coloring(graph, coloring)`. After its first loop every vertex has a colour, so
the lookups `coloring[edge[0]]` and `coloring[edge[1]]` of an edge `is_graph` accepts succeed. -/
def isValid3coloring (graph : Graph) (coloring : Coloring) : Except PyError Bool := do
  pyAssert (isGraph graph)
  pure ((pyRange 1 (graph.nVertices + 1)).all (fun vertex =>
      match coloring vertex with
      | some color => decide (color ∈ [1, 2, 3])
      | none => false) &&
    graph.edges.all fun edge => coloring edge.1 != coloring edge.2)

/-- The variable `x{v}_{c}`: vertex `v` has colour `c`. -/
def colorVar (v c : Int) : Formula := .var (varName v c)

/-- The clause of the first loop of `graph3coloring_to_formula`: `((x{v}_1|x{v}_2)|x{v}_3)`,
from the three formulas `vertex_formulas` lists. -/
def atLeastOneColor (v : Int) : Formula :=
  .bin .or (.bin .or (colorVar v 1) (colorVar v 2)) (colorVar v 3)

/-- The clause of the second and third loops: `(~x|~y)`. -/
def notBoth (x y : Formula) : Formula := .bin .or (.neg x) (.neg y)

/-- The list `formulas` of `graph3coloring_to_formula` after its three loops. -/
def coloringClauses (graph : Graph) : List Formula :=
  (pyRange 1 (graph.nVertices + 1)).map atLeastOneColor ++
  (pyRange 1 (graph.nVertices + 1)).flatMap (fun v =>
    (pyRange 1 4).flatMap fun c1 =>
      (pyRange (c1 + 1) 4).map fun c2 => notBoth (colorVar v c1) (colorVar v c2)) ++
  graph.edges.flatMap fun edge =>
    (pyRange 1 4).map fun c => notBoth (colorVar edge.1 c) (colorVar edge.2 c)

/-- The end of `graph3coloring_to_formula`: `T` when there are no formulas, and otherwise
`formulas[0]` conjoined with each later formula in turn. -/
def conjoin : List Formula → Formula
  | [] => .T
  | f :: fs => fs.foldl (fun result formula => .bin .and result formula) f

/-- `graph3coloring_to_formula(graph)`. -/
def graph3coloringToFormula (graph : Graph) : Except PyError Formula := do
  pyAssert (isGraph graph)
  pure (conjoin (coloringClauses graph))

/-- The loop body of `assignment_to_3coloring`: the first colour whose variable the assignment
sets for vertex `v`, `none` when it sets none. -/
def firstColor (assignment : Model) (v : Int) : Option Int :=
  (pyRange 1 4).find? fun c => assignment (varName v c)

/-- The model that sets `x{v}_{c}` exactly when `v` is a vertex and `coloring` gives it the
colour `c`, for `c` among 1, 2, 3. -/
def assignmentOfColoring (graph : Graph) (coloring : Coloring) : Model := fun name =>
  (pyRange 1 (graph.nVertices + 1)).any fun v =>
    (pyRange 1 4).any fun c => name == varName v c && coloring v == some c

/-- The graph has a valid colouring. -/
def Colorable (graph : Graph) : Prop :=
  ∃ coloring, isValid3coloring graph coloring = .ok true

/-! ### Graphs and colourings -/

@[simp]
theorem pyRange_one_four : pyRange 1 4 = [1, 2, 3] := rfl

theorem mem_vertices {n v : Int} : v ∈ pyRange 1 (n + 1) ↔ 1 ≤ v ∧ v ≤ n := by
  rw [mem_pyRange]
  omega

theorem isGraph_iff {graph : Graph} :
  isGraph graph ↔ ∀ edge ∈ graph.edges,
    (1 ≤ edge.1 ∧ edge.1 ≤ graph.nVertices) ∧ (1 ≤ edge.2 ∧ edge.2 ≤ graph.nVertices) ∧
      edge.1 ≠ edge.2
  := by
  simp [isGraph, and_assoc]

/-- On a graph, `is_valid_3coloring` returns, and returns `True` exactly when every vertex has
one of the colours 1, 2, 3 and no edge joins two vertices of one colour. -/
theorem isValid3coloring_eq_ok_true {graph : Graph} (hgraph : isGraph graph) (coloring : Coloring) :
  isValid3coloring graph coloring = .ok true ↔
    (∀ v ∈ pyRange 1 (graph.nVertices + 1), ∃ c ∈ [1, 2, 3], coloring v = some c) ∧
      ∀ edge ∈ graph.edges, coloring edge.1 ≠ coloring edge.2
  := by
  have hvertex : ∀ v, (match coloring v with
      | some color => decide (color ∈ [1, 2, 3])
      | none => false) = true ↔ ∃ c ∈ [1, 2, 3], coloring v = some c := by
    intro v
    cases coloring v <;> simp
  simp only [isValid3coloring, hgraph, pyAssert_true, pure_bind]
  show Except.ok _ = Except.ok true ↔ _
  simp only [Except.ok.injEq, Bool.and_eq_true, List.all_eq_true, hvertex, bne_iff_ne, ne_eq]

/-- `is_valid_3coloring` reads a colouring only at the vertices. -/
theorem isValid3coloring_congr {graph : Graph} (hgraph : isGraph graph)
    {coloring coloring' : Coloring}
    (h : ∀ v ∈ pyRange 1 (graph.nVertices + 1), coloring v = coloring' v) :
  isValid3coloring graph coloring = .ok true ↔ isValid3coloring graph coloring' = .ok true
  := by
  rw [isValid3coloring_eq_ok_true hgraph, isValid3coloring_eq_ok_true hgraph]
  refine and_congr (forall₂_congr fun v hv => by rw [h v hv]) (forall₂_congr fun edge he => ?_)
  obtain ⟨h₁, h₂, -⟩ := isGraph_iff.mp hgraph edge he
  rw [h _ (mem_vertices.mpr h₁), h _ (mem_vertices.mpr h₂)]

/-! ### Decoding a model and encoding a colouring -/

theorem firstColor_sound {model : Model} {v c : Int} (h : firstColor model v = some c) :
  c ∈ [1, 2, 3] ∧ model (varName v c)
  := ⟨List.mem_of_find?_eq_some h, List.find?_some (p := fun c => model (varName v c)) h⟩

theorem isSome_firstColor (model : Model) (v : Int) :
  (firstColor model v).isSome ↔ ∃ c ∈ [1, 2, 3], model (varName v c)
  := List.find?_isSome

theorem assignmentOfColoring_varName {graph : Graph} {coloring : Coloring} {v c : Int}
    (hv : v ∈ pyRange 1 (graph.nVertices + 1)) (hc : c ∈ [1, 2, 3]) :
  assignmentOfColoring graph coloring (varName v c) ↔ coloring v = some c
  := by
  have hpos : ∀ c ∈ [(1 : Int), 2, 3], 0 ≤ c := by decide
  simp only [assignmentOfColoring, List.any_eq_true, Bool.and_eq_true, beq_iff_eq,
    pyRange_one_four]
  constructor
  · rintro ⟨v', hv', c', hc', heq, hcol⟩
    obtain ⟨rfl, rfl⟩ := varName_inj (by rw [mem_vertices] at hv; omega) (hpos c hc)
      (by rw [mem_vertices] at hv'; omega) (hpos c' hc') heq
    exact hcol
  · exact fun h => ⟨v, hv, c, hc, rfl, h⟩

/-! ### The formula -/

@[simp]
theorem evaluate_colorVar (v c : Int) (model : Model) :
  evaluate (colorVar v c) model = model (varName v c)
  := rfl

@[simp]
theorem evaluate_atLeastOneColor (v : Int) (model : Model) :
  evaluate (atLeastOneColor v) model =
    (model (varName v 1) || model (varName v 2) || model (varName v 3))
  := rfl

@[simp]
theorem evaluate_notBoth (x y : Formula) (model : Model) :
  evaluate (notBoth x y) model = !(evaluate x model && evaluate y model)
  := (Bool.not_and _ _).symm

/-- A property of formulas that `&` turns into a conjunction and that holds of `T` holds of a
conjunction exactly when it holds of every conjunct. -/
theorem conjoin_all {p : Formula → Bool} (hT : p .T)
    (hand : ∀ f g, p (.bin .and f g) = (p f && p g)) (fs : List Formula) :
  p (conjoin fs) = fs.all p
  := by
  cases fs with
  | nil => simpa [conjoin] using hT
  | cons f fs =>
    simp only [conjoin, List.all_cons]
    induction fs generalizing f with
    | nil => simp
    | cons g fs ih => simp [ih, hand, Bool.and_assoc]

theorem evaluate_conjoin (fs : List Formula) (model : Model) :
  evaluate (conjoin fs) model = fs.all (evaluate · model)
  := conjoin_all (p := (evaluate · model)) rfl (fun _ _ => rfl) fs

theorem isWellFormed_conjoin (fs : List Formula) :
  (conjoin fs).isWellFormed = fs.all Formula.isWellFormed
  := conjoin_all (p := Formula.isWellFormed) rfl (fun _ _ => rfl) fs

theorem isWellFormed_coloringClauses (graph : Graph) :
  (coloringClauses graph).all Formula.isWellFormed
  := by
  simp only [coloringClauses, List.all_eq_true, List.forall_mem_append, List.forall_mem_map,
    List.forall_mem_flatMap]
  simp [atLeastOneColor, notBoth, colorVar, isVariable_varName]

/-- A model satisfies every clause of a graph exactly when it sets a colour of every vertex,
never two colours of one vertex, and never one colour of both ends of an edge. -/
theorem all_evaluate_coloringClauses (graph : Graph) (model : Model) :
  (coloringClauses graph).all (evaluate · model) ↔
    (∀ v ∈ pyRange 1 (graph.nVertices + 1), ∃ c ∈ [1, 2, 3], model (varName v c)) ∧
    (∀ v ∈ pyRange 1 (graph.nVertices + 1), ∀ c₁ ∈ [1, 2, 3], ∀ c₂ ∈ pyRange (c₁ + 1) 4,
      ¬(model (varName v c₁) ∧ model (varName v c₂))) ∧
    (∀ edge ∈ graph.edges, ∀ c ∈ [1, 2, 3],
      ¬(model (varName edge.1 c) ∧ model (varName edge.2 c)))
  := by
  simp only [coloringClauses, List.all_eq_true, List.forall_mem_append, List.forall_mem_map,
    List.forall_mem_flatMap, evaluate_atLeastOneColor, evaluate_notBoth, evaluate_colorVar,
    pyRange_one_four, Bool.or_eq_true, Bool.not_eq_true', Bool.and_eq_false_imp, List.mem_cons,
    List.mem_singleton, exists_eq_or_imp, exists_eq_left, List.not_mem_nil, or_false,
    exists_false, or_assoc, not_and, Bool.not_eq_true, and_assoc]

/-- What `graph3coloring_to_formula` returns on a graph. -/
theorem graph3coloringToFormula_eq {graph : Graph} (hgraph : isGraph graph) :
  graph3coloringToFormula graph = .ok (conjoin (coloringClauses graph))
  := by
  simp only [graph3coloringToFormula, hgraph, pyAssert_true, pure_bind]
  rfl

/-! ### Satisfiable exactly when colourable -/

/-- The first colours a satisfying model sets form a valid colouring. -/
theorem isValid3coloring_firstColor {graph : Graph} (hgraph : isGraph graph) {model : Model}
    (hsat : (coloringClauses graph).all (evaluate · model)) :
  isValid3coloring graph (firstColor model) = .ok true
  := by
  obtain ⟨hone, -, hedge⟩ := (all_evaluate_coloringClauses graph model).mp hsat
  rw [isValid3coloring_eq_ok_true hgraph]
  constructor
  · intro v hv
    obtain ⟨c, hc⟩ := Option.isSome_iff_exists.mp ((isSome_firstColor model v).mpr (hone v hv))
    exact ⟨c, (firstColor_sound hc).1, hc⟩
  · intro edge he heq
    obtain ⟨h1, -, -⟩ := isGraph_iff.mp hgraph edge he
    obtain ⟨c, hc⟩ := Option.isSome_iff_exists.mp
      ((isSome_firstColor model _).mpr (hone edge.1 (mem_vertices.mpr h1)))
    obtain ⟨hc1, hm1⟩ := firstColor_sound hc
    exact hedge edge he c hc1 ⟨hm1, (firstColor_sound (heq ▸ hc)).2⟩

/-- The model of a valid colouring satisfies every clause. -/
theorem all_evaluate_assignmentOfColoring {graph : Graph} (hgraph : isGraph graph)
    {coloring : Coloring} (hvalid : isValid3coloring graph coloring = .ok true) :
  (coloringClauses graph).all (evaluate · (assignmentOfColoring graph coloring))
  := by
  obtain ⟨hcolor, hedge⟩ := (isValid3coloring_eq_ok_true hgraph coloring).mp hvalid
  rw [all_evaluate_coloringClauses]
  refine ⟨fun v hv => ?_, fun v hv c₁ hc₁ c₂ hc₂ ⟨h₁, h₂⟩ => ?_, fun edge he c hc ⟨h₁, h₂⟩ => ?_⟩
  · -- every vertex has its colour
    obtain ⟨c, hc, h⟩ := hcolor v hv
    exact ⟨c, hc, (assignmentOfColoring_varName hv hc).mpr h⟩
  · -- no vertex has two
    have hlt : c₁ < c₂ ∧ c₂ ∈ [1, 2, 3] := by
      simp only [List.mem_cons, List.mem_singleton, List.not_mem_nil, or_false,
        mem_pyRange] at hc₁ hc₂ ⊢
      omega
    rw [assignmentOfColoring_varName hv hc₁] at h₁
    rw [assignmentOfColoring_varName hv hlt.2, h₁, Option.some.injEq] at h₂
    omega
  · -- no edge joins two vertices of one colour
    obtain ⟨hv₁, hv₂, -⟩ := isGraph_iff.mp hgraph edge he
    rw [assignmentOfColoring_varName (mem_vertices.mpr hv₁) hc] at h₁
    rw [assignmentOfColoring_varName (mem_vertices.mpr hv₂) hc] at h₂
    exact hedge edge he (h₁.trans h₂.symm)

/-- The conjunction of the clauses of a graph is satisfiable exactly when the graph has a valid
colouring. -/
theorem satisfiable_iff_colorable {graph : Graph} (hgraph : isGraph graph) :
  (∃ model, evaluate (conjoin (coloringClauses graph)) model) ↔ Colorable graph
  := by
  simp only [evaluate_conjoin]
  exact ⟨fun ⟨_, h⟩ => ⟨_, isValid3coloring_firstColor hgraph h⟩,
    fun ⟨_, h⟩ => ⟨_, all_evaluate_assignmentOfColoring hgraph h⟩⟩

/-- For every graph `is_graph` accepts, `graph3coloring_to_formula` returns a well-formed formula,
and some model satisfies it exactly when the graph has a valid colouring. -/
theorem graph3coloringToFormula_correct {graph : Graph} (hgraph : isGraph graph) :
  ∃ formula, graph3coloringToFormula graph = .ok formula ∧ formula.isWellFormed ∧
    ((∃ model, evaluate formula model) ↔ Colorable graph)
  := ⟨_, graph3coloringToFormula_eq hgraph,
    (isWellFormed_conjoin _).trans (isWellFormed_coloringClauses graph),
    satisfiable_iff_colorable hgraph⟩

theorem graph3coloringToFormula_correct_triangle :
  isGraph ⟨3, [(1, 2), (2, 3), (1, 3)]⟩ ∧
    ∃ formula, graph3coloringToFormula ⟨3, [(1, 2), (2, 3), (1, 3)]⟩ = .ok formula ∧
      formula.isWellFormed ∧
      ((∃ model, evaluate formula model) ↔ Colorable ⟨3, [(1, 2), (2, 3), (1, 3)]⟩)
  := ⟨by decide, graph3coloringToFormula_correct (by decide)⟩

end Propositions
