import Propositions.Reductions.Coloring
import Propositions.Reductions.Size

/-!
# Colouring a graph through a satisfying model

`assignment_to_3coloring` and `tricolor_graph` of `propositions/reductions.py`. The loop of
`assignment_to_3coloring` ranges over `range(1, n_vertices + 1)`, but the function never binds
`n_vertices`: unlike the functions before it, it does not unpack `graph`. Python looks the name
up among the module's globals, and `reductions.py` defines none of that name; the model takes
the value found there as a parameter, `none` when the lookup raises `NameError`.

* `tricolorGraph_unbound`: with `n_vertices` unbound, `tricolor_graph` raises `NameError` on
  every colourable graph and returns `None` exactly on the others.
* `assignmentTo3coloring_bound`, `tricolorGraph_bound`: were `n_vertices` the number of vertices
  of the graph, the loop would never reach its `ValueError`, the colouring would be valid, and
  `tricolor_graph` would colour every colourable graph.
* `assignmentTo3coloring_roundTrip`: the clauses leave a model no choice, so that, were
  `n_vertices` bound so, `assignment_to_3coloring` would undo the encoding of a valid colouring as
  the model that sets exactly its variables (`assignmentOfColoring`), and that encoding would
  undo `assignment_to_3coloring` on every model of the formula, on the formula's variables
  (`firstColor_eq_some_iff`).
-/

namespace Propositions

/-- One pass of the loop of `assignment_to_3coloring` over vertex `v`: `coloring[v] = c` for the
first colour `c` whose variable the assignment sets, and the `ValueError` of the loop's `else`
when it sets none. -/
def assignmentTo3coloring.colorVertex (assignment : Model) (coloring : Coloring) (v : Int) :
    Except PyError Coloring :=
  match firstColor assignment v with
  | some c => pure (Function.update coloring v (some c))
  | none =>
    throw (.valueError ("No color assigned to vertex " ++ toString v ++
      " in satisfying assignment"))

/-- `assignment_to_3coloring(graph, assignment)`, `nVertices` being the global `n_vertices`. -/
def assignmentTo3coloring (nVertices : Option Int) (graph : Graph) (assignment : Model) :
    Except PyError Coloring := do
  pyAssert (isGraph graph)
  let formula ← graph3coloringToFormula graph
  pyAssert (evaluate formula assignment)
  let some nVertices := nVertices | throw (.nameError "n_vertices")
  let coloring ← (pyRange 1 (nVertices + 1)).foldlM
    (assignmentTo3coloring.colorVertex assignment) (fun _ => none)
  let valid ← isValid3coloring graph coloring
  pyAssert valid
  pure coloring

/-- `tricolor_graph(graph)`, `nVertices` being the global `n_vertices` that
`assignment_to_3coloring` reads. -/
def tricolorGraph (nVertices : Option Int) (graph : Graph) :
    Except PyError (Option Coloring) := do
  pyAssert (isGraph graph)
  let formula ← graph3coloringToFormula graph
  match (allModels formula.variables).find? (evaluate formula ·) with
  | some assignment => some <$> assignmentTo3coloring nVertices graph assignment
  | none => pure none

/-! ### The loop of `assignment_to_3coloring` -/

theorem colorVertex_of_firstColor {assignment : Model} {v c : Int}
    (h : firstColor assignment v = some c) (coloring : Coloring) :
  assignmentTo3coloring.colorVertex assignment coloring v =
    .ok (Function.update coloring v (some c))
  := by
  simp only [assignmentTo3coloring.colorVertex, h]
  rfl

/-- When the assignment sets a colour of every vertex it visits, the loop returns, and gives each
of them its first colour. -/
theorem foldlM_colorVertex {assignment : Model} :
    ∀ {vertices : List Int} (coloring : Coloring),
      (∀ v ∈ vertices, (firstColor assignment v).isSome) →
      vertices.foldlM (assignmentTo3coloring.colorVertex assignment) coloring =
        .ok fun u => if u ∈ vertices then firstColor assignment u else coloring u
  | [], coloring, _ => by simp; rfl
  | v :: vertices, coloring, h => by
    obtain ⟨c, hc⟩ := Option.isSome_iff_exists.mp (h v (List.mem_cons_self v vertices))
    rw [List.foldlM_cons, colorVertex_of_firstColor hc]
    refine (foldlM_colorVertex _ fun u hu => h u (List.mem_cons_of_mem v hu)).trans ?_
    congr 1
    funext u
    by_cases hu : u = v
    · subst hu
      simp [hc]
    · simp [hu]

/-- The colouring the loop of `assignment_to_3coloring` builds over the vertices `1..n`: each gets
the first colour whose variable the assignment sets. -/
def firstColoring (n : Int) (assignment : Model) : Coloring := fun u =>
  if u ∈ pyRange 1 (n + 1) then firstColor assignment u else none

/-- On a model of the clauses, the colouring of first colours is valid. -/
theorem isValid3coloring_firstColoring {graph : Graph} (hgraph : isGraph graph) {assignment : Model}
    (hclauses : (coloringClauses graph).all (evaluate · assignment)) :
  isValid3coloring graph (firstColoring graph.nVertices assignment) = .ok true
  := (isValid3coloring_congr hgraph fun _ hv => if_pos hv).mpr
    (isValid3coloring_firstColor hgraph hclauses)

/-! ### `assignment_to_3coloring` -/

/-- Were `n_vertices` the number of vertices, `assignment_to_3coloring` would return, on a model of
the clauses, the colouring of first colours. -/
theorem assignmentTo3coloring_some_eq {graph : Graph} (hgraph : isGraph graph)
    {assignment : Model} (hclauses : (coloringClauses graph).all (evaluate · assignment)) :
  assignmentTo3coloring (some graph.nVertices) graph assignment =
    .ok (firstColoring graph.nVertices assignment)
  := by
  have hsome : ∀ v ∈ pyRange 1 (graph.nVertices + 1), (firstColor assignment v).isSome :=
    fun v hv => (isSome_firstColor assignment v).mpr
      (((all_evaluate_coloringClauses graph assignment).mp hclauses).1 v hv)
  have hsat : evaluate (conjoin (coloringClauses graph)) assignment := by
    rwa [evaluate_conjoin]
  have hvalid := isValid3coloring_firstColoring hgraph hclauses
  unfold firstColoring at hvalid
  simp only [assignmentTo3coloring, hgraph, graph3coloringToFormula_eq hgraph, hsat,
    pyAssert_true, pure_bind, ok_bind, foldlM_colorVertex _ hsome, hvalid]
  rfl

/-- On the graph with the one edge `(1, 2)` and the model that sets `x1_1` and `x2_2`, which
satisfies its formula, `assignment_to_3coloring` raises `NameError` instead of returning the
colouring `{1: 1, 2: 2}`. -/
theorem assignmentTo3coloring_raises_nameError :
  let graph : Graph := ⟨2, [(1, 2)]⟩
  let assignment : Model := fun name => name == varName 1 1 || name == varName 2 2
  isGraph graph ∧ (graph3coloringToFormula graph).map (evaluate · assignment) = .ok true ∧
    assignmentTo3coloring none graph assignment = .error (.nameError "n_vertices")
  := ⟨rfl, rfl, rfl⟩

/-- Were `n_vertices` the number of vertices of the graph, `assignment_to_3coloring` would return,
on every graph and every model of its formula, a valid colouring that gives each vertex a colour
whose variable the model sets. -/
theorem assignmentTo3coloring_bound {graph : Graph} (hgraph : isGraph graph)
    {formula : Formula} (hformula : graph3coloringToFormula graph = .ok formula)
    {assignment : Model} (hsat : evaluate formula assignment) :
  ∃ coloring, assignmentTo3coloring (some graph.nVertices) graph assignment = .ok coloring ∧
    isValid3coloring graph coloring = .ok true ∧
    ∀ v ∈ pyRange 1 (graph.nVertices + 1), ∃ c, coloring v = some c ∧ assignment (varName v c)
  := by
  rw [graph3coloringToFormula_eq hgraph, Except.ok.injEq] at hformula
  rw [← hformula, evaluate_conjoin] at hsat
  refine ⟨_, assignmentTo3coloring_some_eq hgraph hsat, isValid3coloring_firstColoring hgraph hsat,
    fun v hv => ?_⟩
  obtain ⟨c, hc⟩ := Option.isSome_iff_exists.mp ((isSome_firstColor assignment v).mpr
    (((all_evaluate_coloringClauses graph assignment).mp hsat).1 v hv))
  exact ⟨c, (if_pos hv).trans hc, (firstColor_sound hc).2⟩

theorem assignmentTo3coloring_bound_edge :
  let graph : Graph := ⟨2, [(1, 2)]⟩
  let assignment : Model := fun name => name == varName 1 1 || name == varName 2 2
  isGraph graph ∧ graph3coloringToFormula graph = .ok (conjoin (coloringClauses graph)) ∧
    evaluate (conjoin (coloringClauses graph)) assignment ∧
    ∃ coloring, assignmentTo3coloring (some graph.nVertices) graph assignment = .ok coloring ∧
      isValid3coloring graph coloring = .ok true ∧
      ∀ v ∈ pyRange 1 (graph.nVertices + 1), ∃ c, coloring v = some c ∧ assignment (varName v c)
  := by
  intro graph assignment
  exact ⟨by decide, rfl, by decide,
    @assignmentTo3coloring_bound graph (by decide) _ rfl assignment (by decide)⟩

/-! ### `tricolor_graph` -/

/-- `tricolor_graph` returns `None` exactly on the graphs with no valid colouring, whatever the
global `n_vertices` holds. -/
theorem tricolorGraph_eq_ok_none_iff {graph : Graph} (hgraph : isGraph graph)
    (nVertices : Option Int) :
  tricolorGraph nVertices graph = .ok none ↔ ¬Colorable graph
  := by
  rw [← satisfiable_iff_colorable hgraph, ← find?_allModels_eq_none_iff]
  simp only [tricolorGraph, hgraph, graph3coloringToFormula_eq hgraph, pyAssert_true, pure_bind,
    ok_bind]
  split
  · next h =>
    simp only [h, reduceCtorEq, iff_false]
    cases assignmentTo3coloring nVertices graph _ <;> simp [Functor.map, Except.map]
  · next h => exact iff_of_true rfl h

/-- On a colourable graph, `tricolor_graph` hands a model of the clauses to
`assignment_to_3coloring` and returns what it returns. -/
theorem tricolorGraph_of_colorable {graph : Graph} (hgraph : isGraph graph)
    (hcolorable : Colorable graph) (nVertices : Option Int) :
  ∃ assignment, (coloringClauses graph).all (evaluate · assignment) ∧
    tricolorGraph nVertices graph = some <$> assignmentTo3coloring nVertices graph assignment
  := by
  rw [← satisfiable_iff_colorable hgraph, ← not_not (a := ∃ _, _),
    ← find?_allModels_eq_none_iff] at hcolorable
  obtain ⟨assignment, hfind⟩ := Option.ne_none_iff_exists'.mp hcolorable
  refine ⟨assignment, (evaluate_conjoin _ _).symm.trans (List.find?_some hfind), ?_⟩
  simp only [tricolorGraph, hgraph, graph3coloringToFormula_eq hgraph, pyAssert_true, pure_bind,
    ok_bind, hfind]

/-- With `n_vertices` unbound, `tricolor_graph` returns `None` exactly on the graphs with no valid
colouring and raises `NameError` on every other graph. -/
theorem tricolorGraph_unbound {graph : Graph} (hgraph : isGraph graph) :
  (tricolorGraph none graph = .ok none ↔ ¬Colorable graph) ∧
    (Colorable graph → tricolorGraph none graph = .error (.nameError "n_vertices"))
  := by
  refine ⟨tricolorGraph_eq_ok_none_iff hgraph none, fun hcolorable => ?_⟩
  obtain ⟨assignment, hclauses, h⟩ := tricolorGraph_of_colorable hgraph hcolorable none
  have hsat : evaluate (conjoin (coloringClauses graph)) assignment := by
    rwa [evaluate_conjoin]
  simp only [h, assignmentTo3coloring, hgraph, graph3coloringToFormula_eq hgraph, hsat,
    pyAssert_true, pure_bind, ok_bind]
  rfl

theorem tricolorGraph_unbound_edge :
  isGraph ⟨2, [(1, 2)]⟩ ∧
    (tricolorGraph none ⟨2, [(1, 2)]⟩ = .ok none ↔ ¬Colorable ⟨2, [(1, 2)]⟩) ∧
    (Colorable ⟨2, [(1, 2)]⟩ → tricolorGraph none ⟨2, [(1, 2)]⟩ = .error (.nameError "n_vertices"))
  := ⟨by decide, tricolorGraph_unbound (by decide)⟩

/-- On the graph with no vertices, which the empty colouring colours validly, `tricolor_graph`
raises `NameError` instead of returning that colouring. -/
theorem tricolorGraph_raises_nameError :
  isGraph ⟨0, []⟩ ∧ isValid3coloring ⟨0, []⟩ (fun _ => none) = .ok true ∧
    tricolorGraph none ⟨0, []⟩ = .error (.nameError "n_vertices")
  := ⟨rfl, rfl, rfl⟩

/-- Were `n_vertices` the number of vertices of the graph, `tricolor_graph` would return `None`
exactly on the graphs with no valid colouring and a valid colouring of every other graph. -/
theorem tricolorGraph_bound {graph : Graph} (hgraph : isGraph graph) :
  (tricolorGraph (some graph.nVertices) graph = .ok none ↔ ¬Colorable graph) ∧
    (Colorable graph → ∃ coloring,
      tricolorGraph (some graph.nVertices) graph = .ok (some coloring) ∧
        isValid3coloring graph coloring = .ok true)
  := by
  refine ⟨tricolorGraph_eq_ok_none_iff hgraph _, fun hcolorable => ?_⟩
  obtain ⟨assignment, hclauses, h⟩ := tricolorGraph_of_colorable hgraph hcolorable _
  refine ⟨_, ?_, isValid3coloring_firstColoring hgraph hclauses⟩
  rw [h, assignmentTo3coloring_some_eq hgraph hclauses]
  rfl

theorem tricolorGraph_bound_triangle :
  isGraph ⟨3, [(1, 2), (2, 3), (1, 3)]⟩ ∧
    (tricolorGraph (some 3) ⟨3, [(1, 2), (2, 3), (1, 3)]⟩ = .ok none ↔
      ¬Colorable ⟨3, [(1, 2), (2, 3), (1, 3)]⟩) ∧
    (Colorable ⟨3, [(1, 2), (2, 3), (1, 3)]⟩ → ∃ coloring,
      tricolorGraph (some 3) ⟨3, [(1, 2), (2, 3), (1, 3)]⟩ = .ok (some coloring) ∧
        isValid3coloring ⟨3, [(1, 2), (2, 3), (1, 3)]⟩ coloring = .ok true)
  := ⟨by decide, tricolorGraph_bound (by decide)⟩

/-! ### Models of the formula and valid colourings -/

/-- On a model of the clauses, the first colour of a vertex is the one colour of it whose variable
the model sets: no clause lets it set two. -/
theorem firstColor_eq_some_iff {graph : Graph} {assignment : Model}
    (hclauses : (coloringClauses graph).all (evaluate · assignment))
    {v : Int} (hv : v ∈ pyRange 1 (graph.nVertices + 1)) {c : Int} (hc : c ∈ [1, 2, 3]) :
  firstColor assignment v = some c ↔ assignment (varName v c)
  := by
  refine ⟨fun h => (firstColor_sound h).2, fun hset => ?_⟩
  obtain ⟨-, honce, -⟩ := (all_evaluate_coloringClauses graph assignment).mp hclauses
  obtain ⟨c', hc'⟩ := Option.isSome_iff_exists.mp
    ((isSome_firstColor assignment v).mpr ⟨c, hc, hset⟩)
  obtain ⟨hmem', hset'⟩ := firstColor_sound hc'
  rw [hc', Option.some.injEq]
  have hcolors : ∀ c ∈ [(1 : Int), 2, 3], 1 ≤ c ∧ c ≤ 3 := by decide
  have := hcolors c hc
  have := hcolors c' hmem'
  rcases lt_trichotomy c' c with hlt | heq | hgt
  · exact absurd ⟨hset', hset⟩ (honce v hv c' hmem' c (by rw [mem_pyRange]; omega))
  · exact heq
  · exact absurd ⟨hset, hset'⟩ (honce v hv c hc c' (by rw [mem_pyRange]; omega))

/-- Were `n_vertices` the number of vertices of the graph, then for every graph `is_graph`
accepts: `assignment_to_3coloring` would return, on the model of a valid colouring, that colouring
at every vertex; and on every model of the formula, a colouring whose model agrees with it on
every variable of the formula. -/
theorem assignmentTo3coloring_roundTrip {graph : Graph} (hgraph : isGraph graph) :
  (∀ coloring, isValid3coloring graph coloring = .ok true →
    ∃ coloring', assignmentTo3coloring (some graph.nVertices) graph
        (assignmentOfColoring graph coloring) = .ok coloring' ∧
      ∀ v ∈ pyRange 1 (graph.nVertices + 1), coloring' v = coloring v) ∧
  ∀ formula, graph3coloringToFormula graph = .ok formula →
    ∀ assignment, evaluate formula assignment →
      ∃ coloring, assignmentTo3coloring (some graph.nVertices) graph assignment = .ok coloring ∧
        ∀ name ∈ formula.variables, assignmentOfColoring graph coloring name = assignment name
  := by
  refine ⟨fun coloring hvalid => ?_, fun formula hformula assignment hsat => ?_⟩
  · -- decoding the model of a valid colouring
    have hclauses := all_evaluate_assignmentOfColoring hgraph hvalid
    refine ⟨_, assignmentTo3coloring_some_eq hgraph hclauses, fun v hv => ?_⟩
    obtain ⟨c, hc, hcol⟩ := ((isValid3coloring_eq_ok_true hgraph coloring).mp hvalid).1 v hv
    rw [firstColoring, if_pos hv, hcol]
    exact (firstColor_eq_some_iff hclauses hv hc).mpr
      ((assignmentOfColoring_varName hv hc).mpr hcol)
  · -- encoding the colouring decoded from a model of the formula
    rw [graph3coloringToFormula_eq hgraph, Except.ok.injEq] at hformula
    subst hformula
    have hclauses : (coloringClauses graph).all (evaluate · assignment) := by
      rwa [← evaluate_conjoin]
    refine ⟨_, assignmentTo3coloring_some_eq hgraph hclauses, fun name hname => ?_⟩
    obtain ⟨v, hv, c, hc, rfl⟩ := (mem_variables_conjoin_coloringClauses hgraph name).mp hname
    rw [Bool.eq_iff_iff, assignmentOfColoring_varName hv hc, firstColoring, if_pos hv]
    exact firstColor_eq_some_iff hclauses hv hc

theorem assignmentTo3coloring_roundTrip_edge :
  let graph : Graph := ⟨2, [(1, 2)]⟩
  isGraph graph ∧
  (∀ coloring, isValid3coloring graph coloring = .ok true →
    ∃ coloring', assignmentTo3coloring (some graph.nVertices) graph
        (assignmentOfColoring graph coloring) = .ok coloring' ∧
      ∀ v ∈ pyRange 1 (graph.nVertices + 1), coloring' v = coloring v) ∧
  ∀ formula, graph3coloringToFormula graph = .ok formula →
    ∀ assignment, evaluate formula assignment →
      ∃ coloring, assignmentTo3coloring (some graph.nVertices) graph assignment = .ok coloring ∧
        ∀ name ∈ formula.variables, assignmentOfColoring graph coloring name = assignment name
  := by
  intro graph
  exact ⟨by decide, @assignmentTo3coloring_roundTrip graph (by decide)⟩

end Propositions
