import Mathlib.Data.List.Nodup
import Propositions.Reductions.Coloring

/-!
# The size of the reduction

`graph3coloring_to_formula` is the efficient reduction its docstring promises. For a graph with
`n` vertices and `m` edges, the list `formulas` it conjoins holds `4n + 3m` clauses of two or
three literals each. The variables of the formula are exactly the `3n` names `x{v}_{c}`, since
`is_graph` keeps the ends of every edge among the vertices. So the loop of `tricolor_graph` over
`all_models(list(formula.variables()))` ranges over `2^(3n)` models.

* `graph3coloringToFormula_size`: the clause count, the variables, and the number of models.
-/

namespace Propositions

/-- `variables()` lists each name once. -/
theorem Formula.nodup_variables (f : Formula) : f.variables.Nodup := by
  induction f with
  | var name => exact List.nodup_singleton name
  | T | F => exact List.nodup_nil
  | neg f ih => exact ih
  | bin op f g _ ihg => exact List.Nodup.union _ ihg

theorem mem_variables_conjoin (fs : List Formula) (v : String) :
  v ∈ (conjoin fs).variables ↔ ∃ f ∈ fs, v ∈ f.variables
  := by
  cases fs with
  | nil => simp [conjoin, Formula.variables]
  | cons f fs =>
    simp only [conjoin, List.exists_mem_cons]
    induction fs generalizing f with
    | nil => simp
    | cons g fs ih => simp [ih, Formula.variables, or_assoc]

theorem length_flatMap_of_length_eq {α β : Type} {l : List α} {f : α → List β} {k : Nat}
    (h : ∀ a ∈ l, (f a).length = k) :
  (l.flatMap f).length = k * l.length
  := by
  induction l with
  | nil => rfl
  | cons a l ih =>
    rw [List.flatMap_cons, List.length_append, h a (List.mem_cons_self a l),
      ih fun b hb => h b (List.mem_cons_of_mem a hb), List.length_cons, Nat.mul_succ]
    omega

theorem length_coloringClauses (graph : Graph) :
  (coloringClauses graph).length = 4 * graph.nVertices.toNat + 3 * graph.edges.length
  := by
  have hvertex : ∀ v ∈ pyRange 1 (graph.nVertices + 1),
      ((pyRange 1 4).flatMap fun c₁ => (pyRange (c₁ + 1) 4).map fun c₂ =>
        notBoth (colorVar v c₁) (colorVar v c₂)).length = 3 := fun _ _ => rfl
  have hedge : ∀ edge ∈ graph.edges,
      ((pyRange 1 4).map fun c => notBoth (colorVar edge.1 c) (colorVar edge.2 c)).length = 3 :=
    fun _ _ => rfl
  simp only [coloringClauses, List.length_append, List.length_map, length_pyRange,
    length_flatMap_of_length_eq hvertex, length_flatMap_of_length_eq hedge]
  omega

/-- The names `x{v}_{c}` of the vertices `1..n` and the colours 1, 2, 3, each once. -/
theorem nodup_vertexVars (n : Int) :
  ((pyRange 1 (n + 1)).flatMap fun v => [1, 2, 3].map (varName v)).Nodup
  := by
  have hpos : ∀ v ∈ pyRange 1 (n + 1), 0 ≤ v := fun v hv => by
    rw [mem_pyRange] at hv
    omega
  rw [List.nodup_flatMap]
  refine ⟨fun v hv => ?_, (nodup_pyRange _ _).imp_of_mem fun hv hw hne => ?_⟩
  · refine List.Nodup.map_on (fun c hc c' hc' h => ?_) (by decide)
    simp only [List.mem_cons, List.mem_singleton, List.not_mem_nil, or_false] at hc hc'
    exact (varName_inj (hpos v hv) (by omega) (hpos v hv) (by omega) h).2
  · simp only [Function.onFun, List.disjoint_left, List.mem_map]
    rintro _ ⟨c, hc, rfl⟩ ⟨c', hc', h⟩
    simp only [List.mem_cons, List.mem_singleton, List.not_mem_nil, or_false] at hc hc'
    exact hne (varName_inj (hpos _ hw) (by omega) (hpos _ hv) (by omega) h).1.symm

/-- The formula of a graph mentions exactly the names `x{v}_{c}` of its vertices and colours. -/
theorem mem_variables_conjoin_coloringClauses {graph : Graph} (hgraph : isGraph graph)
    (name : String) :
  name ∈ (conjoin (coloringClauses graph)).variables ↔
    ∃ v ∈ pyRange 1 (graph.nVertices + 1), ∃ c ∈ [1, 2, 3], name = varName v c
  := by
  rw [mem_variables_conjoin]
  constructor
  · rintro ⟨f, hf, hname⟩
    simp only [coloringClauses, List.mem_append, List.mem_map, List.mem_flatMap,
      pyRange_one_four] at hf
    rcases hf with (⟨v, hv, rfl⟩ | ⟨v, hv, c₁, hc₁, c₂, hc₂, rfl⟩) | ⟨edge, hedge, c, hc, rfl⟩
    · simp only [atLeastOneColor, colorVar, Formula.variables, List.mem_union_iff,
        List.mem_singleton] at hname
      exact ⟨v, hv, by simpa [or_assoc] using hname⟩
    · simp only [notBoth, colorVar, Formula.variables, List.mem_union_iff,
        List.mem_singleton] at hname
      rw [mem_pyRange] at hc₂
      simp only [List.mem_cons, List.mem_singleton, List.not_mem_nil, or_false] at hc₁
      rcases hname with rfl | rfl
      · exact ⟨v, hv, c₁, by simp; omega, rfl⟩
      · exact ⟨v, hv, c₂, by simp; omega, rfl⟩
    · obtain ⟨⟨h₁, h₁'⟩, ⟨h₂, h₂'⟩, -⟩ := isGraph_iff.mp hgraph edge hedge
      simp only [notBoth, colorVar, Formula.variables, List.mem_union_iff,
        List.mem_singleton] at hname
      rcases hname with rfl | rfl
      · exact ⟨edge.1, mem_vertices.mpr ⟨h₁, h₁'⟩, c, hc, rfl⟩
      · exact ⟨edge.2, mem_vertices.mpr ⟨h₂, h₂'⟩, c, hc, rfl⟩
  · rintro ⟨v, hv, c, hc, rfl⟩
    refine ⟨atLeastOneColor v, ?_, ?_⟩
    · simp only [coloringClauses, List.mem_append, List.mem_map]
      exact .inl (.inl ⟨v, hv, rfl⟩)
    · simp only [List.mem_cons, List.mem_singleton, List.not_mem_nil, or_false] at hc
      rcases hc with rfl | rfl | rfl <;>
        simp [atLeastOneColor, colorVar, Formula.variables]

/-- For every graph `is_graph` accepts, with `n` vertices and `m` edges,
`graph3coloring_to_formula` conjoins `4n + 3m` clauses, and returns a formula whose variables are
exactly the names `x{v}_{c}` of the vertices `v` and the colours `c`, so that `all_models` of
them, the models `tricolor_graph` searches, number `2^(3n)`. -/
theorem graph3coloringToFormula_size {graph : Graph} (hgraph : isGraph graph) :
  (coloringClauses graph).length = 4 * graph.nVertices.toNat + 3 * graph.edges.length ∧
    ∃ formula, graph3coloringToFormula graph = .ok formula ∧
      (∀ name, name ∈ formula.variables ↔
        ∃ v ∈ pyRange 1 (graph.nVertices + 1), ∃ c ∈ [1, 2, 3], name = varName v c) ∧
      (allModels formula.variables).length = 2 ^ (3 * graph.nVertices.toNat)
  := by
  refine ⟨length_coloringClauses graph, _, graph3coloringToFormula_eq hgraph,
    mem_variables_conjoin_coloringClauses hgraph, ?_⟩
  have hperm : (conjoin (coloringClauses graph)).variables.Perm
      ((pyRange 1 (graph.nVertices + 1)).flatMap fun v => [1, 2, 3].map (varName v)) := by
    rw [List.perm_ext_iff_of_nodup (Formula.nodup_variables _) (nodup_vertexVars _)]
    intro name
    rw [mem_variables_conjoin_coloringClauses hgraph]
    simp [eq_comm]
  have hcolors : ∀ v ∈ pyRange 1 (graph.nVertices + 1), ([1, 2, 3].map (varName v)).length = 3 :=
    fun _ _ => rfl
  rw [length_allModels, hperm.length_eq, length_flatMap_of_length_eq hcolors, length_pyRange,
    add_sub_cancel_right]

theorem graph3coloringToFormula_size_edge :
  let graph : Graph := ⟨2, [(1, 2)]⟩
  isGraph graph ∧
    (coloringClauses graph).length = 4 * graph.nVertices.toNat + 3 * graph.edges.length ∧
    ∃ formula, graph3coloringToFormula graph = .ok formula ∧
      (∀ name, name ∈ formula.variables ↔
        ∃ v ∈ pyRange 1 (graph.nVertices + 1), ∃ c ∈ [1, 2, 3], name = varName v c) ∧
      (allModels formula.variables).length = 2 ^ (3 * graph.nVertices.toNat)
  := by
  intro graph
  exact ⟨by decide, @graph3coloringToFormula_size graph (by decide)⟩

end Propositions
