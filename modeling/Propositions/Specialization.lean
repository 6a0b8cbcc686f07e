import Propositions.Syntax

/-!
# Inference rules and their specializations

The rule collaborator of `propositions/proofs.py`, modelled from the spec. A rule is a list of
assumptions and a conclusion; a specialization map sends variable names to formulas, and a
rule is a specialization of a general one when substituting some map throughout the general
rule gives it.

`specializationMap` computes such a map by matching the general rule against the special one
node by node and merging the maps of the parts, as `is_specialization_of` needs it. It is sound
(`specialize_specializationMap`: the map it finds specializes the general rule to the special
one) and complete (`specializationMap_isSome`: it finds one whenever one exists), so
`isSpecializationOf` decides `IsSpecialization` (`isSpecializationOf_iff`).
-/

namespace Propositions

/-- Modelled from the spec: an inference rule. -/
structure InferenceRule where
  assumptions : List Formula
  conclusion : Formula
  deriving DecidableEq, Repr

/-- Modelled from the spec: a specialization map, a Python dictionary from variable names to
formulas, as an association list read at the first entry of a name. -/
abbrev SpecializationMap := List (String × Formula)

/-- Modelled from the spec: `substitute_variables`, each variable the map names replaced by its
image. -/
def Formula.substituteVariables (f : Formula) (m : SpecializationMap) : Formula :=
  match f with
  | .var name => (m.lookup name).getD (.var name)
  | .T => .T
  | .F => .F
  | .neg g => .neg (g.substituteVariables m)
  | .bin op g h => .bin op (g.substituteVariables m) (h.substituteVariables m)

/-- Modelled from the spec: `specialize`, the map substituted throughout the rule. -/
def InferenceRule.specialize (rule : InferenceRule) (m : SpecializationMap) : InferenceRule :=
  ⟨rule.assumptions.map (·.substituteVariables m), rule.conclusion.substituteVariables m⟩

@[simp]
theorem Formula.substituteVariables_nil (f : Formula) : f.substituteVariables [] = f := by
  induction f <;> simp [Formula.substituteVariables, *]

/-- The spec's notion: `rule` is a specialization of `general` when some map specializes
`general` to it. -/
def IsSpecialization (rule general : InferenceRule) : Prop :=
  ∃ m, general.specialize m = rule

/-- Modelled from the spec: two maps merge when they agree on the names they share. -/
def mergeSpecializationMaps :
    Option SpecializationMap → Option SpecializationMap → Option SpecializationMap
  | some m₁, some m₂ =>
    if m₁.all fun p => (m₂.lookup p.1).all (· == p.2) then some (m₁ ++ m₂) else none
  | _, _ => none

/-- Modelled from the spec: the map that specializes `general` to `special`, matched node by
node. -/
def formulaSpecializationMap : Formula → Formula → Option SpecializationMap
  | .var name, special => some [(name, special)]
  | .T, .T => some []
  | .F, .F => some []
  | .neg g, .neg s => formulaSpecializationMap g s
  | .bin op g₁ g₂, .bin op' s₁ s₂ =>
    if op = op' then
      mergeSpecializationMaps (formulaSpecializationMap g₁ s₁) (formulaSpecializationMap g₂ s₂)
    else none
  | _, _ => none

/-- Merging the maps of a list of (general, special) formula pairs into `acc`. -/
def mergePairs (acc : Option SpecializationMap) (pairs : List (Formula × Formula)) :
    Option SpecializationMap :=
  pairs.foldl (fun m p => mergeSpecializationMaps m (formulaSpecializationMap p.1 p.2)) acc

/-- Modelled from the spec: `general.specialization_map(special)`, matching assumptions with
assumptions and conclusion with conclusion. -/
def InferenceRule.specializationMap (general special : InferenceRule) :
    Option SpecializationMap :=
  if general.assumptions.length = special.assumptions.length then
    mergePairs (some [])
      ((general.assumptions ++ [general.conclusion]).zip
        (special.assumptions ++ [special.conclusion]))
  else none

/-- Modelled from the spec: `rule.is_specialization_of(general)`. -/
def InferenceRule.isSpecializationOf (rule general : InferenceRule) : Bool :=
  (general.specializationMap rule).isSome

/-! ### Maps that agree with a substitution -/

/-- Every entry of `m` maps its name to what `σ` substitutes for it. -/
def Agrees (σ m : SpecializationMap) : Prop :=
  ∀ p ∈ m, (Formula.var p.1).substituteVariables σ = p.2

/-- `m` reads every one of its entries back at the entry's name. -/
def Functional (m : SpecializationMap) : Prop :=
  ∀ p ∈ m, m.lookup p.1 = some p.2

theorem mem_of_lookup_eq_some {m : SpecializationMap} {k : String} {f : Formula}
    (h : m.lookup k = some f) :
  (k, f) ∈ m
  := by
  obtain ⟨l₁, l₂, rfl, -⟩ := List.lookup_eq_some_iff.mp h
  simp

theorem mergeSpecializationMaps_eq_some {o₁ o₂ : Option SpecializationMap}
    {m : SpecializationMap} (h : mergeSpecializationMaps o₁ o₂ = some m) :
  ∃ m₁ m₂, o₁ = some m₁ ∧ o₂ = some m₂ ∧ m = m₁ ++ m₂ ∧
    ∀ p ∈ m₁, ∀ f, m₂.lookup p.1 = some f → f = p.2
  := by
  match o₁, o₂, h with
  | some m₁, some m₂, h =>
    simp only [mergeSpecializationMaps] at h
    split at h
    · next hall =>
      refine ⟨m₁, m₂, rfl, rfl, (Option.some.inj h).symm, fun p hp f hf => ?_⟩
      have := List.all_eq_true.mp hall p hp
      simpa [hf] using this
    · cases h

theorem mergeSpecializationMaps_of_agrees {σ m₁ m₂ : SpecializationMap}
    (h₁ : Agrees σ m₁) (h₂ : Agrees σ m₂) :
  mergeSpecializationMaps (some m₁) (some m₂) = some (m₁ ++ m₂)
  := by
  have hall : (m₁.all fun p => (m₂.lookup p.1).all (· == p.2)) = true := by
    refine List.all_eq_true.mpr fun p hp => ?_
    cases hf : m₂.lookup p.1 with
    | none => rfl
    | some f =>
      have h := h₂ _ (mem_of_lookup_eq_some hf)
      simpa using h.symm.trans (h₁ p hp)
  simp [mergeSpecializationMaps, hall]

theorem Agrees.append {σ m₁ m₂ : SpecializationMap} (h₁ : Agrees σ m₁) (h₂ : Agrees σ m₂) :
  Agrees σ (m₁ ++ m₂)
  := by
  intro p hp
  rcases List.mem_append.mp hp with hp | hp
  exacts [h₁ p hp, h₂ p hp]

theorem Functional.append {m₁ m₂ : SpecializationMap} (h₁ : Functional m₁) (h₂ : Functional m₂)
    (hagree : ∀ p ∈ m₁, ∀ f, m₂.lookup p.1 = some f → f = p.2) :
  Functional (m₁ ++ m₂)
  := by
  intro p hp
  rw [List.lookup_append]
  rcases List.mem_append.mp hp with hp | hp
  · simp [h₁ p hp]
  · cases hf : m₁.lookup p.1 with
    | none => simp [h₂ p hp]
    | some f =>
      have := hagree _ (mem_of_lookup_eq_some hf) _ (h₂ p hp)
      simp [this]

/-! ### Soundness -/

/-- The map found for two formulas reads back its own entries, and every map that extends it
specializes the general formula to the special one. -/
theorem formulaSpecializationMap_sound :
    ∀ {g s : Formula} {m : SpecializationMap}, formulaSpecializationMap g s = some m →
      Functional m ∧ ∀ m', (∀ p ∈ m, m'.lookup p.1 = some p.2) → g.substituteVariables m' = s
  | .var name, s, m, h => by
    cases h
    refine ⟨by simp [Functional], fun m' hm' => ?_⟩
    simp [Formula.substituteVariables, hm' (name, s) (List.mem_singleton_self _)]
  | .T, s, m, h | .F, s, m, h => by
    cases s <;> simp only [formulaSpecializationMap, reduceCtorEq, Option.some.injEq] at h
    all_goals subst h; exact ⟨by simp [Functional], fun _ _ => rfl⟩
  | .neg g, s, m, h => by
    cases s <;> simp only [formulaSpecializationMap, reduceCtorEq] at h
    obtain ⟨hfun, hsub⟩ := formulaSpecializationMap_sound h
    exact ⟨hfun, fun m' hm' => by simp [Formula.substituteVariables, hsub m' hm']⟩
  | .bin op g₁ g₂, s, m, h => by
    cases s <;> simp only [formulaSpecializationMap, reduceCtorEq] at h
    rename_i op' s₁ s₂
    split at h
    · subst op'
      obtain ⟨m₁, m₂, h₁, h₂, rfl, hagree⟩ := mergeSpecializationMaps_eq_some h
      obtain ⟨hfun₁, hsub₁⟩ := formulaSpecializationMap_sound h₁
      obtain ⟨hfun₂, hsub₂⟩ := formulaSpecializationMap_sound h₂
      refine ⟨hfun₁.append hfun₂ hagree, fun m' hm' => ?_⟩
      simp only [Formula.substituteVariables,
        hsub₁ m' fun p hp => hm' p (List.mem_append_left _ hp),
        hsub₂ m' fun p hp => hm' p (List.mem_append_right _ hp)]
    · cases h

theorem mergePairs_none (pairs : List (Formula × Formula)) : mergePairs none pairs = none := by
  induction pairs with
  | nil => rfl
  | cons p pairs ih => exact ih

/-- Merging a list of pairs into a functional map keeps it functional and extends it, and the
result specializes the general side of every pair to its special side. -/
theorem mergePairs_sound :
    ∀ {pairs : List (Formula × Formula)} {m₀ m : SpecializationMap},
      Functional m₀ → mergePairs (some m₀) pairs = some m →
      Functional m ∧ (∀ p ∈ m₀, p ∈ m) ∧ ∀ q ∈ pairs, q.1.substituteVariables m = q.2
  | [], m₀, m, hfun, h => by
    cases h
    exact ⟨hfun, fun _ hp => hp, by simp⟩
  | (g, s) :: pairs, m₀, m, hfun, h => by
    change mergePairs (mergeSpecializationMaps (some m₀) (formulaSpecializationMap g s)) pairs
      = some m at h
    cases hm₁ : mergeSpecializationMaps (some m₀) (formulaSpecializationMap g s) with
    | none => rw [hm₁, mergePairs_none] at h; cases h
    | some m₁ =>
      rw [hm₁] at h
      obtain ⟨_, mg, ⟨⟩, hg, rfl, hagree⟩ := mergeSpecializationMaps_eq_some hm₁
      obtain ⟨hfung, hsubg⟩ := formulaSpecializationMap_sound hg
      obtain ⟨hfunm, hsub, hpairs⟩ := mergePairs_sound (hfun.append hfung hagree) h
      refine ⟨hfunm, fun p hp => hsub p (List.mem_append_left _ hp), ?_⟩
      rintro q (_ | ⟨_, hq⟩)
      · exact hsubg m fun p hp => hfunm p (hsub p (List.mem_append_right _ hp))
      · exact hpairs q hq

theorem map_eq_of_forall_mem_zip {f : Formula → Formula} :
    ∀ {l₁ l₂ : List Formula}, l₁.length = l₂.length →
      (∀ q ∈ l₁.zip l₂, f q.1 = q.2) → l₁.map f = l₂
  | [], [], _, _ => rfl
  | a :: l₁, b :: l₂, hlen, h => by
    simp only [List.zip_cons_cons, List.mem_cons, forall_eq_or_imp] at h
    simp [h.1, map_eq_of_forall_mem_zip (by simpa using hlen) h.2]

/-- Soundness: the map `specializationMap` finds specializes the general rule to the special
one. -/
theorem specialize_specializationMap {general special : InferenceRule} {m : SpecializationMap}
    (h : general.specializationMap special = some m) :
  general.specialize m = special
  := by
  unfold InferenceRule.specializationMap at h
  split at h
  · next hlen =>
    obtain ⟨-, -, hpairs⟩ := mergePairs_sound (by simp [Functional]) h
    rw [List.zip_append hlen] at hpairs
    have hconc := hpairs _ (List.mem_append_right _ (List.mem_singleton_self _))
    have hassm := map_eq_of_forall_mem_zip (f := (·.substituteVariables m)) hlen
      fun q hq => hpairs q (List.mem_append_left _ hq)
    simp only [InferenceRule.specialize, hassm, hconc]
  · cases h

/-! ### Completeness -/

/-- Matching a formula against a substitution instance of it finds a map that agrees with the
substitution. -/
theorem formulaSpecializationMap_substituteVariables (σ : SpecializationMap) :
    ∀ g : Formula, ∃ m, formulaSpecializationMap g (g.substituteVariables σ) = some m ∧
      Agrees σ m
  | .var name => ⟨_, rfl, by simp [Agrees]⟩
  | .T => ⟨[], rfl, by simp [Agrees]⟩
  | .F => ⟨[], rfl, by simp [Agrees]⟩
  | .neg g => formulaSpecializationMap_substituteVariables σ g
  | .bin op g₁ g₂ => by
    obtain ⟨m₁, h₁, ha₁⟩ := formulaSpecializationMap_substituteVariables σ g₁
    obtain ⟨m₂, h₂, ha₂⟩ := formulaSpecializationMap_substituteVariables σ g₂
    refine ⟨m₁ ++ m₂, ?_, ha₁.append ha₂⟩
    simp [Formula.substituteVariables, formulaSpecializationMap, h₁, h₂,
      mergeSpecializationMaps_of_agrees ha₁ ha₂]

theorem mergePairs_substituteVariables (σ : SpecializationMap) :
    ∀ (gs : List Formula) (m₀ : SpecializationMap), Agrees σ m₀ →
      ∃ m, mergePairs (some m₀) (gs.zip (gs.map (·.substituteVariables σ))) = some m
  | [], m₀, _ => ⟨m₀, rfl⟩
  | g :: gs, m₀, h₀ => by
    obtain ⟨mg, hg, hag⟩ := formulaSpecializationMap_substituteVariables σ g
    have hstep : mergeSpecializationMaps (some m₀) (formulaSpecializationMap g
        (g.substituteVariables σ)) = some (m₀ ++ mg) := by
      rw [hg, mergeSpecializationMaps_of_agrees h₀ hag]
    obtain ⟨m, hm⟩ := mergePairs_substituteVariables σ gs _ (h₀.append hag)
    exact ⟨m, by simpa [mergePairs, hstep] using hm⟩

/-- Completeness: `specializationMap` finds a map for every specialization of a rule. -/
theorem specializationMap_isSome (general : InferenceRule) (σ : SpecializationMap) :
  (general.specializationMap (general.specialize σ)).isSome
  := by
  obtain ⟨m, hm⟩ := mergePairs_substituteVariables σ
    (general.assumptions ++ [general.conclusion]) [] (by simp [Agrees])
  rw [List.map_append, List.map_singleton] at hm
  simp [InferenceRule.specializationMap, InferenceRule.specialize, hm]

/-- `isSpecializationOf` decides the spec's notion of specialization. -/
theorem isSpecializationOf_iff {rule general : InferenceRule} :
  rule.isSpecializationOf general ↔ IsSpecialization rule general
  := by
  constructor
  · intro h
    obtain ⟨m, hm⟩ := Option.isSome_iff_exists.mp h
    exact ⟨m, specialize_specializationMap hm⟩
  · rintro ⟨σ, rfl⟩
    exact specializationMap_isSome general σ

/-- Every rule is a specialization of itself. -/
theorem isSpecializationOf_self (rule : InferenceRule) : rule.isSpecializationOf rule :=
  isSpecializationOf_iff.mpr ⟨[], by simp [InferenceRule.specialize]⟩

end Propositions
