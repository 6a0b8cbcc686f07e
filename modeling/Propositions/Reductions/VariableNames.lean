import Propositions.Syntax
import Mathlib.Data.Int.Defs
import Mathlib.Data.Nat.Digits
import Mathlib.Data.List.Basic

/-!
# The variable names of the reduction

`graph3coloring_to_formula` names the variable that says vertex `v` has colour `c`
`f"x{v}_{c}"`. For positive vertices and colours these names are pairwise distinct
(`varName_inj`): the decimal digits of a number read back as the number, and contain no `_`.
They are accepted as variable names (`isVariable_varName`).
-/

namespace Propositions

/-- `f"x{v}_{c}"`. -/
def varName (v c : Int) : String := "x" ++ toString v ++ "_" ++ toString c

/-! ### Decimal digits -/

/-- The number a list of decimal digit characters spells. -/
def digitsValue (digits : List Char) : Nat :=
  digits.foldl (fun value d => 10 * value + (d.toNat - '0'.toNat)) 0

theorem toDigitsCore_append (fuel n : Nat) (ds : List Char) :
  Nat.toDigitsCore 10 fuel n ds = Nat.toDigitsCore 10 fuel n [] ++ ds
  := by
  induction fuel generalizing n ds with
  | zero => rfl
  | succ fuel ih =>
    simp only [Nat.toDigitsCore]
    split
    · rfl
    · rw [ih _ (_ :: ds), ih _ [_]]
      simp

theorem digitChar_toNat : ∀ d < 10, (Nat.digitChar d).toNat - '0'.toNat = d := by decide

theorem digitsValue_toDigitsCore {fuel n : Nat} (h : n < fuel) :
  digitsValue (Nat.toDigitsCore 10 fuel n []) = n
  := by
  induction fuel generalizing n with
  | zero => omega
  | succ fuel ih =>
    simp only [Nat.toDigitsCore]
    split
    · simp only [digitsValue, List.foldl_cons, List.foldl_nil,
        digitChar_toNat _ (Nat.mod_lt n (by omega))]
      omega
    · rw [toDigitsCore_append, digitsValue, List.foldl_append, ← digitsValue, ih (by omega)]
      simp only [List.foldl_cons, List.foldl_nil, digitChar_toNat _ (Nat.mod_lt n (by omega))]
      omega

theorem toDigits_injective {a b : Nat} (h : Nat.toDigits 10 a = Nat.toDigits 10 b) : a = b := by
  have ha := digitsValue_toDigitsCore (Nat.lt_succ_self a)
  have hb := digitsValue_toDigitsCore (Nat.lt_succ_self b)
  unfold Nat.toDigits at h
  rw [← ha, ← hb, h]

theorem mem_toDigitsCore {fuel n : Nat} {ds : List Char} {c : Char}
    (h : c ∈ Nat.toDigitsCore 10 fuel n ds) :
  c ∈ ds ∨ ∃ d < 10, c = Nat.digitChar d
  := by
  induction fuel generalizing n ds with
  | zero => exact .inl h
  | succ fuel ih =>
    simp only [Nat.toDigitsCore] at h
    have hd : ∃ d < 10, Nat.digitChar (n % 10) = Nat.digitChar d :=
      ⟨_, Nat.mod_lt n (by omega), rfl⟩
    split at h
    · rcases List.mem_cons.mp h with rfl | h
      exacts [.inr hd, .inl h]
    · rcases ih h with h | h
      · rcases List.mem_cons.mp h with rfl | h
        exacts [.inr hd, .inl h]
      · exact .inr h

theorem underscore_not_mem_toDigits (n : Nat) : '_' ∉ Nat.toDigits 10 n := by
  intro h
  rcases mem_toDigitsCore h with h | ⟨d, hd, heq⟩
  · simp at h
  · exact (show ∀ d < 10, Nat.digitChar d ≠ '_' by decide) d hd heq.symm

/-! ### Names -/

theorem toString_of_nonneg {v : Int} (h : 0 ≤ v) :
  toString v = (Nat.toDigits 10 v.toNat).asString
  := by
  obtain ⟨n, rfl⟩ := Int.eq_ofNat_of_zero_le h
  rfl

theorem varName_data {v c : Int} (hv : 0 ≤ v) (hc : 0 ≤ c) :
  (varName v c).data = 'x' :: (Nat.toDigits 10 v.toNat ++ '_' :: Nat.toDigits 10 c.toNat)
  := by
  simp [varName, toString_of_nonneg hv, toString_of_nonneg hc, String.append, List.asString]

/-- Distinct nonnegative vertices or colours give distinct names. -/
theorem varName_inj {v c v' c' : Int} (hv : 0 ≤ v) (hc : 0 ≤ c) (hv' : 0 ≤ v') (hc' : 0 ≤ c')
    (h : varName v c = varName v' c') :
  v = v' ∧ c = c'
  := by
  have hdata := congrArg String.data h
  rw [varName_data hv hc, varName_data hv' hc', List.cons.injEq,
    List.append_cons_inj_of_not_mem (underscore_not_mem_toDigits _)
      (underscore_not_mem_toDigits _)] at hdata
  obtain ⟨-, hdv, -, hdc⟩ := hdata
  exact ⟨by have := toDigits_injective hdv; omega, by have := toDigits_injective hdc; omega⟩

/-- Every name `x{v}_{c}` is accepted as a variable name: it starts with `x`, and no constant
or operator does. -/
theorem isVariable_varName (v c : Int) : isVariable (varName v c) := by
  have hheads : ∀ t ∈ ["T", "F", "~", "&", "|", "->", "+", "<->", "-&", "-|"],
      t.data.head? ≠ some 'x' := by decide
  have hne : ∀ t ∈ ["T", "F", "~", "&", "|", "->", "+", "<->", "-&", "-|"], varName v c ≠ t :=
    fun t ht heq => hheads t ht (heq ▸ rfl)
  simp only [List.mem_cons, List.mem_singleton, forall_eq_or_imp, forall_eq, List.not_mem_nil,
    false_imp_iff, imp_false, implies_true, and_true] at hne
  simp [isVariable, isConstant, isUnary, isBinary, BinOp.symbol, hne]

end Propositions
