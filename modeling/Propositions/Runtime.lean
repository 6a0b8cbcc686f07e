import Mathlib.Data.Int.Defs
import Mathlib.Data.List.Range

/-!
# The Python runtime

What the modules of `propositions` rely on from Python itself: the exceptions a call can end in,
`assert`, and `range` over integers. A call is modelled as a computation in
`Except PyError`.
-/

namespace Propositions

/-- The exceptions the modelled functions can raise. -/
inductive PyError where
  /-- A failed `assert`. -/
  | assertionError
  /-- A name bound neither in the function nor in its module. -/
  | nameError (name : String)
  /-- `raise ValueError(message)`. -/
  | valueError (message : String)
  /-- A subscript past the end of a list or a tuple. -/
  | indexError
  /-- An operation on a value of the wrong type, such as iterating over `None`. -/
  | typeError
  deriving DecidableEq, Repr

/-- `assert condition`. -/
def pyAssert (condition : Bool) : Except PyError Unit :=
  if condition then pure () else throw .assertionError

@[simp]
theorem pyAssert_true : pyAssert true = pure () := rfl

@[simp]
theorem pyAssert_false : pyAssert false = throw .assertionError := rfl

/-- A failed assertion ends the call, whatever follows it. -/
@[simp]
theorem pyAssert_false_bind {α : Type} (k : Unit → Except PyError α) :
  (pyAssert false >>= k) = throw .assertionError
  := rfl

@[simp]
theorem ok_bind {α β : Type} (a : α) (f : α → Except PyError β) : (Except.ok a >>= f) = f a := rfl

/-- A computation followed by another returns a value only when the first returns one that the
second turns into it. -/
theorem bind_eq_ok {α β : Type} {x : Except PyError α} {f : α → Except PyError β} {b : β} :
  (x >>= f) = .ok b ↔ ∃ a, x = .ok a ∧ f a = .ok b
  := by
  cases x <;> simp [bind, Except.bind]

/-- `xs[i]` on a list or a tuple. -/
def pyIndex {α : Type} (xs : List α) (i : Nat) : Except PyError α :=
  match xs[i]? with
  | some x => pure x
  | none => throw .indexError

@[simp]
theorem pyIndex_of_lt {α : Type} {xs : List α} {i : Nat} (h : i < xs.length) :
  pyIndex xs i = pure xs[i]
  := by
  simp [pyIndex, List.getElem?_eq_getElem h]

/-- `range(start, stop)`: the integers from `start` up to, but not including, `stop`. -/
def pyRange (start stop : Int) : List Int :=
  (List.range (stop - start).toNat).map fun (i : Nat) => start + (i : Int)

@[simp]
theorem mem_pyRange {start stop x : Int} :
  x ∈ pyRange start stop ↔ start ≤ x ∧ x < stop
  := by
  simp only [pyRange, List.mem_map, List.mem_range]
  constructor
  · rintro ⟨i, hi, rfl⟩
    omega
  · intro h
    exact ⟨(x - start).toNat, by omega, by omega⟩

@[simp]
theorem length_pyRange (start stop : Int) : (pyRange start stop).length = (stop - start).toNat := by
  simp [pyRange]

theorem nodup_pyRange (start stop : Int) : (pyRange start stop).Nodup :=
  List.Pairwise.map _ (fun i j hij h => hij (by omega)) (List.nodup_range _)

end Propositions
