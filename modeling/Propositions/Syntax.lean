import Mathlib.Data.List.Basic

/-!
# Propositional formulas

The formula collaborator `propositions/syntax.py`, which `deduction.py`, `operators.py` and
`reductions.py` import but which the repository does not contain, modelled from the spec: an
immutable tree whose leaves are variables or the constants `T` and `F`, and whose inner nodes
are `~` over one child or a binary operator over two. Equality is structural.

A Python `Formula` also answers `root`, `first` and `second`. `is_variable(f.root)` is a match
on `Formula.var`. `negation.first` in `prove_by_way_of_contradiction` is `Formula.first`, which
reads `None` from a leaf. The conversions of `operators.py` read `first` and `second` under
their `if f.first:` tests or after a test of the root, and are modelled by matching on the
node, which names exactly the operands the node has. `Formula.inBasis` says which connectives
a formula is built from.
-/

namespace Propositions

/-- The binary operators `&`, `|`, `->`, `+`, `<->`, `-&` and `-|`. -/
inductive BinOp where
  | and
  | or
  | implies
  | xor
  | iff
  | nand
  | nor
  deriving DecidableEq, Repr

/-- Modelled from the spec: a propositional formula in tree representation. -/
inductive Formula where
  | var (name : String)
  | T
  | F
  | neg (first : Formula)
  | bin (root : BinOp) (first second : Formula)
  deriving DecidableEq, Repr

/-- The text of an operator, as the Python root string spells it. -/
def BinOp.symbol : BinOp → String
  | .and => "&"
  | .or => "|"
  | .implies => "->"
  | .xor => "+"
  | .iff => "<->"
  | .nand => "-&"
  | .nor => "-|"

/-- Modelled from the spec: the roots of constant leaves. -/
def isConstant (s : String) : Bool := s == "T" || s == "F"

/-- Modelled from the spec: the root of a unary node. -/
def isUnary (s : String) : Bool := s == "~"

/-- Modelled from the spec: the roots of binary nodes. -/
def isBinary (s : String) : Bool :=
  [BinOp.and, .or, .implies, .xor, .iff, .nand, .nor].any (s == ·.symbol)

/-- Modelled from the spec: a leaf that is not a constant is a variable, and the spec fixes no
further grammar for variable names. A name is accepted as a variable when it is neither a
constant nor an operator, so that strings the Python `is_variable` may reject, such as the empty
string or `p->q`, are accepted too: `Formula.isWellFormed` below is at most as strict as the
Python check. -/
def isVariable (s : String) : Bool := !isConstant s && !isUnary s && !isBinary s

/-- Modelled from the spec: `Formula(root)` with no operands is accepted when `root` is a
variable name; a formula is well formed when every variable leaf is. -/
def Formula.isWellFormed : Formula → Bool
  | .var name => isVariable name
  | .T | .F => true
  | .neg f => f.isWellFormed
  | .bin _ f g => f.isWellFormed && g.isWellFormed

/-- Modelled from the spec: the `first` slot of a node, `None` on a leaf. -/
def Formula.first : Formula → Option Formula
  | .neg f => some f
  | .bin _ f _ => some f
  | _ => none

/-- Modelled from the spec: `variables()`, the names of the variable leaves, each once. Python
returns a set and lists it in an order of its own; here the order is that of first
occurrence. -/
def Formula.variables : Formula → List String
  | .var name => [name]
  | .T | .F => []
  | .neg f => f.variables
  | .bin _ f g => f.variables ∪ g.variables

/-- A formula is no operand of itself. -/
theorem Formula.bin_ne_right (op : BinOp) (f g : Formula) : Formula.bin op f g ≠ g := by
  intro h
  have := congrArg sizeOf h
  simp only [bin.sizeOf_spec] at this
  omega

/-- A set of connectives: which constants may occur, whether `~` may, and which binary
operators may. -/
structure Basis where
  T : Bool
  F : Bool
  neg : Bool
  bin : BinOp → Bool

/-- `f` contains no constants or operators beyond those of `b`. -/
def Formula.inBasis (b : Basis) : Formula → Bool
  | .var _ => true
  | .T => b.T
  | .F => b.F
  | .neg f => b.neg && f.inBasis b
  | .bin op f g => b.bin op && f.inBasis b && g.inBasis b

attribute [simp] Formula.inBasis Formula.isWellFormed

/-- Modelled from the spec: `Formula.parse('~(p->p)')`, the one formula the sources parse. -/
def contradiction : Formula := .neg (.bin .implies (.var "p") (.var "p"))

end Propositions
