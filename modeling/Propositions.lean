import Propositions.Runtime
import Propositions.Syntax
import Propositions.Semantics
import Propositions.Specialization
import Propositions.Proofs
import Propositions.Deduction.Corollary
import Propositions.Deduction.DeductionTheorem
import Propositions.Deduction.Contradiction
import Propositions.Operators
import Propositions.Operators.Invariants
import Propositions.Reductions.VariableNames
import Propositions.Reductions.Coloring
import Propositions.Reductions.Size
import Propositions.Reductions.Tricolor
