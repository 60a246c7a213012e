import Eligibility.Rule.Comparator

namespace Eligibility

/-- The right-hand side of a comparison. -/
inductive Literal where
  | number (value : UInt64)
  | text (value : String)
deriving DecidableEq

/-- A condition on a record: comparisons of a field with a literal, joined in pairs. -/
inductive Rule where
  | operand (field : String) (comparator : Comparator) (value : Literal)
  | operator (connective : Comparator) (left right : Rule)
deriving DecidableEq

/-- The levels of the tree; a single comparison is one level deep. -/
def Rule.depth : Rule → Nat
  | .operand .. => 1
  | .operator _ left right => max left.depth right.depth + 1

def Rule.nodeCount : Rule → Nat
  | .operand .. => 1
  | .operator _ left right => 1 + left.nodeCount + right.nodeCount

theorem Rule.one_le_depth (rule : Rule) : 1 ≤ rule.depth := by
  cases rule with
  | operand => exact Nat.le_refl _
  | operator => exact Nat.le_add_left _ _

end Eligibility
