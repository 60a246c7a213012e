import Eligibility.Rule.Basic
import Eligibility.Text.Digits

namespace Eligibility

def Literal.render : Literal → List Char
  | .number value => decimalDigits value.toNat
  | .text value => '\'' :: (value.toList ++ ['\''])

/-- Puts the text of a child in parentheses where the child has children of its own. -/
def Rule.enclose (rule : Rule) (text : List Char) : List Char :=
  match rule with
  | .operand .. => text
  | .operator .. => '(' :: (text ++ [')'])

/-- The canonical text of a rule. -/
def Rule.render : Rule → List Char
  | .operand field comparator value =>
    field.toList ++ ' ' :: (comparator.chars ++ ' ' :: value.render)
  | .operator connective left right =>
    left.enclose left.render ++ ' ' :: (connective.chars ++ ' ' :: right.enclose right.render)

def Rule.text (rule : Rule) : String :=
  String.ofList rule.render

end Eligibility
