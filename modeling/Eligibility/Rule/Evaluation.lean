import Eligibility.Binary64.Literal
import Eligibility.Record.Basic
import Eligibility.Rule.Basic
import Eligibility.Text.Blank

namespace Eligibility

/-- The place in a rule at which a comparator has no meaning. -/
inductive ComparatorContext where
  | operatorNode
  | operandNode
  | textField
deriving DecidableEq

def ComparatorContext.description : ComparatorContext → String
  | .operatorNode => "operator node"
  | .operandNode => "operand node"
  | .textField => "string field"

/-- Why a rule has no verdict. -/
inductive EvaluationError where
  | unknownField (name : String)
  | unsupportedComparator (comparator : Comparator) (context : ComparatorContext)
  | nonNumericLiteral (text : String)
deriving DecidableEq

def EvaluationError.message : EvaluationError → String
  | .unknownField name => "unknown field: " ++ name
  | .unsupportedComparator comparator context =>
    s!"comparator {comparator.lexeme} is not supported for {context.description}"
  | .nonNumericLiteral text => "non-numeric literal in numeric comparison: " ++ text

/-- The double that a literal stands for next to a numeric field. A text must denote a finite
double, blanks at its ends apart. -/
def Literal.toBinary64 : Literal → Except EvaluationError Binary64
  | .number value => .ok (.ofInt value.toNat)
  | .text value =>
    match Binary64.read (trimBlanks value.toList) with
    | some double => if double.isFinite then .ok double else .error (.nonNumericLiteral value)
    | none => .error (.nonNumericLiteral value)

/-- The text that a literal stands for next to a text field. -/
def Literal.toText : Literal → String
  | .number value => String.ofList (decimalDigits value.toNat)
  | .text value => value

def compareNumbers (comparator : Comparator) (number literal : Binary64) :
    Except EvaluationError Bool :=
  match comparator.test? with
  | none => .error (.unsupportedComparator comparator .operandNode)
  | some test => .ok ((number.compare? literal).any test)

def compareTexts (comparator : Comparator) (text literal : String) :
    Except EvaluationError Bool :=
  match comparator with
  | .equal => .ok (text = literal)
  | _ => .error (.unsupportedComparator comparator .textField)

def evaluateOperand (name : String) (comparator : Comparator) (value : Literal)
    (record : Record) : Except EvaluationError Bool :=
  match record.get? name with
  | none => .error (.unknownField name)
  | some (.number number) =>
    match value.toBinary64 with
    | .error error => .error error
    | .ok literal => compareNumbers comparator number literal
  | some (.text text) => compareTexts comparator text value.toText

def joinVerdicts (connective : Comparator) (left right : Bool) : Except EvaluationError Bool :=
  match connective with
  | .and => .ok (left && right)
  | .or => .ok (left || right)
  | _ => .error (.unsupportedComparator connective .operatorNode)

/-- The verdict of a rule on a record. Both sides of a connective are evaluated, so that an invalid
node is reported whatever the record holds. -/
def Rule.evaluate (rule : Rule) (record : Record) : Except EvaluationError Bool :=
  match rule with
  | .operand field comparator value => evaluateOperand field comparator value record
  | .operator connective left right =>
    match left.evaluate record with
    | .error error => .error error
    | .ok leftVerdict =>
      match right.evaluate record with
      | .error error => .error error
      | .ok rightVerdict => joinVerdicts connective leftVerdict rightVerdict

end Eligibility
