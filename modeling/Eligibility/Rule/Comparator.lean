namespace Eligibility

/-- The connectives and the comparison signs. Both kinds of node of a rule draw from this one set;
which of them a node supports is a matter of evaluation. -/
inductive Comparator where
  | and
  | or
  | greater
  | less
  | equal
  | greaterEqual
  | lessEqual
deriving DecidableEq

def Comparator.all : List Comparator :=
  [.and, .or, .greater, .less, .equal, .greaterEqual, .lessEqual]

theorem Comparator.mem_all (c : Comparator) : c ∈ all := by
  cases c <;> decide

/-- The characters that stand for a comparator in rule text. -/
def Comparator.chars : Comparator → List Char
  | .and => ['A', 'N', 'D']
  | .or => ['O', 'R']
  | .greater => ['>']
  | .less => ['<']
  | .equal => ['=']
  | .greaterEqual => ['>', '=']
  | .lessEqual => ['<', '=']

def Comparator.lexeme (c : Comparator) : String :=
  String.ofList c.chars

def Comparator.ofLexeme? (text : String) : Option Comparator :=
  all.find? fun c => c.lexeme = text

theorem Comparator.ofLexeme?_lexeme (c : Comparator) : ofLexeme? c.lexeme = some c := by
  cases c <;> decide

def Comparator.isConnective : Comparator → Bool
  | .and | .or => true
  | _ => false

/-- The test on an order that a comparison sign makes. -/
def Comparator.test? : Comparator → Option (Ordering → Bool)
  | .and | .or => none
  | .greater => some Ordering.isGT
  | .less => some Ordering.isLT
  | .equal => some Ordering.isEq
  | .greaterEqual => some Ordering.isGE
  | .lessEqual => some Ordering.isLE

end Eligibility
