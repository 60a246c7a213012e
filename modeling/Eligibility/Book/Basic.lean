import Eligibility.Book.Config
import Eligibility.Book.Entry
import Eligibility.Rule.Evaluation
import Eligibility.Rule.Parser

namespace Eligibility

/-- A catalogue of rules: a map from ids to entries. The order in which the map has its rules means
nothing. -/
structure Book where
  rules : List (UInt64 × Entry)
  nextId : UInt64
deriving DecidableEq

/-- Why an operation on a book fails. -/
inductive BookError where
  | parse (error : ParseError)
  | evaluation (error : EvaluationError)
  | ruleNotFound (id : UInt64)
deriving DecidableEq

def BookError.message : BookError → String
  | .parse error => error.message
  | .evaluation error => error.message
  | .ruleNotFound id => s!"Rule not found: {id.toNat}"

def Book.empty : Book :=
  ⟨[], 1⟩

/-- Puts an entry under an id, where it takes the place of an older one. -/
def insertRule (id : UInt64) (entry : Entry) : List (UInt64 × Entry) → List (UInt64 × Entry)
  | [] => [(id, entry)]
  | (key, other) :: rest =>
    if key = id then (id, entry) :: rest else (key, other) :: insertRule id entry rest

def removeRule (id : UInt64) (rules : List (UInt64 × Entry)) : List (UInt64 × Entry) :=
  rules.filter fun rule => rule.1 ≠ id

/-- Reads the text of a rule and stores it under the next id, which a text with a fault does not
use up. -/
def Book.create (book : Book) (name text : String) : Except ParseError (Entry × Book) :=
  match Rule.parse text with
  | .error error => .error error
  | .ok rule =>
    let id := book.nextId
    let entry : Entry := ⟨id, name, text, rule⟩
    .ok (entry, ⟨insertRule id entry book.rules, id + 1⟩)

def Book.get? (book : Book) (id : UInt64) : Option Entry :=
  book.rules.lookup id

/-- All entries in ascending order of their ids. -/
def Book.list (book : Book) : List Entry :=
  (book.rules.map Prod.snd).mergeSort fun entry other => entry.id ≤ other.id

def Book.size (book : Book) : Nat :=
  book.rules.length

def Book.isEmpty (book : Book) : Bool :=
  book.rules.isEmpty

def Book.evaluate (book : Book) (id : UInt64) (record : Record) : Except BookError Bool :=
  match book.get? id with
  | none => .error (.ruleNotFound id)
  | some entry => (entry.rule.evaluate record).mapError .evaluation

def Book.delete (book : Book) (id : UInt64) : Except BookError Book :=
  match book.get? id with
  | none => .error (.ruleNotFound id)
  | some _ => .ok { book with rules := removeRule id book.rules }

/-- Stores the definitions in their order, up to the first whose text has a fault. -/
def Book.createAll (book : Book) : List Definition → Except ParseError Book
  | [] => .ok book
  | definition :: rest =>
    match book.create definition.name definition.text with
    | .error error => .error error
    | .ok (_, book) => book.createAll rest

def Book.ofConfig (config : Config) : Except ParseError Book :=
  empty.createAll config.definitions

end Eligibility
