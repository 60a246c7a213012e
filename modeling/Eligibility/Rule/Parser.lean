import Eligibility.Rule.Basic
import Eligibility.Rule.ParseError
import Eligibility.Text.Alphanumeric
import Eligibility.Text.Blank
import Eligibility.Text.Digits
import Eligibility.Text.Offset

namespace Eligibility

/-- The deepest tree and the most parentheses around one place that a rule text may have. -/
def maxDepth : Nat := 100

/-- A fault together with the text that was still unread where it was found. -/
structure Fault where
  reason : ParseError.Reason
  rest : List Char
deriving DecidableEq

/-- What was read from the front of a text, with the text that follows it. -/
abbrev Scan (α : Type) := Except Fault (α × List Char)

/-- A rule read so far and the number of its levels. -/
structure Subtree where
  rule : Rule
  depth : Nat
deriving DecidableEq

def scanName (input : List Char) : Scan (List Char) :=
  let input := skipBlanks input
  match input.takeWhile isNameChar with
  | [] => .error ⟨.missingName input.head?, input⟩
  | name => .ok (name, input.dropWhile isNameChar)

/-- The candidate with the longest lexeme that the text starts with. -/
def longestLexeme? (candidates : List Comparator) (input : List Char) : Option Comparator :=
  candidates.foldl (fun best candidate =>
    if candidate.chars.isPrefixOf input && best.all (·.chars.length < candidate.chars.length)
    then some candidate else best) none

def scanLexeme (candidates : List Comparator) (input : List Char) :
    Option (Comparator × List Char) :=
  let input := skipBlanks input
  (longestLexeme? candidates input).map fun found => (found, input.drop found.chars.length)

/-- Reads a comparator: words and signs alike, wherever a comparison sign or a connective may
stand. -/
def scanComparator (input : List Char) : Option (Comparator × List Char) :=
  scanLexeme Comparator.all input

def scanNumber (input : List Char) : Scan Literal :=
  let (digits, rest) := scanDigits input
  match rest with
  | '.' :: _ => .error ⟨.fractionalNumber, rest⟩
  | _ =>
    if digitsValue digits < UInt64.size then .ok (.number (.ofNat (digitsValue digits)), rest)
    else .error ⟨.numberOutOfRange (String.ofList digits), input⟩

/-- Reads a literal: a text between single quotes or a run of digits. -/
def scanLiteral (input : List Char) : Scan Literal :=
  match skipBlanks input with
  | [] => .error ⟨.missingValue none, []⟩
  | '\'' :: inner =>
    match inner.dropWhile (· != '\'') with
    | [] => .error ⟨.unterminatedText, '\'' :: inner⟩
    | _ :: rest => .ok (.text (String.ofList (inner.takeWhile (· != '\''))), rest)
  | c :: rest =>
    if c.isDigit then scanNumber (c :: rest)
    else if c = '-' then .error ⟨.negativeNumber, c :: rest⟩
    else .error ⟨.missingValue (some c), c :: rest⟩

/-- Reads a name, a comparator and a literal. -/
def scanComparison (input : List Char) : Scan Subtree :=
  match scanName input with
  | .error fault => .error fault
  | .ok (name, rest) =>
    match scanComparator rest with
    | none => .error ⟨.missingComparator (String.ofList name), skipBlanks rest⟩
    | some (comparator, rest) =>
      match scanLiteral rest with
      | .error fault => .error fault
      | .ok (value, rest) => .ok (⟨.operand (String.ofList name) comparator value, 1⟩, rest)

/-- Reads the connectives and terms that follow a first term; all connectives bind alike and join
from the left. The chain ends because every term makes the tree deeper. -/
def scanChain (term : List Char → Scan Subtree) (left : Subtree) (input : List Char) :
    Scan Subtree :=
  match scanComparator input with
  | none => .ok (left, input)
  | some (connective, rest) =>
    match term rest with
    | .error fault => .error fault
    | .ok (right, rest) =>
      if max left.depth right.depth + 1 > maxDepth then .error ⟨.nestedTooDeeply, rest⟩
      else
        scanChain term
          ⟨.operator connective left.rule right.rule, max left.depth right.depth + 1⟩ rest
termination_by maxDepth - left.depth
decreasing_by omega

def scanExpression (term : List Char → Scan Subtree) (input : List Char) : Scan Subtree :=
  match term input with
  | .error fault => .error fault
  | .ok (left, rest) => scanChain term left rest

/-- Reads an expression and the parenthesis that closes it. -/
def scanEnclosed (term : List Char → Scan Subtree) (input : List Char) : Scan Subtree :=
  match scanExpression term input with
  | .error fault => .error fault
  | .ok (subtree, rest) =>
    match skipBlanks rest with
    | ')' :: rest => .ok (subtree, rest)
    | rest => .error ⟨.missingParenthesis, rest⟩

/-- Reads a comparison or an expression in parentheses, with room for that many parentheses inside
one another. -/
def scanTerm (room : Nat) (input : List Char) : Scan Subtree :=
  match skipBlanks input with
  | [] => .error ⟨.missingTerm, []⟩
  | '(' :: inner =>
    match room with
    | 0 => .error ⟨.nestedTooDeeply, '(' :: inner⟩
    | room + 1 => scanEnclosed (scanTerm room) inner
  | input => scanComparison input

/-- Reads a rule that takes up the whole text. -/
def scanRule (input : List Char) : Except Fault Rule :=
  match scanExpression (scanTerm maxDepth) input with
  | .error fault => .error fault
  | .ok (subtree, rest) =>
    match skipBlanks rest with
    | [] => .ok subtree.rule
    | c :: rest => .error ⟨.trailing c, c :: rest⟩

/-- The byte of the text at which the unread part of a fault begins. -/
def Fault.locate (fault : Fault) (input : List Char) : ParseError :=
  ⟨utf8Length input - utf8Length fault.rest, fault.reason⟩

def Rule.parse (text : String) : Except ParseError Rule :=
  (scanRule text.toList).mapError (·.locate text.toList)

end Eligibility
