import Eligibility.Json.Decoding
import Eligibility.Rule.Basic

namespace Eligibility

def Comparator.ofName (name : String) : Decoded Comparator :=
  match Comparator.ofLexeme? name with
  | some found => .ok found
  | none => .error (.mismatch (.unknownComparator name))

/-- Inside a rule a comparator is its lexeme, or an object with the lexeme as only name and as value
`null` or an empty object. -/
def Comparator.ofJson : Json → Decoded Comparator
  | .text (some name) => ofName name
  | .object [(some name, .null)] | .object [(some name, .object [])] => ofName name
  | .object [(some name, value)] => do
    let _ ← ofName name
    .error value.unexpected
  | .object _ => .error (.mismatch .invalidValue)
  | value => .error value.unexpected

def Comparator.toJson (c : Comparator) : Json :=
  .text (some c.lexeme)

/-- On its own a comparator is its lexeme, or an object with the lexeme as only name and `null` as
value. -/
def Comparator.ofTokens : List Token → Decoded Comparator
  | .text (some name) :: rest => do
    let found ← ofName name
    if rest.isEmpty then return found else .error .malformed
  | .openObject :: .text (some name) :: rest => do
    let found ← ofName name
    match rest with
    | [.colon, .null, .closeObject] => return found
    | .colon :: .null :: rest => .error (Breach.ofSign rest).reading.error
    | .colon :: rest => .error (Json.ofTokens rest).1.unexpected
    | rest => .error (Breach.ofSign rest).reading.error
  | .openObject :: rest => .error (Breach.ofName rest).reading.error
  | tokens => .error (Breach.ofName tokens).reading.error

def Comparator.decode (text : String) : Decoded Comparator :=
  ofTokens (Token.scanAll text.toList)

def Comparator.encode (c : Comparator) : String :=
  String.ofList c.toJson.write

def Literal.ofJson : Json → Decoded Literal
  | .text (some value) => .ok (.text value)
  | .numeral n =>
    match n.integer? with
    | some i =>
      if 0 ≤ i ∧ i < UInt64.size then .ok (.number (.ofNat i.toNat))
      else .error (.mismatch .unmatchedLiteral)
    | none => .error (.mismatch .unmatchedLiteral)
  | _ => .error (.mismatch .unmatchedLiteral)

def Literal.toJson : Literal → Json
  | .number value => .ofInt value.toNat
  | .text value => .text (some value)

/-- The two kinds of node, told apart by the member `type`. -/
inductive NodeKind where
  | operator
  | operand
deriving DecidableEq

def NodeKind.name : NodeKind → String
  | .operator => "operator"
  | .operand => "operand"

def NodeKind.toJson (kind : NodeKind) : Json :=
  .text (some kind.name)

def NodeKind.ofJson (value : Json) : Decoded NodeKind := do
  let found ← value.toText
  if found = "operator" then .ok .operator
  else if found = "operand" then .ok .operand
  else .error (.mismatch (.unknownNodeType found))

def NodeKind.ofPlace (place : Nat) : Decoded NodeKind :=
  match place with
  | 0 => .ok .operator
  | 1 => .ok .operand
  | _ => .error (.mismatch .invalidValue)

/-- A node inside another one may also give its kind by the place among the kinds. -/
def NodeKind.ofInnerJson (value : Json) : Decoded NodeKind :=
  match value with
  | .numeral n =>
    match n.integer? with
    | some i => if 0 ≤ i ∧ i < UInt64.size then ofPlace i.toNat else .error value.unexpected
    | none => .error value.unexpected
  | _ => ofJson value

def NodeKind.fillFrom (slot : Option NodeKind) (name : String) (value : Json) :
    Decoded (Option NodeKind) :=
  if name = "type" then fill "type" slot (ofInnerJson value) else .ok slot

/-- Finds the kind of a node before its other members are looked at. -/
def NodeKind.ofMembers (members : List (Option String × Json)) : Decoded NodeKind := do
  require "type" (← addMembers fillFrom none members)

structure Rule.OperandDraft where
  field : Option String := none
  comparator : Option Comparator := none
  value : Option Literal := none

def Rule.OperandDraft.add (draft : OperandDraft) (name : String) (value : Json) :
    Decoded OperandDraft :=
  if name = "field" then do
    return { draft with field := ← fill "field" draft.field value.toText }
  else if name = "comparator" then do
    return { draft with
      comparator := ← fill "comparator" draft.comparator (Comparator.ofJson value) }
  else if name = "value" then do
    return { draft with value := ← fill "value" draft.value (Literal.ofJson value) }
  else return draft

def Rule.OperandDraft.finish (draft : OperandDraft) : Decoded Rule := do
  let field ← require "field" draft.field
  let comparator ← require "comparator" draft.comparator
  let value ← require "value" draft.value
  return .operand field comparator value

def Rule.operandOfElements (elements : List Json) : Decoded Rule := do
  let (field, rest) ← nextElement Json.toText elements
  let (comparator, rest) ← nextElement Comparator.ofJson rest
  let (value, rest) ← nextElement Literal.ofJson rest
  endElements (.mismatch .invalidLength) rest
  return .operand field comparator value

structure Rule.OperatorDraft where
  operator : Option Comparator := none
  left : Option Rule := none
  right : Option Rule := none

def Rule.OperatorDraft.finish (draft : OperatorDraft) : Decoded Rule := do
  let connective ← require "operator" draft.operator
  let left ← require "left" draft.left
  let right ← require "right" draft.right
  return .operator connective left right

mutual

/-- Decodes a node from an object with its kind and fields as members, or from an array of its kind
and fields in the order of their declaration. -/
def Rule.ofJson : Json → Decoded Rule
  | .object members => do
    match ← NodeKind.ofMembers members with
    | .operand => do (← addMembers OperandDraft.add {} members).finish
    | .operator => do (← Rule.addOperatorMembers {} members).finish
  | .array [] => .error (.mismatch (.missingField "type"))
  | .array (kind :: elements) => do
    match ← NodeKind.ofInnerJson kind with
    | .operand => Rule.operandOfElements elements
    | .operator => Rule.operatorOfElements elements
  | value => .error value.unexpected

def Rule.addOperatorMembers (draft : Rule.OperatorDraft) :
    List (Option String × Json) → Decoded Rule.OperatorDraft
  | [] => .ok draft
  | (none, value) :: _ => .error value.unnamed
  | (some name, value) :: rest => do
    if name = "operator" then
      let operator ← fill "operator" draft.operator (Comparator.ofJson value)
      Rule.addOperatorMembers { draft with operator } rest
    else if name = "left" then
      let left ← fill "left" draft.left (Rule.ofJson value)
      Rule.addOperatorMembers { draft with left } rest
    else if name = "right" then
      let right ← fill "right" draft.right (Rule.ofJson value)
      Rule.addOperatorMembers { draft with right } rest
    else Rule.addOperatorMembers draft rest

def Rule.operatorOfElements : List Json → Decoded Rule
  | connective :: left :: right :: rest => do
    let connective ← Comparator.ofJson connective
    let left ← Rule.ofJson left
    let right ← Rule.ofJson right
    endElements (.mismatch .invalidLength) rest
    return .operator connective left right
  | [connective, left] => do
    let _ ← Comparator.ofJson connective
    let _ ← Rule.ofJson left
    .error (.mismatch .invalidLength)
  | [connective] => do
    let _ ← Comparator.ofJson connective
    .error (.mismatch .invalidLength)
  | [] => .error (.mismatch .invalidLength)

end

def Rule.toJson : Rule → Json
  | .operand field comparator value =>
    .object [(some "type", NodeKind.operand.toJson), (some "field", .text (some field)),
      (some "comparator", comparator.toJson), (some "value", value.toJson)]
  | .operator connective left right =>
    .object [(some "type", NodeKind.operator.toJson), (some "operator", connective.toJson),
      (some "left", left.toJson), (some "right", right.toJson)]

/-- The most arrays and objects that may stand inside one another in the JSON text of a rule. -/
def maxNesting : Nat := 127

mutual

/-- Reads all of a part of a rule, which nests less deep than the rule itself, up to the first thing
that is wrong with it. -/
def Json.checkPart (room : Nat) : Json → Decoded Unit
  | .numeral value => if value.overflows then .error .malformed else .ok ()
  | .text none => .error .malformed
  | .array elements =>
    if room ≤ 1 then .error .malformed else Json.checkElements (room - 1) elements
  | .object members =>
    if room ≤ 1 then .error .malformed else Json.checkMembers (room - 1) members
  | .fault breach => .error breach.reading.error
  | _ => .ok ()

def Json.checkElements (room : Nat) : List Json → Decoded Unit
  | [] => .ok ()
  | value :: rest => do
    value.checkPart room
    Json.checkElements room rest

def Json.checkMembers (room : Nat) : List (Option String × Json) → Decoded Unit
  | [] => .ok ()
  | (none, value) :: _ => .error value.unnamed
  | (some _, value) :: rest => do
    value.checkPart room
    Json.checkMembers room rest

end

def NodeKind.checkMember (room : Nat) (slot : Option NodeKind) (name : String) (value : Json) :
    Decoded (Option NodeKind) :=
  if name = "type" then fill "type" slot (ofJson value)
  else do
    value.checkPart room
    return slot

/-- Reads the parts of a rule in their order. Of their contents only the kind counts yet. -/
def Rule.checkParts (room : Nat) : Json → Decoded Unit
  | .object members => discard (addMembers (NodeKind.checkMember room) none members)
  | .array (kind :: elements) => do
    let _ ← NodeKind.ofJson kind
    Json.checkElements room elements
  | _ => .ok ()

/-- Decodes a rule whose value may nest that deep. All of it is read before it is decoded. -/
def Rule.ofJsonWithin (room : Nat) (value : Json) : Decoded Rule := do
  checkParts room value
  ofJson value

def Rule.decode (text : String) : Decoded Rule :=
  decodeText (ofJsonWithin maxNesting) text

def Rule.encode (rule : Rule) : String :=
  String.ofList rule.toJson.write

end Eligibility
