import Eligibility.Json.Text

namespace Eligibility

/-- How a well-formed JSON value fails to be the value that is asked for. -/
inductive Mismatch where
  | missingField (name : String)
  | duplicateField (name : String)
  | unknownNodeType (found : String)
  | unknownComparator (found : String)
  | unmatchedLiteral
  | invalidType
  | invalidValue
  | invalidLength
deriving DecidableEq

/-- Why a text does not decode: it is not JSON within the limits of the format, it ends before its
value does, or its value has the wrong shape. -/
inductive DecodingError where
  | malformed
  | truncated
  | mismatch (cause : Mismatch)
deriving DecidableEq

def Flaw.error : Flaw → DecodingError
  | .malformed => .malformed
  | .truncated => .truncated

def Mismatch.detail : Mismatch → String
  | .missingField name => s!"missing field `{name}`"
  | .duplicateField name => s!"duplicate field `{name}`"
  | .unknownNodeType found => s!"unknown variant `{found}`, expected `operator` or `operand`"
  | .unknownComparator found =>
    s!"unknown variant `{found}`, expected one of `AND`, `OR`, `>`, `<`, `=`, `>=`, `<=`"
  | .unmatchedLiteral => "data did not match any variant of untagged enum Literal"
  | .invalidType => "invalid type"
  | .invalidValue => "invalid value"
  | .invalidLength => "invalid length"

/-- A place in a text, as its reader counts lines and columns. -/
structure TextPlace where
  line : Nat
  column : Nat

def TextPlace.suffix : Option TextPlace → String
  | none => ""
  | some place => s!" at line {place.line} column {place.column}"

/-- The text of the error, with the place that the reader had got to. There is none where a value is
decoded that was read before. -/
def Mismatch.message (cause : Mismatch) (place : Option TextPlace) : String :=
  "Deserialization error: " ++ cause.detail ++ TextPlace.suffix place

/-- The outcome of reading a value out of JSON. -/
abbrev Decoded (α : Type) := Except DecodingError α

/-- The error for a value of another type. An array or an object is refused where it begins; a
number beyond the doubles and a string that is no text are no values at all. -/
def Json.unexpected : Json → DecodingError
  | .numeral value => if value.overflows then .malformed else .mismatch .invalidType
  | .text none => .malformed
  | .fault breach => breach.reading.error
  | _ => .mismatch .invalidType

/-- The error for a member without a name: the text breaks off where the name should stand, or the
name is no text. -/
def Json.unnamed : Json → DecodingError
  | .fault breach => breach.reading.error
  | _ => .malformed

def Json.toText : Json → Decoded String
  | .text (some value) => .ok value
  | value => .error value.unexpected

/-- An integer that fits into 64 bits, signed or unsigned. -/
def Json.toInteger (value : Json) : Decoded Int :=
  match value with
  | .numeral n =>
    match n.integer? with
    | some i =>
      if Int64.minValue.toInt ≤ i ∧ i < UInt64.size then .ok i else .error value.unexpected
    | none => .error value.unexpected
  | _ => .error value.unexpected

def Json.toInt64 (value : Json) : Decoded Int64 :=
  match value.toInteger with
  | .error error => .error error
  | .ok i => if i ≤ Int64.maxValue.toInt then .ok (.ofInt i) else .error (.mismatch .invalidValue)

def Json.toUInt64 (value : Json) : Decoded UInt64 :=
  match value.toInteger with
  | .error error => .error error
  | .ok i => if 0 ≤ i then .ok (.ofNat i.toNat) else .error (.mismatch .invalidValue)

def Json.toBinary64 : Json → Decoded Binary64
  | .numeral value =>
    match value.toBinary64? with
    | some number => .ok number
    | none => .error .malformed
  | value => .error value.unexpected

/-- Passes over a value that nothing asks for, whatever its numbers and strings are. -/
def Json.skip (value : Json) : Decoded Unit :=
  match value.breach? with
  | none => .ok ()
  | some breach => .error breach.skipping.error

/-- Fills the slot of a field, which a second member of that name finds taken. -/
def fill {α : Type} (name : String) (slot : Option α) (value : Decoded α) :
    Decoded (Option α) :=
  match slot with
  | some _ => .error (.mismatch (.duplicateField name))
  | none => value.map some

def require {α : Type} (name : String) (slot : Option α) : Decoded α :=
  match slot with
  | some value => .ok value
  | none => .error (.mismatch (.missingField name))

/-- Adds the members of an object to a draft in their order. -/
def addMembers {α : Type} (add : α → String → Json → Decoded α) (draft : α)
    (members : List (Option String × Json)) : Decoded α :=
  members.foldlM (fun draft (name, value) =>
    match name with
    | some name => add draft name value
    | none => .error value.unnamed) draft

/-- Decodes the next element of an array that must have one more. -/
def nextElement {α : Type} (decode : Json → Decoded α) : List Json → Decoded (α × List Json)
  | [] => .error (.mismatch .invalidLength)
  | value :: rest => (decode value).map fun decoded => (decoded, rest)

/-- Requires that an array ends. -/
def endElements (error : DecodingError) : List Json → Decoded Unit
  | [] => .ok ()
  | .fault breach :: _ => .error breach.ending.error
  | _ :: _ => .error error

/-- Decodes the value of a JSON text. What follows the value counts last. -/
def decodeText {α : Type} (decode : Json → Decoded α) (text : String) : Decoded α := do
  let (value, rest) := Json.read text.toList
  let decoded ← decode value
  if rest.isEmpty then return decoded else .error .malformed

end Eligibility
