import Eligibility.Json.Basic
import Eligibility.Json.Token

namespace Eligibility

/-- An array or an object that is still open, with what it holds so far, the last first; an object
waits for the value of the member named last. -/
inductive Json.Frame where
  | array (elements : List Json)
  | object (members : List (Option String × Json)) (name : Option String)

/-- Ends a frame with its last part. -/
def Json.Frame.close (frame : Json.Frame) (last : Json) : Json :=
  match frame with
  | .array elements => .array (elements.reverse ++ [last])
  | .object members name => .object (members.reverse ++ [(name, last)])

/-- What is wrong with tokens that begin no value where one is expected. -/
def Breach.ofValue : List Token → Breach
  | [] => ⟨.truncated, .truncated, .malformed⟩
  | .fault _ reading skipping :: _ => ⟨reading, skipping, .malformed⟩
  | _ => .of .malformed

/-- What is wrong with tokens that begin no name where one is expected. -/
def Breach.ofName : List Token → Breach
  | [] => .of .truncated
  | .fault true reading skipping :: _ => ⟨reading, skipping, .malformed⟩
  | _ => .of .malformed

/-- What is wrong with tokens where one of the signs between values and names is expected. -/
def Breach.ofSign : List Token → Breach
  | [] => .of .truncated
  | _ => .of .malformed

/-- Ends the reading at a breach, which becomes the last part of the open frames. -/
def Json.breakOff (stack : List Json.Frame) (breach : Breach) : Json × List Token :=
  (stack.foldl (fun last frame => frame.close last) (.fault breach),
    [.fault false .malformed .malformed])

/-- Ends the reading at tokens that begin no value. -/
def Json.breakOffValue (stack : List Json.Frame) (tokens : List Token) : Json × List Token :=
  match stack with
  | .object _ name :: _ => Json.breakOff stack ((Breach.ofValue tokens).behind name)
  | _ => Json.breakOff stack (Breach.ofValue tokens)

mutual

/-- Reads a value at which the innermost open frame waits. -/
def Json.begin (stack : List Json.Frame) : List Token → Json × List Token
  | .openArray :: .closeArray :: rest => Json.complete (.array []) stack rest
  | .openArray :: rest => Json.begin (.array [] :: stack) rest
  | .openObject :: .closeObject :: rest => Json.complete (.object []) stack rest
  | .openObject :: .text name :: .colon :: rest => Json.begin (.object [] name :: stack) rest
  | .openObject :: .text name :: rest =>
    Json.breakOff (.object [] name :: stack) ((Breach.ofSign rest).behind name)
  | .openObject :: rest => Json.breakOff (.object [] none :: stack) (Breach.ofName rest)
  | .null :: rest => Json.complete .null stack rest
  | .bool value :: rest => Json.complete (.bool value) stack rest
  | .numeral value :: rest => Json.complete (.numeral value) stack rest
  | .text value :: rest => Json.complete (.text value) stack rest
  | tokens => Json.breakOffValue stack tokens

/-- Puts a finished value into the innermost open frame and reads on. -/
def Json.complete (value : Json) (stack : List Json.Frame) (tokens : List Token) :
    Json × List Token :=
  match stack, tokens with
  | [], rest => (value, rest)
  | .array elements :: stack, .comma :: rest =>
    Json.begin (.array (value :: elements) :: stack) rest
  | .array elements :: stack, .closeArray :: rest =>
    Json.complete ((Json.Frame.array elements).close value) stack rest
  | .array elements :: stack, tokens =>
    Json.breakOff (.array (value :: elements) :: stack) (Breach.ofSign tokens)
  | .object members last :: stack, .comma :: .text name :: .colon :: rest =>
    Json.begin (.object ((last, value) :: members) name :: stack) rest
  | .object members last :: stack, .comma :: .text name :: rest =>
    Json.breakOff (.object ((last, value) :: members) name :: stack)
      ((Breach.ofSign rest).behind name)
  | .object members last :: stack, .comma :: rest =>
    Json.breakOff (.object ((last, value) :: members) none :: stack) (Breach.ofName rest)
  | .object members last :: stack, .closeObject :: rest =>
    Json.complete ((Json.Frame.object members last).close value) stack rest
  | .object members last :: stack, tokens =>
    Json.breakOff (.object ((last, value) :: members) none :: stack) (Breach.ofSign tokens)

end

/-- Reads the value at the front, and what follows it. -/
def Json.ofTokens (tokens : List Token) : Json × List Token :=
  Json.begin [] tokens

mutual

def Json.tokens : Json → List Token
  | .null => [.null]
  | .bool value => [.bool value]
  | .numeral value => [.numeral value]
  | .text value => [.text value]
  | .fault breach => [.fault false breach.reading breach.skipping]
  | .array [] => [.openArray, .closeArray]
  | .array (value :: rest) => .openArray :: (value.tokens ++ Json.furtherElements rest)
  | .object [] => [.openObject, .closeObject]
  | .object ((name, value) :: rest) =>
    .openObject :: .text name :: .colon :: (value.tokens ++ Json.furtherMembers rest)

def Json.furtherElements : List Json → List Token
  | [] => [.closeArray]
  | value :: rest => .comma :: (value.tokens ++ Json.furtherElements rest)

def Json.furtherMembers : List (Option String × Json) → List Token
  | [] => [.closeObject]
  | (name, value) :: rest =>
    .comma :: .text name :: .colon :: (value.tokens ++ Json.furtherMembers rest)

end

/-- Reads the value at the front of a text, and the tokens that follow it. -/
def Json.read (input : List Char) : Json × List Token :=
  ofTokens (Token.scanAll input)

/-- The compact text of a value. -/
def Json.write (value : Json) : List Char :=
  value.tokens.flatMap Token.write

end Eligibility
