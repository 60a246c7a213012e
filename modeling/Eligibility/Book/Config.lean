import Eligibility.Json.Decoding

namespace Eligibility

/-- A named rule as text, before it is read. -/
structure Definition where
  name : String
  text : String
deriving DecidableEq

structure Definition.Draft where
  name : Option String := none
  text : Option String := none

/-- Two spellings of one field name the text of a definition. -/
def Definition.Draft.add (draft : Draft) (name : String) (value : Json) : Decoded Draft :=
  if name = "name" then do
    return { draft with name := ← fill "name" draft.name value.toText }
  else if name = "rule_string" ∨ name = "ruleString" then do
    return { draft with text := ← fill "rule_string" draft.text value.toText }
  else do
    value.skip
    return draft

def Definition.Draft.finish (draft : Draft) : Decoded Definition := do
  let name ← require "name" draft.name
  let text ← require "rule_string" draft.text
  return ⟨name, text⟩

def Definition.ofElements (elements : List Json) : Decoded Definition := do
  let (name, rest) ← nextElement Json.toText elements
  let (text, rest) ← nextElement Json.toText rest
  endElements .malformed rest
  return ⟨name, text⟩

def Definition.ofJson : Json → Decoded Definition
  | .object members => do (← addMembers Draft.add {} members).finish
  | .array elements => Definition.ofElements elements
  | value => .error value.unexpected

/-- The definitions that a book starts with. -/
structure Config where
  definitions : List Definition
deriving DecidableEq

def Config.default : Config where
  definitions := [
    ⟨"Senior Sales Rule",
      "((age > 30 AND department = 'Sales') OR (age < 25 AND department = 'Marketing'))" ++
        " AND (salary > 50000 OR experience > 5)"⟩,
    ⟨"Marketing Rule",
      "((age > 30 AND department = 'Marketing')) AND (salary > 20000 OR experience > 5)"⟩]

def Config.definitionsOfJson : Json → Decoded (List Definition)
  | .array elements => elements.mapM Definition.ofJson
  | value => .error value.unexpected

def Config.fillFrom (slot : Option (List Definition)) (name : String) (value : Json) :
    Decoded (Option (List Definition)) :=
  if name = "rules" then fill "rules" slot (definitionsOfJson value)
  else do
    value.skip
    return slot

/-- A config is an object with a list of definitions, or an array of that list alone; without one
it is empty. -/
def Config.ofJson : Json → Decoded Config
  | .object members => do
    let slot ← addMembers fillFrom none members
    return ⟨slot.getD []⟩
  | .array [] => .ok ⟨[]⟩
  | .array (value :: rest) => do
    let definitions ← definitionsOfJson value
    endElements .malformed rest
    return ⟨definitions⟩
  | value => .error value.unexpected

def Config.decode (text : String) : Decoded Config :=
  decodeText ofJson text

end Eligibility
