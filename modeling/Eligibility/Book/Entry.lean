import Eligibility.Rule.Codec

namespace Eligibility

/-- A named rule in a book, with the text that it was read from. -/
structure Entry where
  id : UInt64
  name : String
  text : String
  rule : Rule
deriving DecidableEq

structure Entry.Draft where
  id : Option UInt64 := none
  name : Option String := none
  text : Option String := none
  rule : Option Rule := none

/-- Decodes the rule of an entry, which stands one level below the entry itself. -/
def Entry.ruleOfJson (value : Json) : Decoded Rule :=
  Rule.ofJsonWithin (maxNesting - 1) value

def Entry.Draft.add (draft : Draft) (name : String) (value : Json) : Decoded Draft :=
  if name = "id" then do
    return { draft with id := ← fill "id" draft.id value.toUInt64 }
  else if name = "name" then do
    return { draft with name := ← fill "name" draft.name value.toText }
  else if name = "rule_string" then do
    return { draft with text := ← fill "rule_string" draft.text value.toText }
  else if name = "ast" then do
    return { draft with rule := ← fill "ast" draft.rule (ruleOfJson value) }
  else do
    value.skip
    return draft

def Entry.Draft.finish (draft : Draft) : Decoded Entry := do
  let id ← require "id" draft.id
  let name ← require "name" draft.name
  let text ← require "rule_string" draft.text
  let rule ← require "ast" draft.rule
  return ⟨id, name, text, rule⟩

def Entry.ofElements (elements : List Json) : Decoded Entry := do
  let (id, rest) ← nextElement Json.toUInt64 elements
  let (name, rest) ← nextElement Json.toText rest
  let (text, rest) ← nextElement Json.toText rest
  let (rule, rest) ← nextElement ruleOfJson rest
  endElements .malformed rest
  return ⟨id, name, text, rule⟩

def Entry.ofJson : Json → Decoded Entry
  | .object members => do (← addMembers Draft.add {} members).finish
  | .array elements => Entry.ofElements elements
  | value => .error value.unexpected

def Entry.toJson (entry : Entry) : Json :=
  .object [(some "id", .ofInt entry.id.toNat), (some "name", .text (some entry.name)),
    (some "rule_string", .text (some entry.text)), (some "ast", entry.rule.toJson)]

def Entry.decode (text : String) : Decoded Entry :=
  decodeText ofJson text

def Entry.encode (entry : Entry) : String :=
  String.ofList entry.toJson.write

end Eligibility
