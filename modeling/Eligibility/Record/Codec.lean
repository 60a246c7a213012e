import Eligibility.Json.Decoding
import Eligibility.Record.Basic

namespace Eligibility

/-- The fields of a record met so far while its members are read. -/
structure Record.Draft where
  age : Option Int64 := none
  department : Option String := none
  salary : Option Binary64 := none
  experience : Option Binary64 := none

def Record.Draft.add (draft : Draft) (name : String) (value : Json) : Decoded Draft :=
  match Field.ofName? name with
  | some .age => do
    return { draft with age := ← fill "age" draft.age value.toInt64 }
  | some .department => do
    return { draft with department := ← fill "department" draft.department value.toText }
  | some .salary => do
    return { draft with salary := ← fill "salary" draft.salary value.toBinary64 }
  | some .experience => do
    return { draft with experience := ← fill "experience" draft.experience value.toBinary64 }
  | none => do
    value.skip
    return draft

def Record.Draft.finish (draft : Draft) : Decoded Record := do
  let age ← require "age" draft.age
  let department ← require "department" draft.department
  let salary ← require "salary" draft.salary
  let experience ← require "experience" draft.experience
  return ⟨age, department, salary, experience⟩

/-- Reads the fields from an array in the order of their declaration. -/
def Record.ofElements (elements : List Json) : Decoded Record := do
  let (age, rest) ← nextElement Json.toInt64 elements
  let (department, rest) ← nextElement Json.toText rest
  let (salary, rest) ← nextElement Json.toBinary64 rest
  let (experience, rest) ← nextElement Json.toBinary64 rest
  endElements .malformed rest
  return ⟨age, department, salary, experience⟩

def Record.ofJson : Json → Decoded Record
  | .object members => do (← addMembers Draft.add {} members).finish
  | .array elements => Record.ofElements elements
  | value => .error value.unexpected

def Record.toJson (record : Record) : Json :=
  .object [(some "age", .ofInt record.age.toInt),
    (some "department", .text (some record.department)),
    (some "salary", .ofBinary64 record.salary),
    (some "experience", .ofBinary64 record.experience)]

def Record.decode (text : String) : Decoded Record :=
  decodeText ofJson text

def Record.encode (record : Record) : String :=
  String.ofList record.toJson.write

end Eligibility
