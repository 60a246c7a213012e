import Eligibility.Binary64.Rounding
import Eligibility.Record.Field

namespace Eligibility

/-- The person or thing whose eligibility is asked for. -/
structure Record where
  age : Int64
  department : String
  salary : Binary64
  experience : Binary64
deriving DecidableEq

def Record.default : Record :=
  ⟨0, "", .zero, .zero⟩

/-- The value of a field as comparisons see it. -/
inductive FieldValue where
  | number (value : Binary64)
  | text (value : String)
deriving DecidableEq

def Record.field (record : Record) : Field → FieldValue
  | .age => .number (.ofInt record.age.toInt)
  | .department => .text record.department
  | .salary => .number record.salary
  | .experience => .number record.experience

/-- The value of the field with the given name, if there is such a field. -/
def Record.get? (record : Record) (name : String) : Option FieldValue :=
  (Field.ofName? name).map record.field

end Eligibility
