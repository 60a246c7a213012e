import Eligibility.Json.Breach
import Eligibility.Json.Numeral

namespace Eligibility

/-- A JSON value. Objects keep their members in the order of the text, repeated names included. A
string or a name is `none` where its escapes leave half of a surrogate pair, so that it is no text.
A fault stands where the text stops being JSON, as the last part of every array and object that is
open there. -/
inductive Json where
  | null
  | bool (value : Bool)
  | numeral (value : Numeral)
  | text (value : Option String)
  | array (elements : List Json)
  | object (members : List (Option String × Json))
  | fault (breach : Breach)

def Json.ofInt (value : Int) : Json :=
  .numeral (.ofInt value)

/-- A double with its shortest digits; JSON has no numbers for infinities and NaN. -/
def Json.ofBinary64 : Binary64 → Json
  | .nan => .null
  | .signed negative magnitude =>
    if magnitude.rank < infinityRank then .numeral (.ofDecimal negative magnitude.shortest)
    else .null

mutual

/-- Where a value was broken off. -/
def Json.breach? : Json → Option Breach
  | .array elements => elementsBreach? elements
  | .object members => membersBreach? members
  | .fault breach => some breach
  | _ => none

def Json.elementsBreach? : List Json → Option Breach
  | [] => none
  | value :: rest => value.breach?.or (elementsBreach? rest)

def Json.membersBreach? : List (Option String × Json) → Option Breach
  | [] => none
  | (_, value) :: rest => value.breach?.or (membersBreach? rest)

end

end Eligibility
