namespace Eligibility

/-- What is wrong with a rule text. -/
inductive ParseError.Reason where
  | missingTerm
  | missingParenthesis
  | missingName (found : Option Char)
  | missingComparator (field : String)
  | missingValue (found : Option Char)
  | negativeNumber
  | fractionalNumber
  | numberOutOfRange (digits : String)
  | unterminatedText
  | nestedTooDeeply
  | trailing (found : Char)
deriving DecidableEq

/-- A fault of a rule text and the byte at which it was found. -/
structure ParseError where
  position : Nat
  reason : ParseError.Reason
deriving DecidableEq

def ParseError.describeFound : Option Char → String
  | some c => s!"'{c}'"
  | none => "end of input"

def ParseError.Reason.message : ParseError.Reason → String
  | .missingTerm => "unexpected end of input, expected a comparison or '('"
  | .missingParenthesis => "expected ')'"
  | .missingName found => "expected identifier, found " ++ describeFound found
  | .missingComparator field => s!"expected comparator after '{field}'"
  | .missingValue found => "expected value, found " ++ describeFound found
  | .negativeNumber => "negative numeric literals are not supported"
  | .fractionalNumber => "fractional numeric literals are not supported"
  | .numberOutOfRange digits => "numeric literal out of range: " ++ digits
  | .unterminatedText => "unterminated string literal"
  | .nestedTooDeeply => "rule nested too deeply"
  | .trailing found => s!"unexpected '{found}' after expression"

def ParseError.message (error : ParseError) : String :=
  s!"parse error at position {error.position}: {error.reason.message}"

end Eligibility
