import Eligibility.Json.Numeral
import Eligibility.Json.Quoted

namespace Eligibility

/-- The pieces that a JSON text consists of. A fault is the point from which it has none, with the
flaws for reading there and for passing over; it may lie inside a string. -/
inductive Token where
  | openArray
  | closeArray
  | openObject
  | closeObject
  | comma
  | colon
  | null
  | bool (value : Bool)
  | numeral (value : Numeral)
  | text (value : Option String)
  | fault (inText : Bool) (reading skipping : Flaw)
deriving DecidableEq

/-- The white space that may stand between tokens. -/
def isJsonBlank (c : Char) : Bool :=
  c == ' ' || c == '\t' || c == '\n' || c == '\r'

/-- A fault is written as a character that starts no token. -/
def Token.write : Token → List Char
  | .openArray => ['[']
  | .closeArray => [']']
  | .openObject => ['\x7b']
  | .closeObject => ['\x7d']
  | .comma => [',']
  | .colon => [':']
  | .null => ['n', 'u', 'l', 'l']
  | .bool true => ['t', 'r', 'u', 'e']
  | .bool false => ['f', 'a', 'l', 's', 'e']
  | .numeral value => value.write
  | .text value => writeQuoted value
  | .fault _ _ _ => ['?']

/-- Reads one token from the front of a text. -/
def Token.scan (input : List Char) : Option (Token × List Char) :=
  match input with
  | '[' :: rest => some (.openArray, rest)
  | ']' :: rest => some (.closeArray, rest)
  | '\x7b' :: rest => some (.openObject, rest)
  | '\x7d' :: rest => some (.closeObject, rest)
  | ',' :: rest => some (.comma, rest)
  | ':' :: rest => some (.colon, rest)
  | 'n' :: 'u' :: 'l' :: 'l' :: rest => some (.null, rest)
  | 't' :: 'r' :: 'u' :: 'e' :: rest => some (.bool true, rest)
  | 'f' :: 'a' :: 'l' :: 's' :: 'e' :: rest => some (.bool false, rest)
  | '"' :: rest => (scanQuoted rest).map fun (value, rest) => (.text value, rest)
  | _ => (Numeral.scan input).map fun (value, rest) => (.numeral value, rest)

theorem Token.scan_shorter {input rest : List Char} {token : Token}
    (h : scan input = some (token, rest)) : rest.length < input.length := by
  unfold scan at h
  split at h
  case h_10 =>
    obtain ⟨⟨_, _⟩, hs, he⟩ := Option.map_eq_some_iff.1 h
    cases he
    exact Nat.lt_succ_of_lt (scanQuoted_shorter hs)
  case h_11 =>
    obtain ⟨⟨_, _⟩, hs, he⟩ := Option.map_eq_some_iff.1 h
    cases he
    exact Numeral.scan_shorter hs
  all_goals
    cases h
    simp only [List.length_cons]
    omega

/-- The fault at the front of a text that starts with no token. A number is truncated for a reader
if one more digit makes it whole, and never for what passes over it. -/
def Token.broken (input : List Char) : Token :=
  match input with
  | '"' :: rest =>
    let (units, flaw) := unitsToFlaw rest
    .fault true (if beginText units then flaw else .malformed) flaw
  | _ =>
    if (Numeral.scan (input ++ ['0'])).any fun (_, rest) => rest.isEmpty then
      .fault false .truncated .malformed
    else
      let words := [Token.null, .bool true, .bool false].map Token.write
      let flaw : Flaw := if words.any input.isPrefixOf then .truncated else .malformed
      .fault false flaw flaw

/-- Divides a text into tokens as far as it goes. -/
def Token.scanAll (input : List Char) : List Token :=
  match _hi : input.dropWhile isJsonBlank with
  | [] => []
  | c :: rest =>
    match _hs : Token.scan (c :: rest) with
    | none => [Token.broken (c :: rest)]
    | some (token, rest) => token :: scanAll rest
termination_by input.length
decreasing_by
  have hd := (List.dropWhile_sublist isJsonBlank (l := input)).length_le
  rw [_hi] at hd
  exact Nat.lt_of_lt_of_le (scan_shorter _hs) hd

end Eligibility
