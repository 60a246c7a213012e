import Eligibility.Json.Breach
import Eligibility.Text.Offset

namespace Eligibility

/-- The character that a short escape stands for. -/
def shortEscape? : Char → Option Char
  | '"' => some '"'
  | '\\' => some '\\'
  | '/' => some '/'
  | 'b' => some '\x08'
  | 'f' => some '\x0c'
  | 'n' => some '\n'
  | 'r' => some '\r'
  | 't' => some '\t'
  | _ => none

def hexValue? (c : Char) : Option Nat :=
  if '0' ≤ c ∧ c ≤ '9' then some (c.toNat - '0'.toNat)
  else if 'a' ≤ c ∧ c ≤ 'f' then some (c.toNat - 'a'.toNat + 10)
  else if 'A' ≤ c ∧ c ≤ 'F' then some (c.toNat - 'A'.toNat + 10)
  else none

/-- The UTF-16 code unit that four hexadecimal digits write. -/
def codeUnit? (a b c d : Char) : Option Nat :=
  match hexValue? a, hexValue? b, hexValue? c, hexValue? d with
  | some a, some b, some c, some d => some (((a * 16 + b) * 16 + c) * 16 + d)
  | _, _, _, _ => none

/-- Puts a unit in front of those that were read after it. -/
def pushUnit (unit : Nat) (scanned : Option (List Nat × List Char)) :
    Option (List Nat × List Char) :=
  scanned.map fun (units, rest) => (unit :: units, rest)

/-- Reads a string up to its closing quote, as the code points of its characters and the code units
of its escapes. -/
def scanUnits : List Char → Option (List Nat × List Char)
  | [] => none
  | '"' :: rest => some ([], rest)
  | '\\' :: 'u' :: a :: b :: c :: d :: rest =>
    match codeUnit? a b c d with
    | none => none
    | some unit => pushUnit unit (scanUnits rest)
  | '\\' :: mark :: rest =>
    match shortEscape? mark with
    | none => none
    | some c => pushUnit c.toNat (scanUnits rest)
  | c :: rest => if c.toNat < 0x20 then none else pushUnit c.toNat (scanUnits rest)

theorem pushUnit_eq_some {unit : Nat} {scanned : Option (List Nat × List Char)}
    {units : List Nat} {rest : List Char} (h : pushUnit unit scanned = some (units, rest)) :
    ∃ inner, scanned = some (inner, rest) ∧ units = unit :: inner := by
  obtain ⟨⟨inner, _⟩, hs, he⟩ := Option.map_eq_some_iff.1 h
  cases he
  exact ⟨inner, hs, rfl⟩

theorem scanUnits_shorter {input rest : List Char} {units : List Nat}
    (h : scanUnits input = some (units, rest)) : rest.length < input.length := by
  fun_induction scanUnits input generalizing units with
  | case1 => cases h
  | case2 =>
    cases h
    exact Nat.lt_succ_self _
  | case3 => cases h
  | case4 a b c d after unit hu ih =>
    obtain ⟨inner, hs, -⟩ := pushUnit_eq_some h
    have := ih hs
    simp only [List.length_cons]
    omega
  | case5 => cases h
  | case6 mark after hu c hm ih =>
    obtain ⟨inner, hs, -⟩ := pushUnit_eq_some h
    have := ih hs
    simp only [List.length_cons]
    omega
  | case7 => cases h
  | case8 c after hq hu hm hc ih =>
    obtain ⟨inner, hs, -⟩ := pushUnit_eq_some h
    have := ih hs
    simp only [List.length_cons]
    omega

def isHighSurrogate (unit : Nat) : Bool :=
  0xd800 ≤ unit && unit < 0xdc00

def isLowSurrogate (unit : Nat) : Bool :=
  0xdc00 ≤ unit && unit < 0xe000

/-- The character beyond `U+FFFF` that a pair of surrogates stands for. -/
def joinSurrogates (high low : Nat) : Char :=
  Char.ofNat (0x10000 + (high - 0xd800) * 0x400 + (low - 0xdc00))

/-- The text that units stand for; a surrogate without its other half stands for none. -/
def textOfUnits? : List Nat → Option (List Char)
  | [] => some []
  | unit :: rest =>
    if isHighSurrogate unit then
      match rest with
      | [] => none
      | low :: rest =>
        if isLowSurrogate low then (textOfUnits? rest).map (joinSurrogates unit low :: ·)
        else none
    else if isLowSurrogate unit then none
    else (textOfUnits? rest).map (Char.ofNat unit :: ·)

/-- Reads a string up to its closing quote. Its text is missing where an escape writes half of a
surrogate pair. -/
def scanQuoted (input : List Char) : Option (Option String × List Char) :=
  (scanUnits input).map fun (units, rest) => ((textOfUnits? units).map String.ofList, rest)

theorem scanQuoted_shorter {input rest : List Char} {text : Option String}
    (h : scanQuoted input = some (text, rest)) : rest.length < input.length := by
  obtain ⟨⟨units, _⟩, hs, he⟩ := Option.map_eq_some_iff.1 h
  cases he
  exact scanUnits_shorter hs

/-- The units of a string up to the point where it goes wrong, and the flaw there. The closing quote
is not met before. -/
def unitsToFlaw : List Char → List Nat × Flaw
  | [] | ['\\'] => ([], .truncated)
  | '\\' :: 'u' :: a :: b :: c :: d :: rest =>
    match codeUnit? a b c d with
    | none => ([], .malformed)
    | some unit => (unitsToFlaw rest).map (unit :: ·) id
  | '\\' :: 'u' :: rest => ([], if utf8Length rest < 4 then .truncated else .malformed)
  | '\\' :: mark :: rest =>
    match shortEscape? mark with
    | none => ([], .malformed)
    | some c => (unitsToFlaw rest).map (c.toNat :: ·) id
  | c :: rest =>
    if c.toNat < 0x20 then ([], .malformed) else (unitsToFlaw rest).map (c.toNat :: ·) id

/-- Whether units can begin a text: the last one may still wait for the other half of a surrogate
pair. -/
def beginText (units : List Nat) : Bool :=
  (textOfUnits? units).isSome || (textOfUnits? (units ++ [0xdc00])).isSome

/-- A quote, a backslash and the control characters are written as escapes. -/
def escape (c : Char) : List Char :=
  match c with
  | '"' => ['\\', '"']
  | '\\' => ['\\', '\\']
  | '\x08' => ['\\', 'b']
  | '\x0c' => ['\\', 'f']
  | '\n' => ['\\', 'n']
  | '\r' => ['\\', 'r']
  | '\t' => ['\\', 't']
  | c =>
    if c.toNat < 0x20 then
      ['\\', 'u', '0', '0', Nat.digitChar (c.toNat / 16), Nat.digitChar (c.toNat % 16)]
    else [c]

/-- A string without a text is written as the first of all surrogates. -/
def writeQuoted (text : Option String) : List Char :=
  match text with
  | some text => '"' :: (text.toList.flatMap escape ++ ['"'])
  | none => ['"', '\\', 'u', 'd', '8', '0', '0', '"']

end Eligibility
