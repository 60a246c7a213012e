import Eligibility.Proofs.Recognition

namespace Eligibility
set_option autoImplicit true

/-- The lexemes with the comparators that they stand for, in the order in which they are tried. -/
def Comparator.lexemes : List (String × Comparator) :=
  [("AND", .and), ("OR", .or), (">", .greater), ("<", .less), ("=", .equal),
    (">=", .greaterEqual), ("<=", .lessEqual)]

def Comparator.entry (c : Comparator) : String × Comparator :=
  (c.lexeme, c)

theorem Comparator.lexemes_eq : lexemes = all.map entry :=
  rfl

/-- The routines of a descent through a rule text. -/
inductive Routine where
  | expression
  | term
  | comparison
  | name
  | comparator
  | literal
  | quoted
  | number
deriving DecidableEq

/-- Where a descent stands: at a byte of the text, inside of open parentheses, in calls that have
not come back yet, the last of them first. -/
structure Moment where
  position : Nat
  nesting : Nat
  calls : List Routine

def Moment.moveTo (position : Nat) (moment : Moment) : Moment :=
  { moment with position }

def Moment.enter (routine : Routine) (moment : Moment) : Moment :=
  { moment with calls := routine :: moment.calls }

def Moment.leave (moment : Moment) : Moment :=
  { moment with calls := moment.calls.tail }

def Moment.openParenthesis (moment : Moment) : Moment :=
  { moment with nesting := moment.nesting + 1 }

def Moment.closeParenthesis (moment : Moment) : Moment :=
  { moment with nesting := moment.nesting - 1 }

/-- A call that has come back with a subtree, and where it began and ended. -/
structure Return where
  entry : Moment
  exit : Moment
  subtree : Subtree

/-- The state of a descent: where it stands, where it stood before, the latest first, and the calls
of an expression or a term that have come back. -/
structure Cursor where
  now : Moment
  past : List Moment
  returns : List Return

def Cursor.start : Cursor :=
  ⟨⟨0, 0, []⟩, [], []⟩

def Cursor.moments (cursor : Cursor) : List Moment :=
  cursor.now :: cursor.past

def Cursor.change (move : Moment → Moment) (cursor : Cursor) : Cursor :=
  { cursor with now := move cursor.now, past := cursor.moments }

def Cursor.record (back : Return) (cursor : Cursor) : Cursor :=
  { cursor with returns := back :: cursor.returns }

/-- What ends a descent: a fault of the text, or a crash, where a slice of the text would cut a
character or go beyond the end, or a count would fall below zero. -/
inductive Halt where
  | fault (error : ParseError)
  | crash

/-- A step of a descent, without an outcome if it does not end. What it has done to the cursor stays
done when it halts. -/
abbrev Descent :=
  ExceptT Halt (StateT Cursor Option)

def Descent.endless : Descent α :=
  ExceptT.mk fun _ => none

/-- A loop that has gone on for that many rounds is taken for endless, and so are that many calls of
a term inside of one another. -/
def roundLimit (text : String) : Nat :=
  text.utf8ByteSize + maxDepth + 1

/-- The text from a byte on. -/
def sliceFrom? (text : String) (start : Nat) : Option (List Char) :=
  if h : String.Pos.Raw.IsValid text ⟨start⟩ then
    some (text.sliceFrom (text.pos ⟨start⟩ h)).copy.toList
  else none

/-- The text between two bytes. -/
def slice? (text : String) (start stop : Nat) : Option (List Char) :=
  if h : String.Pos.Raw.IsValid text ⟨start⟩ ∧ String.Pos.Raw.IsValid text ⟨stop⟩ ∧
      start ≤ stop then
    some (text.extract (text.pos ⟨start⟩ h.1) (text.pos ⟨stop⟩ h.2.1)).toList
  else none

/-- The byte at which a character stands for the first time. -/
def findByte? (c : Char) : List Char → Option Nat
  | [] => none
  | d :: rest => if d = c then some 0 else (findByte? c rest).map (d.utf8Size + ·)

/-- The candidate with the longest lexeme that the text starts with, of equals the first. -/
def longestCandidate? (candidates : List (String × Comparator)) (input : List Char) :
    Option (String × Comparator) :=
  candidates.foldl (fun best candidate =>
    if candidate.1.toList.isPrefixOf input &&
      best.all (·.1.utf8ByteSize < candidate.1.utf8ByteSize)
    then some candidate else best) none

def Descent.now : Descent Moment :=
  return (← get).now

def Descent.change (move : Moment → Moment) : Descent Unit :=
  modify (Cursor.change move)

/-- Runs a routine as a call. A call that halts does not come back. -/
def Descent.call (routine : Routine) (body : Descent α) : Descent α := do
  change (.enter routine)
  let answer ← body
  change .leave
  return answer

/-- Runs a routine that reads a subtree. -/
def Descent.callSubtree (routine : Routine) (body : Descent Subtree) : Descent Subtree := do
  let entry ← now
  let subtree ← call routine body
  let exit ← now
  modify (Cursor.record ⟨entry, exit, subtree⟩)
  return subtree

def Descent.closeParenthesis : Descent Unit := do
  if (← now).nesting = 0 then throw .crash
  else change .closeParenthesis

/-- Halts with a fault at the byte where the descent stands. -/
def Descent.fail (reason : ParseError.Reason) : Descent α := do
  throw (.fault ⟨(← now).position, reason⟩)

def Descent.ofSlice (slice : Option (List Char)) : Descent (List Char) :=
  match slice with
  | some chars => return chars
  | none => throw .crash

def Descent.rest (text : String) : Descent (List Char) := do
  ofSlice (sliceFrom? text (← now).position)

def Descent.peek (text : String) : Descent (Option Char) :=
  return (← rest text).head?

def Descent.bump (text : String) : Descent Unit := do
  match ← peek text with
  | some c => change (.moveTo ((← now).position + c.utf8Size))
  | none => return

def Descent.skipWhileWithin (text : String) (p : Char → Bool) : Nat → Descent Unit
  | 0 => endless
  | rounds + 1 => do
    match ← peek text with
    | some c =>
      if p c then do
        bump text
        skipWhileWithin text p rounds
      else return
    | none => return

def Descent.skipWhile (text : String) (p : Char → Bool) : Descent Unit :=
  skipWhileWithin text p (roundLimit text)

def Descent.name (text : String) : Descent (List Char) := call .name do
  skipWhile text isBlank
  let start := (← now).position
  skipWhile text isNameChar
  let stop := (← now).position
  if stop = start then fail (.missingName (← peek text))
  else ofSlice (slice? text start stop)

def Descent.comparator (candidates : List (String × Comparator)) (text : String) :
    Descent (Option Comparator) := call .comparator do
  skipWhile text isBlank
  match longestCandidate? candidates (← rest text) with
  | none => return none
  | some (lexeme, comparator) => do
    change (.moveTo ((← now).position + lexeme.utf8ByteSize))
    return some comparator

def Descent.quoted (text : String) : Descent Literal := call .quoted do
  let quote := (← now).position
  bump text
  let start := (← now).position
  match findByte? '\'' (← rest text) with
  | some length => do
    change (.moveTo (start + length + 1))
    let quoted ← ofSlice (slice? text start (start + length))
    return .text (String.ofList quoted)
  | none => throw (.fault ⟨quote, .unterminatedText⟩)

def Descent.number (text : String) : Descent Literal := call .number do
  let start := (← now).position
  skipWhile text Char.isDigit
  if (← peek text) = some '.' then fail .fractionalNumber
  else do
    let digits ← ofSlice (slice? text start (← now).position)
    if digitsValue digits < UInt64.size then return .number (.ofNat (digitsValue digits))
    else throw (.fault ⟨start, .numberOutOfRange (String.ofList digits)⟩)

def Descent.literal (text : String) : Descent Literal := call .literal do
  skipWhile text isBlank
  match ← peek text with
  | none => fail (.missingValue none)
  | some c =>
    if c = '\'' then quoted text
    else if c.isDigit then number text
    else if c = '-' then fail .negativeNumber
    else fail (.missingValue (some c))

def Descent.comparison (text : String) : Descent Rule := call .comparison do
  let name ← name text
  match ← comparator Comparator.lexemes text with
  | none => fail (.missingComparator (String.ofList name))
  | some comparator => do
    let value ← literal text
    return .operand (String.ofList name) comparator value

def Descent.chain (text : String) (term : Descent Subtree) : Nat → Subtree → Descent Subtree
  | 0, _ => endless
  | rounds + 1, left => do
    match ← comparator Comparator.lexemes text with
    | none => return left
    | some connective => do
      let right ← term
      if max left.depth right.depth + 1 > maxDepth then fail .nestedTooDeeply
      else
        chain text term rounds
          ⟨.operator connective left.rule right.rule, max left.depth right.depth + 1⟩

def Descent.expression (text : String) (term : Descent Subtree) : Descent Subtree :=
  callSubtree .expression do
    let left ← term
    chain text term (roundLimit text) left

/-- Reads an expression with the parentheses around it. -/
def Descent.enclosed (text : String) (term : Descent Subtree) : Descent Subtree := do
  bump text
  change .openParenthesis
  let subtree ← expression text term
  closeParenthesis
  skipWhile text isBlank
  if (← peek text) = some ')' then do
    bump text
    return subtree
  else fail .missingParenthesis

def Descent.termWithin (text : String) : Nat → Descent Subtree
  | 0 => endless
  | rounds + 1 => callSubtree .term do
    skipWhile text isBlank
    match ← peek text with
    | none => fail .missingTerm
    | some c =>
      if c = '(' then do
        if (← now).nesting = maxDepth then fail .nestedTooDeeply
        else enclosed text (termWithin text rounds)
      else do
        let rule ← comparison text
        return ⟨rule, 1⟩

def Descent.term (text : String) : Descent Subtree :=
  termWithin text (roundLimit text)

/-- Descends through the whole text. -/
def Descent.wholeRule (text : String) : Descent Rule := do
  let subtree ← expression text (term text)
  skipWhile text isBlank
  match ← peek text with
  | some c => fail (.trailing c)
  | none => return subtree.rule

end Eligibility
