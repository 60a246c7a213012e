import Eligibility.Proofs.Cursor

namespace Eligibility
set_option autoImplicit true

/-- The cursor stands in front of the rest of the text. -/
def Cursor.Faces (text : String) (rest : List Char) (cursor : Cursor) : Prop :=
  ∃ before, text.toList = before ++ rest ∧ cursor.now.position = utf8Length before

/-- The byte is the beginning of a character or the end of the text, and neither parentheses nor
calls of an expression are too deep. -/
structure Moment.IsLegal (text : String) (moment : Moment) : Prop where
  position : String.Pos.Raw.IsValid text ⟨moment.position⟩
  nesting : moment.nesting ≤ maxDepth
  calls : moment.calls.count .expression ≤ maxDepth + 1

/-- The call has read something, has closed the parentheses that it has opened and has counted the
levels of its subtree rightly. -/
structure Return.IsRight (back : Return) : Prop where
  advances : back.entry.position < back.exit.position
  nesting : back.exit.nesting = back.entry.nesting
  depth : back.subtree.depth = back.subtree.rule.depth
  one_le : 1 ≤ back.subtree.depth
  le_maxDepth : back.subtree.depth ≤ maxDepth

/-- Whatever the descent has done up to here was right. -/
structure Cursor.IsSound (text : String) (cursor : Cursor) : Prop where
  legal : ∀ moment ∈ cursor.moments, moment.IsLegal text
  ordered : cursor.moments.Pairwise fun later earlier => earlier.position ≤ later.position
  returns : ∀ back ∈ cursor.returns, back.IsRight

/-- A sound descent stands in front of the rest of the text. -/
structure Cursor.IsAt (text : String) (rest : List Char) (cursor : Cursor) : Prop where
  faces : cursor.Faces text rest
  sound : cursor.IsSound text

/-- A sound descent has come from one cursor to another in front of the rest of the text, in the
same call and inside of the same parentheses, and has forgotten nothing on its way. -/
structure Cursor.Reaches (text : String) (rest : List Char) (earlier later : Cursor) : Prop
    extends later.IsAt text rest where
  nesting : later.now.nesting = earlier.now.nesting
  calls : later.now.calls = earlier.now.calls
  returns : earlier.returns <:+ later.returns

/-- A step of a descent does what a scanner does, and at its end the descent is sound. -/
inductive Follows (text : String) (cursor : Cursor) :
    Except Fault (α × List Char) → Option (Except Halt α × Cursor) → Prop
  | ok (h : cursor.Reaches text rest later) :
    Follows text cursor (.ok (a, rest)) (some (.ok a, later))
  | error (h : later.IsSound text) :
    Follows text cursor (.error fault)
      (some (.error (.fault (fault.locate text.toList)), later))

variable {text : String} {before rest run : List Char} {cursor earlier later : Cursor} {c : Char}
variable {x : Descent α} {f : α → Descent β}

theorem rawEndPos_ofList (chars : List Char) :
    (String.ofList chars).rawEndPos = ⟨utf8Length chars⟩ := by
  rw [utf8Length_eq_utf8ByteSize]
  rfl

theorem eq_append_of_toList (h : text.toList = before ++ rest) :
    text = String.ofList before ++ String.ofList rest := by
  rw [← String.ofList_append, ← h, String.ofList_toList]

theorem isValid_of_append (h : text.toList = before ++ rest) :
    String.Pos.Raw.IsValid text ⟨utf8Length before⟩ := by
  rw [eq_append_of_toList h, ← rawEndPos_ofList]
  exact String.Pos.Raw.isValid_rawEndPos.append_right _

theorem splits_of_append (h : text.toList = before ++ rest) :
    (text.pos ⟨utf8Length before⟩ (isValid_of_append h)).Splits
      (String.ofList before) (String.ofList rest) where
  eq_append := eq_append_of_toList h
  offset_eq_rawEndPos := by rw [String.offset_pos, rawEndPos_ofList]

theorem sliceFrom?_of_append (h : text.toList = before ++ rest) :
    sliceFrom? text (utf8Length before) = some rest := by
  rw [sliceFrom?, dif_pos (isValid_of_append h), (splits_of_append h).copy_sliceFrom_eq,
    String.toList_ofList]

theorem extract_append (left mid right : String) (start stop : (left ++ (mid ++ right)).Pos)
    (hstart : start.offset = left.rawEndPos) (hstop : stop.offset = left.rawEndPos + mid) :
    (left ++ (mid ++ right)).extract start stop = mid := by
  have hbytes : (left ++ (mid ++ right)).toByteArray.extract left.toByteArray.size
      (left.toByteArray.size + mid.toByteArray.size) = mid.toByteArray := by
    rw [String.toByteArray_append, String.toByteArray_append]
    have hi := ByteArray.extract_append_size_add (a := left.toByteArray)
      (b := mid.toByteArray ++ right.toByteArray) (i := 0) (j := mid.toByteArray.size)
    rw [Nat.add_zero] at hi
    rw [hi, ByteArray.extract_append_eq_left rfl]
  rw [← String.toByteArray_inj, String.toByteArray_extract, hstart, hstop]
  exact hbytes

theorem slice?_of_append (h : text.toList = before ++ (run ++ rest)) :
    slice? text (utf8Length before) (utf8Length before + utf8Length run) = some run := by
  have ht := eq_append_of_toList h
  have hstart := isValid_of_append h
  have hstop : String.Pos.Raw.IsValid text ⟨utf8Length before + utf8Length run⟩ := by
    rw [← List.append_assoc] at h
    rw [← utf8Length_append]
    exact isValid_of_append h
  rw [slice?, dif_pos ⟨hstart, hstop, Nat.le_add_right _ _⟩]
  rw [String.ofList_append] at ht
  subst ht
  rw [extract_append, String.toList_ofList]
  · rw [String.offset_pos, rawEndPos_ofList]
  · rw [String.offset_pos, rawEndPos_ofList, utf8Length_eq_utf8ByteSize run]
    rfl

theorem findByte?_of_notMem (h : c ∉ run) (rest : List Char) :
    findByte? c (run ++ c :: rest) = some (utf8Length run) := by
  induction run with
  | nil => exact if_pos rfl
  | cons d run ih =>
    rw [List.cons_append, findByte?, if_neg (List.ne_of_not_mem_cons h).symm,
      ih (List.not_mem_of_not_mem_cons h)]
    rfl

theorem findByte?_eq_none (h : c ∉ rest) : findByte? c rest = none := by
  induction rest with
  | nil => rfl
  | cons d rest ih =>
    rw [findByte?, if_neg (List.ne_of_not_mem_cons h).symm, ih (List.not_mem_of_not_mem_cons h)]
    rfl

theorem Descent.bind_eq (x : Descent α) (f : α → Descent β) (cursor : Cursor) :
    (x >>= f) cursor = (x cursor).bind fun
      | (.ok a, later) => f a later
      | (.error halt, later) => some (.error halt, later) := by
  simp only [bind, ExceptT.bind, ExceptT.mk, StateT.bind]
  congr
  funext ⟨result, later⟩
  cases result <;> rfl

theorem Descent.bind_of_ok (h : x cursor = some (.ok a, later)) : (x >>= f) cursor = f a later := by
  rw [bind_eq, h, Option.bind_some]

theorem Descent.bind_of_error (h : x cursor = some (.error halt, later)) :
    (x >>= f) cursor = some (.error halt, later) := by
  rw [bind_eq, h, Option.bind_some]

theorem Cursor.Faces.position_add (h : cursor.Faces text rest) :
    cursor.now.position + utf8Length rest = utf8Length text.toList := by
  obtain ⟨before, ht, hp⟩ := h
  rw [ht, hp, utf8Length_append]

theorem Cursor.Faces.position_run (h : earlier.Faces text (run ++ rest))
    (h' : later.Faces text rest) :
    later.now.position = earlier.now.position + utf8Length run := by
  have hp := h.position_add
  have hp' := h'.position_add
  rw [utf8Length_append] at hp
  omega

theorem Cursor.Faces.slice?_run (h : earlier.Faces text (run ++ rest))
    (h' : later.Faces text rest) :
    slice? text earlier.now.position later.now.position = some run := by
  rw [h.position_run h']
  obtain ⟨before, ht, hp⟩ := h
  rw [hp, slice?_of_append ht]

theorem Cursor.Faces.isValid (h : cursor.Faces text rest) :
    String.Pos.Raw.IsValid text ⟨cursor.now.position⟩ := by
  obtain ⟨before, ht, hp⟩ := h
  rw [hp]
  exact isValid_of_append ht

theorem Cursor.IsSound.isLegal (h : cursor.IsSound text) : cursor.now.IsLegal text :=
  h.legal _ List.mem_cons_self

/-- A descent can begin anywhere in the text. -/
theorem Cursor.isAt_of_append (h : text.toList = before ++ rest) :
    Cursor.IsAt text rest ⟨⟨utf8Length before, 0, []⟩, [], []⟩ := by
  have hlegal : Moment.IsLegal text ⟨utf8Length before, 0, []⟩ :=
    ⟨isValid_of_append h, Nat.zero_le _, Nat.zero_le _⟩
  exact ⟨⟨before, h, rfl⟩, List.forall_mem_singleton.2 hlegal, List.pairwise_singleton _ _,
    List.forall_mem_nil _⟩

/-- A sound descent stays sound if its next moment is legal and not before the last. -/
theorem Cursor.IsSound.change {move : Moment → Moment} (h : cursor.IsSound text)
    (hl : (move cursor.now).IsLegal text)
    (hp : cursor.now.position ≤ (move cursor.now).position) :
    (cursor.change move).IsSound text where
  legal := List.forall_mem_cons.2 ⟨hl, h.legal⟩
  ordered := by
    refine List.pairwise_cons.2 ⟨List.forall_mem_cons.2 ⟨hp, fun earlier hm => ?_⟩, h.ordered⟩
    exact Nat.le_trans ((List.pairwise_cons.1 h.ordered).1 earlier hm) hp
  returns := h.returns

theorem Cursor.IsSound.record (h : cursor.IsSound text) (hb : back.IsRight) :
    (cursor.record back).IsSound text where
  legal := h.legal
  ordered := h.ordered
  returns := List.forall_mem_cons.2 ⟨hb, h.returns⟩

theorem Cursor.IsAt.refl (h : cursor.IsAt text rest) : cursor.Reaches text rest cursor :=
  ⟨h, rfl, rfl, List.suffix_refl _⟩

theorem Cursor.Reaches.trans (h : earlier.Reaches text rest cursor)
    (h' : cursor.Reaches text after later) : earlier.Reaches text after later :=
  ⟨h'.toIsAt, h'.nesting.trans h.nesting, h'.calls.trans h.calls, h.returns.trans h'.returns⟩

theorem Cursor.Reaches.moveTo (h : earlier.Reaches text (run ++ rest) cursor)
    (hp : position = cursor.now.position + utf8Length run) :
    earlier.Reaches text rest (cursor.change (.moveTo position)) := by
  have hfaces : (cursor.change (.moveTo position)).Faces text rest := by
    obtain ⟨before, ht, hb⟩ := h.faces
    refine ⟨before ++ run, by rw [ht, List.append_assoc], ?_⟩
    rw [utf8Length_append, ← hb]
    exact hp
  have hnow := h.sound.isLegal
  refine ⟨⟨hfaces, h.sound.change ⟨hfaces.isValid, hnow.nesting, hnow.calls⟩ ?_⟩,
    h.nesting, h.calls, h.returns⟩
  exact hp ▸ Nat.le_add_right _ _

theorem Cursor.IsAt.enter (h : cursor.IsAt text rest)
    (hc : (routine :: cursor.now.calls).count .expression ≤ maxDepth + 1) :
    (cursor.change (.enter routine)).IsAt text rest :=
  ⟨h.faces, h.sound.change ⟨h.faces.isValid, h.sound.isLegal.nesting, hc⟩ (Nat.le_refl _)⟩

theorem Cursor.IsAt.enterOther (h : cursor.IsAt text rest) (routine : Routine)
    (hr : routine ≠ .expression) :
    (cursor.change (.enter routine)).IsAt text rest := by
  apply h.enter
  rw [List.count_cons_of_ne hr]
  exact h.sound.isLegal.calls

theorem Cursor.Reaches.leave (h : (cursor.change (.enter routine)).Reaches text rest later) :
    cursor.Reaches text rest (later.change .leave) := by
  have hcalls : (Moment.leave later.now).calls = cursor.now.calls := congrArg List.tail h.calls
  have hcount := (List.tail_sublist later.now.calls).count_le .expression
  have hnow := h.sound.isLegal
  refine ⟨⟨h.faces, h.sound.change ⟨h.faces.isValid, hnow.nesting, ?_⟩ (Nat.le_refl _)⟩,
    h.nesting, hcalls, h.returns⟩
  exact Nat.le_trans hcount hnow.calls

theorem Descent.now_eq (cursor : Cursor) : now cursor = some (.ok cursor.now, cursor) :=
  rfl

theorem Descent.change_eq (move : Moment → Moment) (cursor : Cursor) :
    change move cursor = some (.ok (), cursor.change move) :=
  rfl

/-- A fault may lie behind where the descent stands by now. -/
theorem Descent.throw_follows (h : earlier.Faces text rest) (hs : later.IsSound text)
    (reason : ParseError.Reason) :
    Follows text cursor (.error ⟨reason, rest⟩)
      ((throw (.fault ⟨earlier.now.position, reason⟩) : Descent α) later) := by
  have hp : earlier.now.position = utf8Length text.toList - utf8Length rest := by
    rw [← h.position_add, Nat.add_sub_cancel]
  have hlocate : ParseError.mk (utf8Length text.toList - utf8Length rest) reason =
      (Fault.mk reason rest).locate text.toList := rfl
  rw [hp, hlocate]
  exact .error hs

theorem Descent.fail_follows (h : earlier.Reaches text rest cursor) (reason : ParseError.Reason) :
    Follows (α := α) text earlier (.error ⟨reason, rest⟩) (fail reason cursor) := by
  rw [fail, bind_of_ok (now_eq cursor)]
  exact throw_follows h.faces h.sound reason

theorem Descent.rest_eq (h : cursor.Faces text rest) :
    Descent.rest text cursor = some (.ok rest, cursor) := by
  obtain ⟨before, ht, hp⟩ := h
  rw [Descent.rest, bind_of_ok (now_eq cursor), hp, sliceFrom?_of_append ht]
  rfl

theorem Descent.peek_eq (h : cursor.Faces text rest) :
    peek text cursor = some (.ok rest.head?, cursor) := by
  rw [peek, bind_of_ok (rest_eq h)]
  rfl

theorem Descent.bump_reaches (h : earlier.Reaches text (c :: rest) cursor) :
    ∃ later, bump text cursor = some (.ok (), later) ∧ earlier.Reaches text rest later := by
  rw [← List.singleton_append] at h
  refine ⟨_, ?_, h.moveTo rfl⟩
  rw [bump, bind_of_ok (peek_eq h.faces)]
  rfl

/-- Every round reads a character. -/
theorem Descent.skipWhileWithin_reaches (h : earlier.Reaches text rest cursor) (p : Char → Bool)
    (hr : rest.length < rounds) :
    ∃ later, skipWhileWithin text p rounds cursor = some (.ok (), later) ∧
      earlier.Reaches text (rest.dropWhile p) later := by
  induction rest generalizing cursor rounds with
  | nil =>
    obtain ⟨rounds, rfl⟩ := Nat.exists_eq_add_one.2 hr
    refine ⟨cursor, ?_, h⟩
    rw [skipWhileWithin, bind_of_ok (peek_eq h.faces)]
    rfl
  | cons c rest ih =>
    obtain ⟨rounds, rfl⟩ := Nat.exists_eq_add_one.2 (Nat.zero_lt_of_lt hr)
    rw [skipWhileWithin, bind_of_ok (peek_eq h.faces)]
    by_cases hc : p c = true
    · obtain ⟨next, hn, h⟩ := bump_reaches h
      obtain ⟨later, hl, h⟩ := ih h (Nat.lt_of_succ_lt_succ hr)
      rw [List.dropWhile_cons_of_pos hc]
      refine ⟨later, ?_, h⟩
      simp only [List.head?_cons, if_pos hc]
      rw [bind_of_ok hn, hl]
    · rw [List.dropWhile_cons_of_neg hc]
      refine ⟨cursor, ?_, h⟩
      simp only [List.head?_cons, if_neg hc]
      rfl

theorem Descent.skipWhile_reaches (h : earlier.Reaches text rest cursor) (p : Char → Bool) :
    ∃ later, skipWhile text p cursor = some (.ok (), later) ∧
      earlier.Reaches text (rest.dropWhile p) later := by
  apply skipWhileWithin_reaches h
  have hlength := length_le_utf8Length rest
  have hposition := h.faces.position_add
  rw [utf8Length_eq_utf8ByteSize text.toList, String.ofList_toList] at hposition
  rw [roundLimit]
  omega

theorem Descent.skipBlanks_reaches (h : earlier.Reaches text rest cursor) :
    ∃ later, skipWhile text isBlank cursor = some (.ok (), later) ∧
      earlier.Reaches text (skipBlanks rest) later :=
  skipWhile_reaches h isBlank

/-- The bytes that a run of characters has moved the cursor by are those of the run. -/
theorem Descent.skipWhile_run (h : earlier.Reaches text rest cursor) (p : Char → Bool) :
    ∃ later, skipWhile text p cursor = some (.ok (), later) ∧
      earlier.Reaches text (rest.dropWhile p) later ∧
      later.now.position = cursor.now.position + utf8Length (rest.takeWhile p) ∧
      slice? text cursor.now.position later.now.position = some (rest.takeWhile p) := by
  obtain ⟨later, hl, h'⟩ := skipWhile_reaches h p
  have hfaces : cursor.Faces text (rest.takeWhile p ++ rest.dropWhile p) := by
    rw [List.takeWhile_append_dropWhile]
    exact h.faces
  exact ⟨later, hl, h', hfaces.position_run h'.faces, hfaces.slice?_run h'.faces⟩

theorem Follows.call {body : Descent α}
    (h : Follows text (cursor.change (.enter routine)) scan
      (body (cursor.change (.enter routine)))) :
    Follows text cursor scan (Descent.call routine body cursor) := by
  rw [Descent.call, Descent.bind_of_ok (Descent.change_eq _ _)]
  generalize hb : body (cursor.change (.enter routine)) = result at h
  cases h with
  | ok h =>
    rw [Descent.bind_of_ok hb, Descent.bind_of_ok (Descent.change_eq _ _)]
    exact .ok h.leave
  | error h =>
    rw [Descent.bind_of_error hb]
    exact .error h

theorem Follows.of_ok (h : Follows text cursor (.ok (a, rest)) result) :
    ∃ later, result = some (.ok a, later) ∧ cursor.Reaches text rest later := by
  cases h with
  | ok h => exact ⟨_, rfl, h⟩

theorem Follows.of_error (h : Follows text cursor (.error fault : Scan α) result) :
    ∃ later, result = some (.error (.fault (fault.locate text.toList)), later) ∧
      later.IsSound text := by
  cases h with
  | error h => exact ⟨_, rfl, h⟩

theorem Follows.inside (h : Follows text cursor scan result)
    (he : earlier.Reaches text rest cursor) : Follows text earlier scan result := by
  cases h with
  | ok h => exact .ok (he.trans h)
  | error h => exact .error h

/-- A step that follows a scanner and then does what is left to do. -/
theorem Follows.bind {scan : Scan α} {next : Scan β} (h : Follows text start scan (x cursor))
    (herror : ∀ fault, scan = .error fault → next = .error fault)
    (hok : ∀ {a rest later}, scan = .ok (a, rest) → start.Reaches text rest later →
      Follows text earlier next (f a later)) :
    Follows text earlier next ((x >>= f) cursor) := by
  generalize hx : x cursor = result at h
  cases h with
  | ok h =>
    rw [Descent.bind_of_ok hx]
    exact hok rfl h
  | error h =>
    rw [Descent.bind_of_error hx, herror _ rfl]
    exact .error h

theorem Descent.name_follows (h : cursor.IsAt text rest) :
    Follows text cursor (scanName rest) (name text cursor) := by
  apply Follows.call
  obtain ⟨start, hstart, h⟩ := skipBlanks_reaches (h.enterOther .name nofun).refl
  obtain ⟨stop, hstop, h', hp, hslice⟩ := skipWhile_run h isNameChar
  rw [bind_of_ok hstart, bind_of_ok (now_eq _), bind_of_ok hstop, bind_of_ok (now_eq _)]
  simp only [scanName]
  cases hname : (skipBlanks rest).takeWhile isNameChar with
  | nil =>
    have hdrop := List.takeWhile_append_dropWhile (p := isNameChar) (l := skipBlanks rest)
    rw [hname, List.nil_append] at hdrop
    rw [hname, utf8Length, Nat.add_zero] at hp
    rw [hdrop] at h'
    rw [if_pos hp, bind_of_ok (peek_eq h'.faces)]
    exact fail_follows h' _
  | cons c name =>
    have hne : stop.now.position ≠ start.now.position := by
      have hc := c.utf8Size_pos
      rw [hp, hname, utf8Length]
      omega
    rw [if_neg hne, hslice, hname]
    exact .ok h'

theorem Descent.number_follows (h : cursor.IsAt text rest) :
    Follows text cursor (scanNumber rest) (number text cursor) := by
  apply Follows.call
  have hstart := (h.enterOther .number nofun).refl
  obtain ⟨stop, hstop, h', hp, hslice⟩ := skipWhile_run hstart Char.isDigit
  rw [bind_of_ok (now_eq _), bind_of_ok hstop, bind_of_ok (peek_eq h'.faces)]
  by_cases hpoint : (rest.dropWhile Char.isDigit).head? = some '.'
  · rw [if_pos hpoint]
    obtain ⟨tail, hpoint⟩ := List.head?_eq_some_iff.1 hpoint
    rw [hpoint] at h'
    rw [scanNumber_of_point hpoint]
    exact fail_follows h' _
  · rw [if_neg hpoint, bind_of_ok (now_eq _), hslice, ofSlice, bind_of_ok rfl,
      scanNumber_of_digits fun tail ht => hpoint (by rw [ht]; rfl)]
    by_cases hv : digitsValue (rest.takeWhile Char.isDigit) < UInt64.size
    · rw [if_pos hv, if_pos hv]
      exact .ok h'
    · rw [if_neg hv, if_neg hv]
      exact throw_follows hstart.faces h'.sound _

theorem Descent.quoted_follows (h : cursor.IsAt text ('\'' :: rest)) :
    Follows text cursor (scanLiteral ('\'' :: rest)) (quoted text cursor) := by
  apply Follows.call
  have hquote := (h.enterOther .quoted nofun).refl
  obtain ⟨start, hstart, h'⟩ := bump_reaches hquote
  rw [bind_of_ok (now_eq _), bind_of_ok hstart, bind_of_ok (now_eq _),
    bind_of_ok (rest_eq h'.faces)]
  by_cases hq : '\'' ∈ rest
  · obtain ⟨run, after, rfl, hrun⟩ := List.eq_append_cons_of_mem hq
    have hslice :
        slice? text start.now.position (start.now.position + utf8Length run) = some run := by
      obtain ⟨before, ht, hb⟩ := h'.faces
      rw [hb, slice?_of_append ht]
    have hstop : start.now.position + utf8Length run + 1 =
        start.now.position + utf8Length (run ++ ['\'']) := by
      rw [utf8Length_append, ← Nat.add_assoc]
      rfl
    rw [← List.singleton_append, ← List.append_assoc] at h'
    rw [findByte?_of_notMem hrun, scanLiteral_of_quote rfl hrun]
    simp only []
    rw [bind_of_ok (change_eq _ _), hslice, ofSlice, bind_of_ok rfl]
    exact .ok (h'.moveTo hstop)
  · rw [findByte?_eq_none hq, scanLiteral_of_no_quote hq]
    exact throw_follows hquote.faces h'.sound _

theorem Descent.literal_follows (h : cursor.IsAt text rest) :
    Follows text cursor (scanLiteral rest) (literal text cursor) := by
  apply Follows.call
  obtain ⟨start, hstart, h⟩ := skipBlanks_reaches (h.enterOther .literal nofun).refl
  rw [bind_of_ok hstart, bind_of_ok (peek_eq h.faces)]
  cases hi : skipBlanks rest with
  | nil =>
    rw [hi] at h
    rw [scanLiteral, hi]
    exact fail_follows h _
  | cons c tail =>
    rw [hi] at h
    simp only [List.head?_cons]
    by_cases hq : c = '\''
    · subst hq
      rw [if_pos rfl, ← scanLiteral_skipBlanks, hi]
      exact (quoted_follows h.toIsAt).inside h
    · rw [if_neg hq]
      cases hd : c.isDigit with
      | true =>
        rw [if_pos rfl, scanLiteral_of_digit hi hd]
        exact (number_follows h.toIsAt).inside h
      | false =>
        rw [if_neg Bool.false_ne_true, scanLiteral_of_other hi hq hd]
        by_cases hm : c = '-'
        · rw [if_pos hm, if_pos hm]
          exact fail_follows h _
        · rw [if_neg hm, if_neg hm]
          exact fail_follows h _

theorem Comparator.utf8ByteSize_lexeme (c : Comparator) :
    c.lexeme.utf8ByteSize = c.chars.length := by
  cases c <;> rfl

theorem longestCandidate?_map (candidates : List Comparator) (input : List Char) :
    longestCandidate? (candidates.map Comparator.entry) input =
      (longestLexeme? candidates input).map Comparator.entry := by
  rw [longestCandidate?, List.foldl_map, longestLexeme?, ← Option.map_none (f := Comparator.entry)]
  apply List.foldl_hom (Option.map Comparator.entry)
  intro best c
  have hall : (best.map Comparator.entry).all (·.1.utf8ByteSize < c.entry.1.utf8ByteSize) =
      best.all (·.chars.length < c.chars.length) := by
    rw [Option.all_map]
    simp only [Comparator.entry, Comparator.utf8ByteSize_lexeme]
  have hprefix : c.entry.1.toList = c.chars := String.toList_ofList
  rw [hall, hprefix]
  split <;> rfl

theorem Descent.comparator_of_some (h : cursor.IsAt text rest)
    (hs : scanLexeme candidates rest = some (found, after)) :
    Follows text cursor (.ok (some found, after))
      (comparator (candidates.map Comparator.entry) text cursor) := by
  apply Follows.call
  obtain ⟨start, hstart, h⟩ := skipBlanks_reaches (h.enterOther .comparator nofun).refl
  rw [bind_of_ok hstart, bind_of_ok (rest_eq h.faces), longestCandidate?_map]
  obtain ⟨best, hbest, he⟩ := Option.map_eq_some_iff.1 hs
  cases he
  have hl := longestLexeme?_isLongest candidates (skipBlanks rest)
  rw [hbest] at hl
  rw [hbest]
  simp only [Option.map_some, Comparator.entry]
  rw [bind_of_ok (now_eq _), bind_of_ok (change_eq _ _)]
  rw [← List.prefix_iff_eq_append.1 hl.2.1] at h
  exact .ok (h.moveTo (by rw [Comparator.lexeme, utf8Length_eq_utf8ByteSize]))

theorem Descent.comparator_of_none (h : cursor.IsAt text rest)
    (hs : scanLexeme candidates rest = none) :
    Follows text cursor (.ok (none, skipBlanks rest))
      (comparator (candidates.map Comparator.entry) text cursor) := by
  apply Follows.call
  obtain ⟨start, hstart, h⟩ := skipBlanks_reaches (h.enterOther .comparator nofun).refl
  rw [bind_of_ok hstart, bind_of_ok (rest_eq h.faces), longestCandidate?_map,
    Option.map_eq_none_iff.1 hs]
  exact .ok h

theorem Descent.comparison_follows (h : cursor.IsAt text rest) :
    Follows text cursor ((scanComparison rest).map fun (subtree, after) => (subtree.rule, after))
      (comparison text cursor) := by
  apply Follows.call
  refine (name_follows (h.enterOther .comparison nofun)).bind (fun fault hn => ?_) fun hn h => ?_
  · rw [scanComparison, hn]
    rfl
  · rw [scanComparison, hn, Comparator.lexemes_eq]
    simp only []
    cases hc : scanComparator _ with
    | none =>
      obtain ⟨later, hl, h'⟩ := (comparator_of_none h.toIsAt hc).of_ok
      rw [bind_of_ok hl]
      exact fail_follows (h.trans h') _
    | some read =>
      obtain ⟨c, afterComparator⟩ := read
      obtain ⟨behindComparator, hl, h'⟩ := (comparator_of_some h.toIsAt hc).of_ok
      rw [bind_of_ok hl]
      simp only []
      have hc := h.trans h'
      refine ((literal_follows hc.toIsAt).inside hc).bind (fun fault hv => ?_) fun hv h'' => ?_
      · rw [hv]
        rfl
      · rw [hv]
        exact .ok h''

theorem scanComparison_depth (h : scanComparison rest = .ok (subtree, after)) :
    subtree.depth = 1 := by
  obtain ⟨text, nesting, -, ht, hf, hd⟩ := scanComparison_reads h 0
  cases ht with
  | comparison hc => rw [hd, hc.depth]
  | enclosed => exact absurd hf.2 (Nat.not_succ_le_zero _)

theorem Descent.operand_follows (h : cursor.IsAt text rest) :
    Follows text cursor (scanComparison rest)
      ((comparison text >>= fun rule => return ⟨rule, 1⟩) cursor) := by
  have hcomparison := comparison_follows h
  cases hscan : scanComparison rest with
  | error fault =>
    rw [hscan] at hcomparison
    obtain ⟨later, hl, hs⟩ := hcomparison.of_error
    rw [bind_of_error hl]
    exact .error hs
  | ok read =>
    obtain ⟨⟨rule, depth⟩, after⟩ := read
    rw [hscan] at hcomparison
    obtain ⟨later, hl, h'⟩ := hcomparison.of_ok
    rw [bind_of_ok hl]
    obtain rfl : depth = 1 := scanComparison_depth hscan
    exact .ok h'

end Eligibility
