import Eligibility.Proofs.Descent
import Eligibility.Proofs.TreeSize

namespace Eligibility
set_option autoImplicit true

variable {text : String} {rest : List Char} {cursor earlier later : Cursor}
variable {term : Descent Subtree}

/-- The scan with the blanks that follow what it has read. -/
def skipped (scan : Scan α) : Scan α :=
  scan.map fun (a, after) => (a, skipBlanks after)

theorem skipped_eq_ok {scan : Scan α} (h : skipped scan = .ok (a, rest)) :
    ∃ after, scan = .ok (a, after) ∧ rest = skipBlanks after := by
  cases scan with
  | error fault => cases h
  | ok read =>
    cases h
    exact ⟨_, rfl, rfl⟩

theorem skipped_eq_error {scan : Scan α} (h : skipped scan = .error fault) :
    scan = .error fault := by
  cases scan with
  | error other =>
    cases h
    rfl
  | ok read => cases h

/-- The descent is in one call of an expression more than in parentheses, and there is room for that
many parentheses more. -/
structure Cursor.HasRoom (room : Nat) (cursor : Cursor) : Prop where
  nesting : cursor.now.nesting + room = maxDepth
  calls : cursor.now.calls.count .expression = cursor.now.nesting + 1

/-- What has been read is more than nothing, and its levels are counted rightly. -/
structure IsReadOf (rest : List Char) (subtree : Subtree) (after : List Char) : Prop where
  advances : utf8Length after < utf8Length rest
  depth : subtree.depth = subtree.rule.depth
  le_maxDepth : subtree.rule.depth ≤ maxDepth

/-- Wherever there is that much room, the step reads a term. -/
def TermFollows (text : String) (room : Nat) (term : Descent Subtree) : Prop :=
  ∀ {cursor rest}, cursor.IsAt text rest → cursor.HasRoom room →
    Follows text cursor (scanTerm room rest) (term cursor)

theorem Cursor.HasRoom.reaches (h : earlier.HasRoom room) (hr : earlier.Reaches text rest later) :
    later.HasRoom room where
  nesting := by rw [hr.nesting, h.nesting]
  calls := by rw [hr.calls, hr.nesting, h.calls]

theorem Reads.isReadOf {rest : List Char} (h : Reads IsExpression room rest subtree after) :
    IsReadOf rest subtree after := by
  obtain ⟨text, nesting, rfl, ht, hf, hd⟩ := h
  refine ⟨?_, hd, hf.1⟩
  have hbytes := ht.hasBytesFor
  rw [HasBytesFor] at hbytes
  rw [utf8Length_append]
  omega

theorem Reads.expression {rest : List Char} (h : Reads IsTerm room rest subtree after) :
    Reads IsExpression room rest subtree after := by
  obtain ⟨text, nesting, hi, ht, hf, hd⟩ := h
  exact ⟨text, nesting, hi, .term ht, hf, hd⟩

theorem IsReadOf.skip (h : IsReadOf rest subtree after) :
    IsReadOf rest subtree (skipBlanks after) := by
  refine ⟨?_, h.depth, h.le_maxDepth⟩
  obtain ⟨blanks, -, ha⟩ := exists_skipBlanks after
  have hle := h.advances
  rw [ha, utf8Length_append] at hle
  omega

theorem Follows.callSubtree {body : Descent Subtree} (hf : cursor.Faces text rest)
    (h : Follows text (cursor.change (.enter routine)) scan
      (body (cursor.change (.enter routine))))
    (hread : ∀ {subtree after}, scan = .ok (subtree, after) → IsReadOf rest subtree after) :
    Follows text cursor scan (Descent.callSubtree routine body cursor) := by
  have hcall := h.call
  rw [Descent.callSubtree, Descent.bind_of_ok (Descent.now_eq _)]
  generalize hb : Descent.call routine body cursor = result at hcall
  cases hcall with
  | error hs =>
    rw [Descent.bind_of_error hb]
    exact .error hs
  | ok hl =>
    rename_i after later subtree
    obtain ⟨hadv, hdepth, hle⟩ := hread rfl
    have hp := hf.position_add
    have hp' := hl.faces.position_add
    have hlt : cursor.now.position < later.now.position := by omega
    have hback : Return.IsRight ⟨cursor.now, later.now, subtree⟩ :=
      ⟨hlt, hl.nesting, hdepth, hdepth ▸ subtree.rule.one_le_depth, hdepth ▸ hle⟩
    rw [Descent.bind_of_ok hb, Descent.bind_of_ok (Descent.now_eq _)]
    exact .ok ⟨⟨hl.faces, hl.sound.record hback⟩, hl.nesting, hl.calls,
      hl.returns.trans (List.suffix_cons _ _)⟩

theorem Descent.chain_of_some (h : cursor.IsAt text rest)
    (hc : scanComparator rest = some (connective, after)) (left : Subtree) :
    ∃ later, cursor.Reaches text after later ∧ chain text term (rounds + 1) left cursor =
      (term >>= fun right =>
        if max left.depth right.depth + 1 > maxDepth then fail .nestedTooDeeply
        else chain text term rounds ⟨.operator connective left.rule right.rule,
          max left.depth right.depth + 1⟩) later := by
  obtain ⟨later, hl, h'⟩ := (comparator_of_some h hc).of_ok
  refine ⟨later, h', ?_⟩
  rw [chain, Comparator.lexemes_eq, bind_of_ok hl]

/-- Every round makes the tree deeper. -/
theorem Descent.chain_follows (hterm : TermFollows text room term) (h : cursor.IsAt text rest)
    (hr : cursor.HasRoom room) (left : Subtree) (hlimit : maxDepth ≤ left.depth + rounds) :
    Follows text cursor (skipped (scanChain (scanTerm room) left rest))
      (chain text term (rounds + 1) left cursor) := by
  fun_induction scanChain (scanTerm room) left rest generalizing cursor rounds with
  | case1 left rest hc =>
    obtain ⟨later, hl, h'⟩ := (comparator_of_none h hc).of_ok
    rw [chain, Comparator.lexemes_eq, bind_of_ok hl]
    exact .ok h'
  | case2 left rest c after hc fault ht =>
    obtain ⟨later, h', he⟩ := chain_of_some h hc left
    obtain ⟨last, hl, hs⟩ := (ht ▸ hterm h'.toIsAt (hr.reaches h')).of_error
    rw [he, bind_of_error hl]
    exact .error hs
  | case3 left rest c after hc right unread ht hd =>
    obtain ⟨later, h', he⟩ := chain_of_some h hc left
    obtain ⟨last, hl, h''⟩ := (ht ▸ hterm h'.toIsAt (hr.reaches h')).of_ok
    rw [he, bind_of_ok hl, if_pos hd]
    exact fail_follows (h'.trans h'') _
  | case4 left rest c after hc right unread ht hd ih =>
    obtain ⟨later, h', he⟩ := chain_of_some h hc left
    obtain ⟨last, hl, h''⟩ := (ht ▸ hterm h'.toIsAt (hr.reaches h')).of_ok
    have hlast := h'.trans h''
    rw [he, bind_of_ok hl, if_neg hd]
    obtain ⟨further, rfl⟩ : ∃ further, rounds = further + 1 := ⟨rounds - 1, by omega⟩
    have hfurther : maxDepth ≤ max left.depth right.depth + 1 + further := by omega
    exact (ih hlast.toIsAt (hr.reaches hlast) hfurther).inside hlast

theorem Descent.expression_follows (hterm : TermFollows text room term) (h : cursor.IsAt text rest)
    (hn : cursor.now.nesting + room = maxDepth)
    (hc : cursor.now.calls.count .expression = cursor.now.nesting) :
    Follows text cursor (skipped (scanExpression (scanTerm room) rest))
      (expression text term cursor) := by
  have hcount : (Routine.expression :: cursor.now.calls).count .expression =
      cursor.now.nesting + 1 := by
    rw [List.count_cons_self, hc]
  have hdepth : (Routine.expression :: cursor.now.calls).count .expression ≤ maxDepth + 1 := by
    omega
  have henter := h.enter hdepth
  have hroom : (cursor.change (.enter .expression)).HasRoom room := ⟨hn, hcount⟩
  rw [expression]
  apply Follows.callSubtree h.faces
  · refine (hterm henter hroom).bind (fun fault ht => ?_) fun ht hl => ?_
    · rw [scanExpression, ht]
      rfl
    · rw [scanExpression, ht]
      rw [roundLimit]
      exact (chain_follows hterm hl.toIsAt (hroom.reaches hl) _ (by omega)).inside hl
  · intro subtree after hs
    obtain ⟨after, hscan, rfl⟩ := skipped_eq_ok hs
    exact (scanExpression_reads (scanTerm_reads room) hscan).isReadOf.skip

theorem Cursor.IsAt.openParenthesis (h : cursor.IsAt text rest)
    (hn : cursor.now.nesting + 1 ≤ maxDepth) :
    (cursor.change .openParenthesis).IsAt text rest :=
  ⟨h.faces, h.sound.change ⟨h.faces.isValid, hn, h.sound.isLegal.calls⟩ (Nat.le_refl _)⟩

/-- The parenthesis that an expression has been opened with can be closed. -/
theorem Descent.closeParenthesis_reaches (h : earlier.Reaches text rest cursor)
    (h' : (cursor.change .openParenthesis).Reaches text after later) :
    ∃ last, closeParenthesis later = some (.ok (), last) ∧ earlier.Reaches text after last := by
  have hopen : later.now.nesting = cursor.now.nesting + 1 := h'.nesting
  have hclosed : (Moment.closeParenthesis later.now).nesting = cursor.now.nesting := by
    rw [Moment.closeParenthesis, hopen, Nat.add_sub_cancel]
  refine ⟨later.change .closeParenthesis, ?_, ⟨h'.faces, ?_⟩, ?_, ?_, ?_⟩
  · rw [closeParenthesis, bind_of_ok (now_eq _), hopen]
    rfl
  · refine h'.sound.change ⟨h'.faces.isValid, ?_, h'.sound.isLegal.calls⟩ (Nat.le_refl _)
    rw [hclosed]
    exact h.sound.isLegal.nesting
  · exact hclosed.trans h.nesting
  · exact h'.calls.trans h.calls
  · exact h.returns.trans h'.returns

theorem Descent.enclosed_follows (hterm : TermFollows text room term)
    (h : earlier.Reaches text ('(' :: rest) cursor) (hr : earlier.HasRoom (room + 1)) :
    Follows text earlier (scanEnclosed (scanTerm room) rest) (enclosed text term cursor) := by
  obtain ⟨inside, hbump, hb⟩ := bump_reaches h
  obtain ⟨hnesting, hcalls⟩ := hr.reaches hb
  have hopen := hb.toIsAt.openParenthesis (by omega)
  have hroom : (inside.change .openParenthesis).now.nesting + room = maxDepth := by
    rw [← hnesting, ← Nat.add_assoc, Nat.add_right_comm]
    rfl
  have hexpression := expression_follows hterm hopen hroom hcalls
  rw [enclosed, bind_of_ok hbump, bind_of_ok (change_eq _ _)]
  refine hexpression.bind (fun fault hs => ?_) fun hs hl => ?_
  · rw [scanEnclosed, skipped_eq_error hs]
  · obtain ⟨after, hscan, rfl⟩ := skipped_eq_ok hs
    obtain ⟨closed, hclose, hc⟩ := closeParenthesis_reaches hb hl
    obtain ⟨last, hlast, hskip⟩ := skipBlanks_reaches hc
    rw [skipBlanks_skipBlanks] at hskip
    rw [bind_of_ok hclose, bind_of_ok hlast, bind_of_ok (peek_eq hskip.faces)]
    by_cases hp : (skipBlanks after).head? = some ')'
    · obtain ⟨tail, ht⟩ := List.head?_eq_some_iff.1 hp
      rw [ht] at hskip
      obtain ⟨behind, hbehind, hb'⟩ := bump_reaches hskip
      rw [if_pos hp, bind_of_ok hbehind, scanEnclosed_of_close hscan ht]
      exact .ok hb'
    · rw [if_neg hp, scanEnclosed_of_missing hscan fun tail ht => hp (by rw [ht]; rfl)]
      exact fail_follows hskip _

/-- What follows for a term if it follows for the terms in its parentheses. -/
theorem Descent.termWithin_follows_within (hinside : ∀ inner, room = inner + 1 →
      TermFollows text inner (termWithin text rounds)) :
    TermFollows text room (termWithin text (rounds + 1)) := by
  intro cursor rest h hr
  have henter := h.enterOther .term nofun
  have hroom : (cursor.change (.enter .term)).HasRoom room := by
    refine ⟨hr.nesting, ?_⟩
    exact (List.count_cons_of_ne (by decide)).trans hr.calls
  rw [termWithin]
  refine Follows.callSubtree h.faces ?_ fun hs => (scanTerm_reads room hs).expression.isReadOf
  obtain ⟨start, hstart, hs⟩ := skipBlanks_reaches henter.refl
  rw [bind_of_ok hstart, bind_of_ok (peek_eq hs.faces)]
  have hn := (hroom.reaches hs).nesting
  cases hi : skipBlanks rest with
  | nil =>
    rw [hi] at hs
    rw [scanTerm, hi]
    exact fail_follows hs _
  | cons c tail =>
    rw [hi] at hs
    simp only [List.head?_cons]
    by_cases hc : c = '('
    · subst hc
      rw [if_pos rfl, bind_of_ok (now_eq _)]
      cases room with
      | zero =>
        rw [if_pos (by rw [← hn, Nat.add_zero]), scanTerm_no_room hi]
        exact fail_follows hs _
      | succ room =>
        rw [if_neg (by omega), scanTerm_of_open hi]
        exact enclosed_follows (hinside room rfl) hs hroom
    · rw [if_neg hc, scanTerm_of_name hi hc, ← scanComparison_skipBlanks, hi]
      exact (operand_follows hs.toIsAt).inside hs

/-- Terms lie inside of one another no more often than there is room for parentheses. -/
theorem Descent.termWithin_follows (h : room < rounds) :
    TermFollows text room (termWithin text rounds) := by
  induction rounds generalizing room with
  | zero => exact absurd h (Nat.not_lt_zero room)
  | succ rounds ih =>
    apply termWithin_follows_within
    rintro inner rfl
    exact ih (Nat.lt_of_succ_lt_succ h)

theorem Descent.term_follows (text : String) : TermFollows text maxDepth (Descent.term text) := by
  apply termWithin_follows
  rw [roundLimit]
  omega

theorem Cursor.start_isAt (text : String) : Cursor.start.IsAt text text.toList :=
  isAt_of_append (List.nil_append _).symm

/-- A call that comes back with a subtree is among the calls that have come back. -/
theorem Descent.callSubtree_returns {body : Descent Subtree}
    (h : callSubtree routine body cursor = some (.ok subtree, later)) :
    ∃ back ∈ later.returns, back.entry = cursor.now ∧ back.subtree = subtree := by
  rw [callSubtree, bind_of_ok (now_eq _), bind_eq] at h
  obtain ⟨⟨answer, last⟩, -, h⟩ := Option.bind_eq_some_iff.1 h
  cases answer with
  | error halt => cases h
  | ok subtree =>
    cases h
    exact ⟨_, List.mem_cons_self, rfl, rfl⟩

/-- On every text the descent ends with the answer of the parser, nothing on its way was out of
place, and the rule is that of the first call. -/
theorem Rule.parse_legal (text : String) :
    ∃ cursor, Descent.wholeRule text Cursor.start =
        some ((parse text).mapError Halt.fault, cursor) ∧ cursor.IsSound text ∧
      ∀ rule, parse text = .ok rule →
        ∃ back ∈ cursor.returns, back.entry = Cursor.start.now ∧ back.subtree.rule = rule := by
  have hexpression := Descent.expression_follows (Descent.term_follows text)
    (Cursor.start_isAt text) rfl rfl
  rw [Descent.wholeRule, parse, scanRule]
  cases hs : scanExpression (scanTerm maxDepth) text.toList with
  | error fault =>
    obtain ⟨last, hl, hsound⟩ := (hs ▸ hexpression).of_error
    refine ⟨last, Descent.bind_of_error hl, hsound, ?_⟩
    rintro rule ⟨⟩
  | ok read =>
    obtain ⟨subtree, after⟩ := read
    obtain ⟨inside, hl, h⟩ := (hs ▸ hexpression).of_ok
    obtain ⟨last, hlast, h'⟩ := Descent.skipBlanks_reaches h.toIsAt.refl
    rw [skipBlanks_skipBlanks] at h'
    rw [Descent.bind_of_ok hl, Descent.bind_of_ok hlast,
      Descent.bind_of_ok (Descent.peek_eq h'.faces)]
    simp only []
    cases ha : skipBlanks after with
    | cons c tail =>
      rw [ha] at h'
      obtain ⟨halted, hf, hsound⟩ := (Descent.fail_follows h' (.trailing c)).of_error
      refine ⟨halted, hf, hsound, ?_⟩
      rintro rule ⟨⟩
    | nil =>
      refine ⟨last, rfl, h'.sound, ?_⟩
      rintro rule ⟨⟩
      rw [Descent.expression] at hl
      obtain ⟨back, hm, he, hb⟩ := Descent.callSubtree_returns hl
      exact ⟨back, h'.returns.subset hm, he, congrArg Subtree.rule hb⟩

end Eligibility
