import Eligibility.Proofs.Recognition

namespace Eligibility
set_option autoImplicit true

/-- What a rule text goes on with between two of its tokens. -/
inductive Place where
  | term
  | comparator
  | literal
  | link

/-- A comparator leads from one place to another: to the literal of a comparison, or to the next
term. -/
inductive Place.Leads : Place → Place → Prop
  | comparator : Leads .comparator .literal
  | connective : Leads .link .term

/-- Two readings come to the same: to one value with paired inputs behind it or to one fault with
paired unread texts, unless the fault of the first reading is excused. -/
inductive Agree {α : Type} (inputs unread : List Char → List Char → Prop)
    (excused : Fault → Prop) : Scan α → Scan α → Prop
  | read (h : inputs rest rest') :
    Agree inputs unread excused (.ok (value, rest)) (.ok (value, rest'))
  | fault (h : unread rest rest') :
    Agree inputs unread excused (.error ⟨reason, rest⟩) (.error ⟨reason, rest'⟩)
  | excused (h : excused fault) : Agree inputs unread excused (.error fault) other

/-- Two texts start alike, unless the first is empty and that excuses it. -/
inductive SameHead (unread : List Char → List Char → Prop) (endExcused : Prop) :
    List Char → List Char → Prop
  | nil (h : unread [] []) : SameHead unread endExcused [] []
  | cons (h : unread (c :: rest) (c :: rest')) :
    SameHead unread endExcused (c :: rest) (c :: rest')
  | ended (h : endExcused) : SameHead unread endExcused [] other

/-- A way to pair the inputs of two runs of the parser that the readers of single tokens keep: which
inputs go together at a place between two tokens, and which unread texts in a fault. Some faults of
the first run may be excused, and so may be all that it does at the end of its input. -/
structure Pairing where
  inputs : Place → List Char → List Char → Prop
  unread : List Char → List Char → Prop
  excused : Fault → Prop
  endExcused : Prop
  excused_end : endExcused → ∀ reason, excused ⟨reason, []⟩
  unread_link : inputs .link input input' → unread input input'
  head : inputs place input input' →
    SameHead unread endExcused (skipBlanks input) (skipBlanks input')
  opening : inputs .term input input' → skipBlanks input = '(' :: rest →
    skipBlanks input' = '(' :: rest' → inputs .term rest rest'
  closing : inputs .link input input' → skipBlanks input = ')' :: rest →
    skipBlanks input' = ')' :: rest' → inputs .link rest rest'
  name : inputs .term input input' →
    Agree (inputs .comparator) unread excused (scanName input) (scanName input')
  comparator : place.Leads next → inputs place input input' →
    (endExcused ∧ skipBlanks input = []) ∨
      Option.Rel (fun found found' => found.1 = found'.1 ∧ inputs next found.2 found'.2)
        (scanComparator input) (scanComparator input')
  literal : inputs .literal input input' →
    Agree (inputs .link) unread excused (scanLiteral input) (scanLiteral input')

variable {p : Pairing} {input input' rest rest' : List Char} {term : List Char → Scan Subtree}
variable {inputs unread : List Char → List Char → Prop} {excused : Fault → Prop} {fault : Fault}

/-- Both runs come to the same at a place between two tokens. -/
def Pairing.AgreeAt (p : Pairing) (place : Place) : Scan α → Scan α → Prop :=
  Agree (p.inputs place) p.unread p.excused

/-- The first run has read its whole input and is excused for that. -/
def Pairing.Ended (p : Pairing) (result : Scan α) : Prop :=
  p.endExcused ∧ ∃ value rest, result = .ok (value, rest) ∧ skipBlanks rest = []

theorem Agree.of_ok {value : α} {other : Scan α}
    (h : Agree inputs unread excused (.ok (value, rest)) other) :
    ∃ rest', other = .ok (value, rest') ∧ inputs rest rest' := by
  cases h with
  | read h => exact ⟨_, rfl, h⟩

theorem Agree.of_error {other : Scan α}
    (h : Agree inputs unread excused (.error fault) other) :
    excused fault ∨
      ∃ rest', other = .error ⟨fault.reason, rest'⟩ ∧ unread fault.rest rest' := by
  cases h with
  | fault h => exact .inr ⟨_, rfl, h⟩
  | excused h => exact .inl h

theorem Pairing.comparator_some (hp : place.Leads next) (h : p.inputs place input input')
    (hc : scanComparator input = some (c, after)) :
    ∃ after', scanComparator input' = some (c, after') ∧ p.inputs next after after' := by
  rcases p.comparator hp h with ⟨-, hend⟩ | hrel
  · rw [scanComparator_of_end hend] at hc
    cases hc
  · rw [hc] at hrel
    generalize scanComparator input' = found at hrel
    cases hrel with
    | @some _ found hfound =>
      obtain ⟨c', after'⟩ := found
      obtain ⟨rfl, hnext⟩ := hfound
      exact ⟨after', rfl, hnext⟩

theorem Pairing.comparator_none (hp : place.Leads next) (h : p.inputs place input input')
    (hc : scanComparator input = none) :
    (p.endExcused ∧ skipBlanks input = []) ∨ scanComparator input' = none := by
  rcases p.comparator hp h with hend | hrel
  · exact .inl hend
  · rw [hc] at hrel
    generalize scanComparator input' = found at hrel
    cases hrel with
    | none => exact .inr rfl

/-- A fault right behind the blanks is the same in both runs. -/
theorem Pairing.agree_at_head {α : Type} (h : p.inputs place input input')
    (reason : ParseError.Reason) :
    p.AgreeAt (α := α) next (.error ⟨reason, skipBlanks input⟩)
      (.error ⟨reason, skipBlanks input'⟩) := by
  have hhead := p.head h
  generalize skipBlanks input = skipped at hhead ⊢
  generalize skipBlanks input' = skipped' at hhead ⊢
  cases hhead with
  | nil h => exact .fault h
  | cons h => exact .fault h
  | ended he => exact .excused (p.excused_end he reason)

theorem scanComparison_agree (h : p.inputs .term input input') :
    p.AgreeAt .link (scanComparison input) (scanComparison input') := by
  have hname := p.name h
  unfold scanComparison
  generalize scanName input = named at hname ⊢
  generalize scanName input' = named' at hname ⊢
  cases hname with
  | fault hu => exact .fault hu
  | excused he => exact .excused he
  | @read after after' name hi =>
    dsimp only
    cases hc : scanComparator after with
    | none =>
      rcases p.comparator_none .comparator hi hc with ⟨he, hend⟩ | hc'
      · rw [hend]
        exact .excused (p.excused_end he _)
      · rw [hc']
        exact p.agree_at_head hi _
    | some found =>
      obtain ⟨c, tail⟩ := found
      obtain ⟨tail', hc', hl⟩ := p.comparator_some .comparator hi hc
      have hliteral := p.literal hl
      rw [hc']
      dsimp only
      generalize scanLiteral tail = scanned at hliteral ⊢
      generalize scanLiteral tail' = scanned' at hliteral ⊢
      cases hliteral with
      | read hr => exact .read hr
      | fault hu => exact .fault hu
      | excused he => exact .excused he

/-- A reader of terms that comes to the same on all paired inputs. -/
def Pairing.TermAgrees (p : Pairing) (term : List Char → Scan Subtree) : Prop :=
  ∀ {input input'}, p.inputs .term input input' → p.AgreeAt .link (term input) (term input')

/-- A chain that ends in the first run because its input does may go on in the second. -/
theorem scanChain_agree (ht : p.TermAgrees term) (h : p.inputs .link input input') :
    p.AgreeAt .link (scanChain term left input) (scanChain term left input') ∨
      p.Ended (scanChain term left input) := by
  fun_induction scanChain term left input generalizing input' with
  | case1 left input hc =>
    rcases p.comparator_none .connective h hc with ⟨he, hend⟩ | hc'
    · exact .inr ⟨he, left, input, rfl, hend⟩
    · rw [scanChain_of_none hc']
      exact .inl (.read h)
  | case2 left input c after hc fault hf =>
    obtain ⟨after', hc', hi⟩ := p.comparator_some .connective h hc
    have hterm := ht hi
    rw [hf] at hterm
    rcases hterm.of_error with he | ⟨rest', hf', hu⟩
    · exact .inl (.excused he)
    · rw [scanChain_of_fault hc' hf']
      exact .inl (.fault hu)
  | case3 left input c after hc right unread hr hd =>
    obtain ⟨after', hc', hi⟩ := p.comparator_some .connective h hc
    have hterm := ht hi
    rw [hr] at hterm
    obtain ⟨unread', hr', hl⟩ := hterm.of_ok
    rw [scanChain_of_deep hc' hr' hd]
    exact .inl (.fault (p.unread_link hl))
  | case4 left input c after hc right unread hr hd ih =>
    obtain ⟨after', hc', hi⟩ := p.comparator_some .connective h hc
    have hterm := ht hi
    rw [hr] at hterm
    obtain ⟨unread', hr', hl⟩ := hterm.of_ok
    rw [scanChain_join hc' hr' (Nat.le_of_not_gt hd)]
    exact ih hl

theorem scanExpression_agree (ht : p.TermAgrees term) (h : p.inputs .term input input') :
    p.AgreeAt .link (scanExpression term input) (scanExpression term input') ∨
      p.Ended (scanExpression term input) := by
  have hterm := ht h
  unfold scanExpression
  generalize term input = scanned at hterm ⊢
  generalize term input' = scanned' at hterm ⊢
  cases hterm with
  | read hl => exact scanChain_agree ht hl
  | fault hu => exact .inl (.fault hu)
  | excused he => exact .inl (.excused he)

/-- Behind expressions that were both read, the parenthesis is read or missing in both runs. -/
theorem scanEnclosed_agree_of_ok (hr : scanExpression term input = .ok (subtree, rest))
    (hr' : scanExpression term input' = .ok (subtree, rest')) (h : p.inputs .link rest rest') :
    p.AgreeAt .link (scanEnclosed term input) (scanEnclosed term input') := by
  have hhead := p.head h
  generalize hs : skipBlanks rest = skipped at hhead
  generalize hs' : skipBlanks rest' = skipped' at hhead
  cases hhead with
  | nil hu =>
    rw [scanEnclosed_of_missing hr (by rw [hs]; exact nofun),
      scanEnclosed_of_missing hr' (by rw [hs']; exact nofun), hs, hs']
    exact .fault hu
  | @cons c tail tail' hu =>
    by_cases hc : c = ')'
    · subst hc
      rw [scanEnclosed_of_close hr hs, scanEnclosed_of_close hr' hs']
      exact .read (p.closing h hs hs')
    · have hn : ∀ {first tail rest : List Char}, first = c :: tail → first ≠ ')' :: rest := by
        intro first tail rest hf he
        exact hc (List.cons.inj (hf.symm.trans he)).1
      rw [scanEnclosed_of_missing hr fun _ => hn hs,
        scanEnclosed_of_missing hr' fun _ => hn hs', hs, hs']
      exact .fault hu
  | ended he =>
    rw [scanEnclosed_of_missing hr (by rw [hs]; exact nofun), hs]
    exact .excused (p.excused_end he _)

theorem scanEnclosed_agree (ht : p.TermAgrees term) (h : p.inputs .term input input') :
    p.AgreeAt .link (scanEnclosed term input) (scanEnclosed term input') := by
  rcases scanExpression_agree ht h with hexpression | ⟨he, subtree, rest, hr, hend⟩
  · cases hr : scanExpression term input with
    | error fault =>
      rw [hr] at hexpression
      simp only [scanEnclosed, hr]
      rcases hexpression.of_error with he | ⟨rest', hr', hu⟩
      · exact .excused he
      · rw [hr']
        exact .fault hu
    | ok result =>
      obtain ⟨subtree, rest⟩ := result
      rw [hr] at hexpression
      obtain ⟨rest', hr', hl⟩ := hexpression.of_ok
      exact scanEnclosed_agree_of_ok hr hr' hl
  · have hmissing := scanEnclosed_of_missing hr (by rw [hend]; exact nofun)
    rw [hmissing, hend]
    exact .excused (p.excused_end he _)

theorem scanTerm_agree (room : Nat) : p.TermAgrees (scanTerm room) := by
  intro input input' h
  have hhead := p.head h
  generalize hs : skipBlanks input = skipped at hhead
  generalize hs' : skipBlanks input' = skipped' at hhead
  cases hhead with
  | nil hu =>
    rw [scanTerm, hs, scanTerm, hs']
    exact .fault hu
  | @cons c tail tail' hu =>
    by_cases hc : c = '('
    · subst hc
      cases room with
      | zero =>
        rw [scanTerm_no_room hs, scanTerm_no_room hs']
        exact .fault hu
      | succ room =>
        rw [scanTerm_of_open hs, scanTerm_of_open hs']
        exact scanEnclosed_agree (scanTerm_agree room) (p.opening h hs hs')
    · rw [scanTerm_of_name hs hc, scanTerm_of_name hs' hc]
      exact scanComparison_agree h
  | ended he =>
    rw [scanTerm, hs]
    exact .excused (p.excused_end he _)

/-- Two runs on paired inputs end with the same rule or the same fault, excuses apart. -/
theorem scanRule_agree (h : p.inputs .term input input') :
    (∀ rule, scanRule input = .ok rule → p.endExcused ∨ scanRule input' = .ok rule) ∧
      ∀ fault, scanRule input = .error fault → p.excused fault ∨
        ∃ rest', scanRule input' = .error ⟨fault.reason, rest'⟩ ∧ p.unread fault.rest rest' := by
  unfold scanRule
  rcases scanExpression_agree (scanTerm_agree maxDepth) h with he | ⟨hend, subtree, rest, hr, hs⟩
  · cases hr : scanExpression (scanTerm maxDepth) input with
    | error fault =>
      rw [hr] at he
      constructor
      · rintro _ ⟨⟩
      · rintro _ ⟨⟩
        rcases he.of_error with he | ⟨rest', hr', hu⟩
        · exact .inl he
        · rw [hr']
          exact .inr ⟨rest', rfl, hu⟩
    | ok result =>
      obtain ⟨subtree, rest⟩ := result
      rw [hr] at he
      obtain ⟨rest', hr', hl⟩ := he.of_ok
      rw [hr']
      have hhead := p.head hl
      dsimp only
      generalize skipBlanks rest = skipped at hhead ⊢
      generalize skipBlanks rest' = skipped' at hhead ⊢
      cases hhead with
      | nil hu =>
        constructor
        · exact fun _ hok => .inr hok
        · rintro _ ⟨⟩
      | cons hu =>
        constructor
        · rintro _ ⟨⟩
        · rintro _ ⟨⟩
          exact .inr ⟨_, rfl, hu⟩
      | ended he =>
        constructor
        · exact fun _ _ => .inl he
        · rintro _ ⟨⟩
  · rw [hr]
    simp only [hs]
    constructor
    · exact fun _ _ => .inl hend
    · rintro _ ⟨⟩

end Eligibility
