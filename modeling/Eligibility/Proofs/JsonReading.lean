import Eligibility.Proofs.Decoding
import Eligibility.Proofs.LooseJson

namespace Eligibility
set_option autoImplicit true

/-- The text is a JSON text of the value: the tokens of the value with white space between and
around them, each string and each number spelled in any of its ways. -/
def IsJson (text : List Char) (value : Json) : Prop :=
  IsJsonRun text value.tokens

/-- The text is one of the value in the grammar of JSON, which gives no meaning to its strings:
those that are no text belong to it. -/
def IsLooseJson (text : List Char) (value : Json) : Prop :=
  IsLooseRun text value.tokens

/-- Whether a token is neither a number beyond the doubles nor a string that is no text. -/
def Token.isReadable : Token → Bool
  | .numeral value => !value.overflows
  | .text value => value.isSome
  | .fault _ _ _ => false
  | _ => true

theorem Token.isFault_of_isReadable {token : Token} (h : token.isReadable = true) :
    token.isFault = false := by
  cases token with
  | fault => cases h
  | _ => rfl

/-- The tokens of an open frame up to the part at which it waits. -/
def Json.Frame.tokens : Frame → List Token
  | .array elements => .openArray :: elements.reverse.flatMap fun value => value.tokens ++ [.comma]
  | .object members name =>
    .openObject :: (members.reverse.flatMap (fun (name, value) =>
      .text name :: .colon :: (value.tokens ++ [.comma])) ++ [.text name, .colon])

/-- The tokens of all open frames, the innermost one last. -/
def Json.openTokens : List Frame → List Token
  | [] => []
  | frame :: stack => openTokens stack ++ frame.tokens

/-- If the value that was read is whole, its tokens and those behind it are the tokens before. -/
def Json.Accounts (tokens : List Token) (result : Json × List Token) : Prop :=
  result.1.isWhole = true → tokens = result.1.tokens ++ result.2

variable {text : List Char} {tokens : List Token} {token : Token} {value other : Json}

theorem Json.elementsWhole_append (left right : List Json) :
    elementsWhole (left ++ right) = (elementsWhole left && elementsWhole right) := by
  induction left with
  | nil => rfl
  | cons value left ih => rw [List.cons_append, elementsWhole, elementsWhole, ih, Bool.and_assoc]

theorem Json.membersWhole_append (left right : List (Option String × Json)) :
    membersWhole (left ++ right) = (membersWhole left && membersWhole right) := by
  induction left with
  | nil => rfl
  | cons member left ih =>
    obtain ⟨name, value⟩ := member
    rw [List.cons_append, membersWhole, membersWhole, ih, Bool.and_assoc]

theorem Json.Frame.isWhole_close (frame : Frame) (h : last.isWhole = false) :
    (frame.close last).isWhole = false := by
  cases frame with
  | array elements =>
    simp only [close, isWhole, elementsWhole_append, elementsWhole, h, Bool.false_and,
      Bool.and_false]
  | object members name =>
    simp only [close, isWhole, membersWhole_append, membersWhole, h, Bool.false_and,
      Bool.and_false]

/-- What was broken off is not whole. -/
theorem Json.isWhole_breakOff (stack : List Frame) (breach : Breach) :
    (breakOff stack breach).1.isWhole = false := by
  have hfold : ∀ (stack : List Frame) (last : Json), last.isWhole = false →
      (stack.foldl (fun last frame => frame.close last) last).isWhole = false := by
    intro stack
    induction stack with
    | nil => exact fun _ h => h
    | cons frame stack ih => exact fun last h => ih _ (frame.isWhole_close h)
  exact hfold stack (.fault breach) rfl

theorem Json.accounts_breakOff (tokens : List Token) (stack : List Frame) (breach : Breach) :
    Accounts tokens (breakOff stack breach) := by
  intro h
  rw [isWhole_breakOff] at h
  cases h

theorem Json.accounts_breakOffValue (tokens : List Token) (stack : List Frame)
    (rest : List Token) : Accounts tokens (breakOffValue stack rest) := by
  unfold breakOffValue
  split
  · exact accounts_breakOff _ _ _
  · exact accounts_breakOff _ _ _

theorem Json.furtherElements_append (elements : List Json) (last : Json) :
    furtherElements (elements ++ [last]) =
      .comma :: (elements.flatMap (fun value => value.tokens ++ [.comma]) ++
        (last.tokens ++ [.closeArray])) := by
  induction elements with
  | nil => rfl
  | cons value elements ih =>
    rw [List.cons_append, furtherElements, ih]
    simp

theorem Json.furtherMembers_append (members : List (Option String × Json)) (name : Option String)
    (last : Json) : furtherMembers (members ++ [(name, last)]) =
      .comma :: (members.flatMap (fun (name, value) =>
        .text name :: .colon :: (value.tokens ++ [.comma])) ++
          .text name :: .colon :: (last.tokens ++ [.closeObject])) := by
  induction members with
  | nil => rfl
  | cons member members ih =>
    obtain ⟨name, value⟩ := member
    rw [List.cons_append, furtherMembers, ih]
    simp

theorem Json.Frame.tokens_close_array (elements : List Json) (last : Json) :
    ((Frame.array elements).close last).tokens =
      (Frame.array elements).tokens ++ (last.tokens ++ [.closeArray]) := by
  rw [close, tokens]
  cases elements.reverse with
  | nil => rfl
  | cons value elements => simp [Json.tokens, furtherElements_append]

theorem Json.Frame.tokens_close_object (members : List (Option String × Json))
    (name : Option String) (last : Json) : ((Frame.object members name).close last).tokens =
      (Frame.object members name).tokens ++ (last.tokens ++ [.closeObject]) := by
  rw [close, tokens]
  cases members.reverse with
  | nil => rfl
  | cons member members => simp [Json.tokens, furtherMembers_append]

/-- No token gets lost on the way from the tokens to the value: each step of the reading moves them
from what is still to be read into the open frames or from there into the value. -/
theorem Json.accounts :
    (∀ stack tokens, Accounts (openTokens stack ++ tokens) (begin stack tokens)) ∧
      ∀ value stack tokens,
        Accounts (openTokens stack ++ (value.tokens ++ tokens)) (complete value stack tokens) := by
  apply Json.begin.mutual_induct
  case case1 | case3 | case7 | case8 | case9 | case10 =>
    intros
    assumption
  case case2 =>
    intro stack rest hrest ih
    rw [begin]
    · simpa [openTokens, Frame.tokens] using ih
    · exact hrest
  case case4 =>
    intro stack name rest ih
    rw [begin]
    simpa [openTokens, Frame.tokens] using ih
  case case5 | case6 =>
    intros
    rw [begin]
    · exact accounts_breakOff _ _ _
    all_goals assumption
  case case11 =>
    intros
    rw [begin]
    · exact accounts_breakOffValue _ _ _
    all_goals assumption
  case case12 =>
    intro value rest _
    rw [complete]
    rfl
  case case13 =>
    intro value elements stack rest ih
    rw [complete]
    simpa [openTokens, Frame.tokens] using ih
  case case14 =>
    intro value elements stack rest ih
    rw [complete]
    simpa [openTokens, Frame.tokens_close_array] using ih
  case case16 =>
    intro value members last stack name rest ih
    rw [complete]
    simpa [openTokens, Frame.tokens] using ih
  case case19 =>
    intro value members last stack rest ih
    rw [complete]
    simpa [openTokens, Frame.tokens_close_object] using ih
  case case15 | case17 | case18 | case20 =>
    intros
    rw [complete]
    · exact accounts_breakOff _ _ _
    all_goals assumption

theorem Json.tokens_of_read (h : read text = (value, rest)) (hw : value.isWhole = true) :
    Token.scanAll text = value.tokens ++ rest := by
  have haccounts := Json.accounts.1 [] (Token.scanAll text)
  have hbegin : begin [] (Token.scanAll text) = (value, rest) := h
  rw [hbegin] at haccounts
  exact haccounts hw

mutual

theorem Json.isReadable_eq : ∀ value : Json, value.isReadable = value.tokens.all Token.isReadable
  | .null | .bool _ | .numeral _ | .text _ | .fault _ => (Bool.and_true _).symm
  | .array [] | .object [] => rfl
  | .array (value :: elements) => by
    rw [isReadable, elementsReadable, tokens, List.all_cons, List.all_append,
      Json.isReadable_eq value, Json.elementsReadable_eq elements]
    rfl
  | .object ((name, value) :: members) => by
    rw [isReadable, membersReadable, tokens, List.all_cons, List.all_cons, List.all_cons,
      List.all_append, Json.isReadable_eq value, Json.membersReadable_eq members, Bool.and_assoc]
    rfl

theorem Json.elementsReadable_eq : ∀ elements : List Json,
    elementsReadable elements = (furtherElements elements).all Token.isReadable
  | [] => rfl
  | value :: elements => by
    rw [elementsReadable, furtherElements, List.all_cons, List.all_append,
      Json.isReadable_eq value, Json.elementsReadable_eq elements]
    rfl

theorem Json.membersReadable_eq : ∀ members : List (Option String × Json),
    membersReadable members = (furtherMembers members).all Token.isReadable
  | [] => rfl
  | (name, value) :: members => by
    rw [membersReadable, furtherMembers, List.all_cons, List.all_cons, List.all_cons,
      List.all_append, Json.isReadable_eq value, Json.membersReadable_eq members, Bool.and_assoc]
    rfl

end

theorem IsJsonRun.exists_text (h : IsJsonRun text tokens) (ht : token ∈ tokens) :
    ∃ raw, IsJsonToken raw token := by
  induction h with
  | nil => cases ht
  | cons hb hraw hn h ih =>
    rcases List.mem_cons.1 ht with rfl | ht
    · exact ⟨_, hraw⟩
    · exact ih ht

/-- The value of a JSON text is readable unless one of its numbers is beyond the doubles. -/
theorem IsJson.isReadable (h : IsJson text value)
    (hn : ∀ n, .numeral n ∈ value.tokens → n.overflows = false) : value.isReadable = true := by
  rw [Json.isReadable_eq, List.all_eq_true]
  intro token ht
  obtain ⟨raw, hraw⟩ := IsJsonRun.exists_text h ht
  cases hraw with
  | numeral =>
    rw [Token.isReadable, hn _ ht]
    rfl
  | _ => rfl

/-- A whole value is read from the tokens that it has. -/
theorem Json.read_of_scanAll (h : Token.scanAll text = value.tokens) (hw : value.isWhole = true) :
    read text = (value, []) := by
  have hbegin : begin [] (value.tokens ++ []) = complete value [] [] := begin_tokens hw
  rw [List.append_nil] at hbegin
  rw [read, h, ofTokens, hbegin, complete]

theorem IsJson.read (h : IsJson text value) (hr : value.isReadable = true) :
    Json.read text = (value, []) :=
  Json.read_of_scanAll h.scanAll (Json.isWhole_of_isReadable hr)

theorem isJson_of_scanAll (h : Token.scanAll text = value.tokens)
    (hr : value.isReadable = true) : IsJson text value := by
  rw [Json.isReadable_eq, ← h, List.all_eq_true] at hr
  have hrun : IsJsonRun text (Token.scanAll text) :=
    isJsonRun_scanAll (fun token ht => Token.isFault_of_isReadable (hr token ht))
      fun ht => Bool.false_ne_true (hr _ ht)
  rwa [h] at hrun

mutual

/-- A value is whole if none of its tokens is a fault. -/
theorem Json.faultless_tokens : ∀ {value : Json},
    Faultless value.tokens ↔ value.isWhole = true
  | .null | .bool _ | .numeral _ | .text _ => by
    rw [tokens, faultless_cons]
    exact iff_of_true ⟨rfl, faultless_nil⟩ rfl
  | .fault _ => by
    rw [tokens, faultless_cons]
    exact iff_of_false nofun nofun
  | .array [] | .object [] => by
    rw [tokens, faultless_cons, faultless_cons]
    exact iff_of_true ⟨rfl, rfl, faultless_nil⟩ rfl
  | .array (value :: elements) => by
    rw [tokens, faultless_cons, faultless_append, isWhole, elementsWhole, Bool.and_eq_true,
      Json.faultless_tokens, Json.faultless_furtherElements]
    exact and_iff_right rfl
  | .object ((name, value) :: members) => by
    rw [tokens, faultless_cons, faultless_cons, faultless_cons, faultless_append, isWhole,
      membersWhole, Bool.and_eq_true, Json.faultless_tokens, Json.faultless_furtherMembers]
    exact (and_iff_right rfl).trans ((and_iff_right rfl).trans (and_iff_right rfl))

theorem Json.faultless_furtherElements : ∀ {elements : List Json},
    Faultless (furtherElements elements) ↔ elementsWhole elements = true
  | [] => by
    rw [furtherElements, faultless_cons]
    exact iff_of_true ⟨rfl, faultless_nil⟩ rfl
  | value :: elements => by
    rw [furtherElements, faultless_cons, faultless_append, elementsWhole, Bool.and_eq_true,
      Json.faultless_tokens, Json.faultless_furtherElements]
    exact and_iff_right rfl

theorem Json.faultless_furtherMembers : ∀ {members : List (Option String × Json)},
    Faultless (furtherMembers members) ↔ membersWhole members = true
  | [] => by
    rw [furtherMembers, faultless_cons]
    exact iff_of_true ⟨rfl, faultless_nil⟩ rfl
  | (name, value) :: members => by
    rw [furtherMembers, faultless_cons, faultless_cons, faultless_cons, faultless_append,
      membersWhole, Bool.and_eq_true, Json.faultless_tokens, Json.faultless_furtherMembers]
    exact (and_iff_right rfl).trans ((and_iff_right rfl).trans (and_iff_right rfl))

end

theorem IsLooseJson.isWhole (h : IsLooseJson text value) : value.isWhole = true :=
  Json.faultless_tokens.1 h.faultless

/-- A value is read from each of its texts. -/
theorem IsLooseJson.read (h : IsLooseJson text value) : Json.read text = (value, []) :=
  Json.read_of_scanAll h.scanAll h.isWhole

theorem isLooseJson_of_scanAll (h : Token.scanAll text = value.tokens)
    (hw : value.isWhole = true) : IsLooseJson text value := by
  have hf : Faultless (Token.scanAll text) := by
    rw [h]
    exact Json.faultless_tokens.2 hw
  have hrun := isLooseRun_scanAll hf
  rwa [h] at hrun

theorem isLooseJson_iff_of_read (h : Json.read text = (value, [])) (hw : value.isWhole = true) :
    IsLooseJson text other ↔ other = value := by
  constructor
  · intro hother
    have hread := hother.read
    rw [h] at hread
    exact (Prod.mk.inj hread).1.symm
  · rintro rfl
    have hscan := Json.tokens_of_read h hw
    rw [List.append_nil] at hscan
    exact isLooseJson_of_scanAll hscan hw

/-- A text is a JSON text of the value that is read from it, and of no other. -/
theorem isJson_iff_of_read (h : Json.read text = (value, [])) (hr : value.isReadable = true) :
    IsJson text other ↔ other = value := by
  have hw := Json.isWhole_of_isReadable hr
  constructor
  · intro hother
    exact (isLooseJson_iff_of_read h hw).1 (isJsonRun_iff.1 hother).1
  · rintro rfl
    have hscan := Json.tokens_of_read h hw
    rw [List.append_nil] at hscan
    exact isJson_of_scanAll hscan hr

end Eligibility
