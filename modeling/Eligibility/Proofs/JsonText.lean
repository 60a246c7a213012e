import Eligibility.Json.Text
import Eligibility.Proofs.JsonShape
import Eligibility.Proofs.JsonTokens

namespace Eligibility
set_option autoImplicit true

variable {rest : List Char} {tokens : List Token} {value : Json} {stack : List Json.Frame}

/-- What stands behind an element does not prolong a number. -/
theorem Json.stops_furtherElements (elements : List Json) :
    Stops isNumeralChar ((furtherElements elements).flatMap Token.write ++ rest) := by
  cases elements <;> rfl

theorem Json.stops_furtherMembers (members : List (Option String × Json)) :
    Stops isNumeralChar ((furtherMembers members).flatMap Token.write ++ rest) := by
  cases members with
  | nil => rfl
  | cons member rest => rfl

/-- The text of a token other than a number shows its own end. -/
theorem Token.scanAll_sign (token : Token) (hf : token.isFault = false)
    (hn : ∀ n, token ≠ .numeral n) :
    scanAll (token.write ++ rest) = token :: scanAll rest :=
  scanAll_write hf fun n he => absurd he (hn n)

mutual

/-- The text of a value divides into the tokens of the value. -/
theorem Json.scanAll_write : ∀ {value : Json} {rest : List Char}, value.isWhole = true →
    Stops isNumeralChar rest →
      Token.scanAll (value.tokens.flatMap Token.write ++ rest) =
        value.tokens ++ Token.scanAll rest
  | .null, _, _, _ | .bool _, _, _, _ | .text _, _, _, _ => by
    simp only [tokens, List.flatMap_singleton]
    exact Token.scanAll_sign _ rfl nofun
  | .numeral _, _, _, hs => by
    simp only [tokens, List.flatMap_singleton]
    exact Token.scanAll_write rfl fun _ _ => hs
  | .array [], _, _, _ => by
    simp only [tokens, List.flatMap_cons, List.flatMap_nil, List.append_nil, List.append_assoc]
    rw [Token.scanAll_sign .openArray rfl nofun, Token.scanAll_sign .closeArray rfl nofun]
    rfl
  | .object [], _, _, _ => by
    simp only [tokens, List.flatMap_cons, List.flatMap_nil, List.append_nil, List.append_assoc]
    rw [Token.scanAll_sign .openObject rfl nofun, Token.scanAll_sign .closeObject rfl nofun]
    rfl
  | .array (value :: elements), rest, hw, _ => by
    obtain ⟨hv, he⟩ := Bool.and_eq_true_iff.1 hw
    simp only [tokens, List.flatMap_cons, List.flatMap_append, List.append_assoc]
    rw [Token.scanAll_sign .openArray rfl nofun,
      Json.scanAll_write hv (stops_furtherElements elements), Json.scanAll_furtherElements he]
    simp only [List.cons_append, List.append_assoc]
  | .object ((name, value) :: members), rest, hw, _ => by
    obtain ⟨hv, hm⟩ := Bool.and_eq_true_iff.1 hw
    simp only [tokens, List.flatMap_cons, List.flatMap_append, List.append_assoc]
    rw [Token.scanAll_sign .openObject rfl nofun, Token.scanAll_sign (.text name) rfl nofun,
      Token.scanAll_sign .colon rfl nofun, Json.scanAll_write hv (stops_furtherMembers members),
      Json.scanAll_furtherMembers hm]
    simp only [List.cons_append, List.append_assoc]

theorem Json.scanAll_furtherElements : ∀ {elements : List Json} {rest : List Char},
    elementsWhole elements = true →
      Token.scanAll ((furtherElements elements).flatMap Token.write ++ rest) =
        furtherElements elements ++ Token.scanAll rest
  | [], _, _ => by
    simp only [furtherElements, List.flatMap_singleton]
    exact Token.scanAll_sign .closeArray rfl nofun
  | value :: elements, rest, hw => by
    obtain ⟨hv, he⟩ := Bool.and_eq_true_iff.1 hw
    simp only [furtherElements, List.flatMap_cons, List.flatMap_append, List.append_assoc]
    rw [Token.scanAll_sign .comma rfl nofun,
      Json.scanAll_write hv (stops_furtherElements elements), Json.scanAll_furtherElements he]
    simp only [List.cons_append, List.append_assoc]

theorem Json.scanAll_furtherMembers : ∀ {members : List (Option String × Json)}
    {rest : List Char}, membersWhole members = true →
      Token.scanAll ((furtherMembers members).flatMap Token.write ++ rest) =
        furtherMembers members ++ Token.scanAll rest
  | [], _, _ => by
    simp only [furtherMembers, List.flatMap_singleton]
    exact Token.scanAll_sign .closeObject rfl nofun
  | (name, value) :: members, rest, hw => by
    obtain ⟨hv, hm⟩ := Bool.and_eq_true_iff.1 hw
    simp only [furtherMembers, List.flatMap_cons, List.flatMap_append, List.append_assoc]
    rw [Token.scanAll_sign .comma rfl nofun, Token.scanAll_sign (.text name) rfl nofun,
      Token.scanAll_sign .colon rfl nofun, Json.scanAll_write hv (stops_furtherMembers members),
      Json.scanAll_furtherMembers hm]
    simp only [List.cons_append, List.append_assoc]

end

theorem Json.begin_array (hw : value.isWhole = true) :
    begin stack (.openArray :: (value.tokens ++ tokens)) =
      begin (.array [] :: stack) (value.tokens ++ tokens) := by
  cases value with
  | array elements => cases elements <;> rfl
  | object members => cases members <;> rfl
  | fault => cases hw
  | _ => rfl

mutual

/-- Reading the tokens of a value completes it. -/
theorem Json.begin_tokens : ∀ {value : Json} {stack : List Frame} {rest : List Token},
    value.isWhole = true → begin stack (value.tokens ++ rest) = complete value stack rest
  | .null, _, _, _ | .bool _, _, _, _ | .text _, _, _, _ | .numeral _, _, _, _ => rfl
  | .array [], _, _, _ | .object [], _, _, _ => rfl
  | .array (value :: elements), stack, rest, hw => by
    obtain ⟨hv, he⟩ := Bool.and_eq_true_iff.1 hw
    rw [tokens, List.cons_append, List.append_assoc, begin_array hv, Json.begin_tokens hv,
      Json.complete_furtherElements he]
    rfl
  | .object ((name, value) :: members), stack, rest, hw => by
    obtain ⟨hv, hm⟩ := Bool.and_eq_true_iff.1 hw
    simp only [tokens, List.cons_append, List.append_assoc, begin]
    rw [Json.begin_tokens hv, Json.complete_furtherMembers hm]
    rfl

theorem Json.complete_furtherElements : ∀ {elements done : List Json} {value : Json}
    {stack : List Frame} {rest : List Token}, elementsWhole elements = true →
      complete value (.array done :: stack) (furtherElements elements ++ rest) =
        complete (.array (done.reverse ++ value :: elements)) stack rest
  | [], _, _, _, _, _ => rfl
  | next :: elements, done, value, stack, rest, hw => by
    obtain ⟨hv, he⟩ := Bool.and_eq_true_iff.1 hw
    simp only [furtherElements, List.cons_append, List.append_assoc, complete]
    rw [Json.begin_tokens hv, Json.complete_furtherElements he, List.reverse_cons,
      List.append_assoc, List.singleton_append]

theorem Json.complete_furtherMembers : ∀ {members done : List (Option String × Json)}
    {name : Option String} {value : Json} {stack : List Frame} {rest : List Token},
    membersWhole members = true →
      complete value (.object done name :: stack) (furtherMembers members ++ rest) =
        complete (.object (done.reverse ++ (name, value) :: members)) stack rest
  | [], _, _, _, _, _, _ => rfl
  | (next, inner) :: members, done, name, value, stack, rest, hw => by
    obtain ⟨hv, hm⟩ := Bool.and_eq_true_iff.1 hw
    simp only [furtherMembers, List.cons_append, List.append_assoc, complete]
    rw [Json.begin_tokens hv, Json.complete_furtherMembers hm, List.reverse_cons,
      List.append_assoc, List.singleton_append]

end

/-- A value is read back from its text with nothing left over. -/
theorem Json.read_write (hw : value.isWhole = true) : read value.write = (value, []) := by
  have hend : Token.scanAll [] = [] := by
    rw [Token.scanAll]
    rfl
  have hscan : Token.scanAll (value.write ++ []) = value.tokens ++ Token.scanAll [] :=
    scanAll_write hw trivial
  have hbegin : begin [] (value.tokens ++ []) = complete value [] [] := begin_tokens hw
  rw [hend, List.append_nil, List.append_nil] at hscan
  rw [List.append_nil] at hbegin
  rw [read, hscan, ofTokens, hbegin]
  rfl

end Eligibility
