import Eligibility.Json.Basic

namespace Eligibility
set_option autoImplicit true

mutual

/-- How deep arrays and objects stand inside one another. -/
def Json.nesting : Json → Nat
  | .array elements => elementsNesting elements + 1
  | .object members => membersNesting members + 1
  | _ => 0

def Json.elementsNesting : List Json → Nat
  | [] => 0
  | value :: rest => max value.nesting (elementsNesting rest)

def Json.membersNesting : List (Option String × Json) → Nat
  | [] => 0
  | (_, value) :: rest => max value.nesting (membersNesting rest)

end

mutual

/-- Whether the value was read to its end. -/
def Json.isWhole : Json → Bool
  | .array elements => elementsWhole elements
  | .object members => membersWhole members
  | .fault _ => false
  | _ => true

def Json.elementsWhole : List Json → Bool
  | [] => true
  | value :: rest => value.isWhole && elementsWhole rest

def Json.membersWhole : List (Option String × Json) → Bool
  | [] => true
  | (_, value) :: rest => value.isWhole && membersWhole rest

end

mutual

/-- Whether the value was read to its end, with every number within the range of a double and every
string a text. -/
def Json.isReadable : Json → Bool
  | .numeral value => !value.overflows
  | .text value => value.isSome
  | .array elements => elementsReadable elements
  | .object members => membersReadable members
  | .fault _ => false
  | _ => true

def Json.elementsReadable : List Json → Bool
  | [] => true
  | value :: rest => value.isReadable && elementsReadable rest

def Json.membersReadable : List (Option String × Json) → Bool
  | [] => true
  | (name, value) :: rest => name.isSome && value.isReadable && membersReadable rest

end

mutual

theorem Json.breach?_eq_none : ∀ {value : Json}, value.breach? = none ↔ value.isWhole = true
  | .null | .bool _ | .numeral _ | .text _ => iff_of_true rfl rfl
  | .fault _ => iff_of_false nofun nofun
  | .array _ => Json.elementsBreach?_eq_none
  | .object _ => Json.membersBreach?_eq_none

theorem Json.elementsBreach?_eq_none : ∀ {elements : List Json},
    elementsBreach? elements = none ↔ elementsWhole elements = true
  | [] => iff_of_true rfl rfl
  | _ :: _ => by
    rw [elementsBreach?, Option.or_eq_none_iff, elementsWhole, Bool.and_eq_true,
      Json.breach?_eq_none, Json.elementsBreach?_eq_none]

theorem Json.membersBreach?_eq_none : ∀ {members : List (Option String × Json)},
    membersBreach? members = none ↔ membersWhole members = true
  | [] => iff_of_true rfl rfl
  | (_, _) :: _ => by
    rw [membersBreach?, Option.or_eq_none_iff, membersWhole, Bool.and_eq_true,
      Json.breach?_eq_none, Json.membersBreach?_eq_none]

end

mutual

theorem Json.isWhole_of_isReadable : ∀ {value : Json}, value.isReadable = true →
    value.isWhole = true
  | .null, _ | .bool _, _ | .numeral _, _ | .text _, _ => rfl
  | .array _, h => Json.elementsWhole_of_readable h
  | .object _, h => Json.membersWhole_of_readable h

theorem Json.elementsWhole_of_readable : ∀ {elements : List Json},
    elementsReadable elements = true → elementsWhole elements = true
  | [], _ => rfl
  | _ :: _, h => by
    obtain ⟨hv, he⟩ := Bool.and_eq_true_iff.1 h
    exact Bool.and_eq_true_iff.2 ⟨isWhole_of_isReadable hv, elementsWhole_of_readable he⟩

theorem Json.membersWhole_of_readable : ∀ {members : List (Option String × Json)},
    membersReadable members = true → membersWhole members = true
  | [], _ => rfl
  | (_, _) :: _, h => by
    obtain ⟨hv, hm⟩ := Bool.and_eq_true_iff.1 h
    exact Bool.and_eq_true_iff.2
      ⟨isWhole_of_isReadable (Bool.and_eq_true_iff.1 hv).2, membersWhole_of_readable hm⟩

end

end Eligibility
