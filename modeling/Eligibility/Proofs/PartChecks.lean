import Eligibility.Proofs.Decoding
import Eligibility.Rule.Codec

namespace Eligibility
set_option autoImplicit true

variable {room : Nat} {value : Json} {elements : List Json}

/-- Two checks in a row: what does not have room for both is malformed. -/
theorem Decoded.check_max (m n room : Nat) :
    ((if m < room then .ok () else .error .malformed : Decoded Unit) >>= fun _ =>
      if n < room then .ok () else .error .malformed) =
        if max m n < room then .ok () else .error .malformed := by
  by_cases hm : m < room
  · simp only [hm, if_true, Decoded.ok_bind, Nat.max_lt, true_and]
  · rw [if_neg hm, if_neg fun h => hm (Nat.max_lt.1 h).1]
    rfl

/-- An array or an object takes up one level. -/
theorem Decoded.check_succ {check : Nat → Decoded Unit} (hr : 0 < room)
    (h : ∀ {room}, 0 < room → check room = if n < room then .ok () else .error .malformed) :
    (if room ≤ 1 then .error .malformed else check (room - 1)) =
      if n + 1 < room then .ok () else .error .malformed := by
  by_cases hroom : room ≤ 1
  · rw [if_pos hroom, if_neg (by omega)]
  · have hless : n < room - 1 ↔ n + 1 < room := by omega
    rw [if_neg hroom, h (by omega)]
    simp only [hless]

mutual

/-- A readable value is accepted if there is room for it, and only then. -/
theorem Json.checkPart_of_isReadable : ∀ {value : Json} {room : Nat}, value.isReadable = true →
    0 < room → value.checkPart room =
      if value.nesting < room then .ok () else .error .malformed
  | .null, _, _, hr | .bool _, _, _, hr | .text (some _), _, _, hr => (if_pos hr).symm
  | .numeral n, _, h, hr => by
    have hn : n.overflows = false := Bool.not_eq_true' n.overflows ▸ h
    rw [checkPart, hn]
    exact (if_pos hr).symm
  | .array _, _, h, hr => Decoded.check_succ hr fun hr => Json.checkElements_of_readable h hr
  | .object _, _, h, hr => Decoded.check_succ hr fun hr => Json.checkMembers_of_readable h hr

theorem Json.checkElements_of_readable : ∀ {elements : List Json} {room : Nat},
    elementsReadable elements = true → 0 < room → checkElements room elements =
      if elementsNesting elements < room then .ok () else .error .malformed
  | [], _, _, hr => (if_pos hr).symm
  | value :: elements, room, h, hr => by
    obtain ⟨hv, he⟩ := Bool.and_eq_true_iff.1 h
    rw [checkElements, checkPart_of_isReadable hv hr, checkElements_of_readable he hr]
    exact Decoded.check_max _ _ room

theorem Json.checkMembers_of_readable : ∀ {members : List (Option String × Json)} {room : Nat},
    membersReadable members = true → 0 < room → checkMembers room members =
      if membersNesting members < room then .ok () else .error .malformed
  | [], _, _, hr => (if_pos hr).symm
  | (some _, value) :: members, room, h, hr => by
    obtain ⟨hv, hm⟩ := Bool.and_eq_true_iff.1 h
    rw [checkMembers, checkPart_of_isReadable hv hr, checkMembers_of_readable hm hr]
    exact Decoded.check_max _ _ room

end

mutual

theorem Json.isReadable_of_checkPart : ∀ {value : Json} {room : Nat},
    value.checkPart room = .ok () → value.isReadable = true
  | .null, _, _ | .bool _, _, _ | .text (some _), _, _ => rfl
  | .numeral n, _, h => by
    rw [checkPart] at h
    split at h
    · cases h
    · rename_i hn
      rw [isReadable, Bool.eq_false_iff.2 hn]
      rfl
  | .array elements, _, h => by
    rw [checkPart] at h
    split at h
    · cases h
    · exact Json.readable_of_checkElements h
  | .object members, _, h => by
    rw [checkPart] at h
    split at h
    · cases h
    · exact Json.readable_of_checkMembers h

theorem Json.readable_of_checkElements : ∀ {elements : List Json} {room : Nat},
    checkElements room elements = .ok () → elementsReadable elements = true
  | [], _, _ => rfl
  | _ :: _, _, h => by
    obtain ⟨_, hv, he⟩ := Decoded.bind_eq_ok.1 h
    exact Bool.and_eq_true_iff.2 ⟨isReadable_of_checkPart hv, readable_of_checkElements he⟩

theorem Json.readable_of_checkMembers : ∀ {members : List (Option String × Json)} {room : Nat},
    checkMembers room members = .ok () → membersReadable members = true
  | [], _, _ => rfl
  | (some _, _) :: _, _, h => by
    obtain ⟨_, hv, hm⟩ := Decoded.bind_eq_ok.1 h
    exact Bool.and_eq_true_iff.2 ⟨isReadable_of_checkPart hv, readable_of_checkMembers hm⟩

end

theorem Decoded.check_eq_ok : (if n < room then .ok () else .error .malformed : Decoded Unit) =
    .ok () ↔ n < room := by
  split
  · rename_i h
    exact iff_of_true rfl h
  · rename_i h
    exact iff_of_false nofun h

theorem Json.checkPart_eq_ok (hr : 0 < room) :
    value.checkPart room = .ok () ↔ value.nesting < room ∧ value.isReadable = true := by
  constructor
  · intro h
    have hv := isReadable_of_checkPart h
    rw [checkPart_of_isReadable hv hr] at h
    exact ⟨Decoded.check_eq_ok.1 h, hv⟩
  · rintro ⟨hn, hv⟩
    rw [checkPart_of_isReadable hv hr, if_pos hn]

theorem Json.elements_checked_iff (hr : 0 < room) :
    elementsNesting elements < room ∧ elementsReadable elements = true ↔
      checkElements room elements = .ok () := by
  constructor
  · rintro ⟨hn, he⟩
    rw [checkElements_of_readable he hr, if_pos hn]
  · intro h
    have he := readable_of_checkElements h
    rw [checkElements_of_readable he hr] at h
    exact ⟨Decoded.check_eq_ok.1 h, he⟩

end Eligibility
