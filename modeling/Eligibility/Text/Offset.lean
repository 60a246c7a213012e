namespace Eligibility

/-- The number of bytes that the characters take in UTF-8. -/
def utf8Length : List Char → Nat
  | [] => 0
  | c :: rest => c.utf8Size + utf8Length rest

theorem utf8Length_append (left right : List Char) :
    utf8Length (left ++ right) = utf8Length left + utf8Length right := by
  induction left with
  | nil => simp only [List.nil_append, utf8Length, Nat.zero_add]
  | cons c rest ih => simp only [List.cons_append, utf8Length, ih, Nat.add_assoc]

theorem utf8Length_eq_utf8ByteSize (input : List Char) :
    utf8Length input = (String.ofList input).utf8ByteSize := by
  induction input with
  | nil => rfl
  | cons c rest ih =>
    rw [utf8Length, ih, String.ofList_cons, String.utf8ByteSize_append,
      String.utf8ByteSize_singleton]

theorem length_le_utf8Length (input : List Char) : input.length ≤ utf8Length input := by
  induction input with
  | nil => exact Nat.le_refl _
  | cons c rest ih =>
    have := c.utf8Size_pos
    simp only [List.length_cons, utf8Length]
    omega

end Eligibility
