import Eligibility.Proofs.Recognition
import Mathlib.Algebra.Group.Nat.Defs

namespace Eligibility
set_option autoImplicit true

/-- The number of comparisons in the rule. -/
def Rule.operandCount : Rule → Nat
  | .operand .. => 1
  | .operator _ left right => left.operandCount + right.operandCount

/-- A number that is not above the limit. -/
def within? (limit n : Nat) : Option Nat :=
  if n ≤ limit then some n else none

/-- Counts the nodes in numbers up to a limit: there is no count where a sum on the way to it would
be above the limit. -/
def Rule.countWithin? (limit : Nat) : Rule → Option Nat
  | .operand .. => within? limit 1
  | .operator _ left right => do
    let count ← within? limit (1 + (← left.countWithin? limit))
    within? limit (count + (← right.countWithin? limit))

/-- The rule with that many levels of connectives in which no operand is missing. -/
def Rule.complete : Nat → Rule
  | 0 => .operand "a" .equal (.number 1)
  | levels + 1 => .operator .and (complete levels) (complete levels)

/-- The text has the bytes that a text of the rule needs: two for each node, and one more. -/
def HasBytesFor (rule : Rule) (text : List Char) : Prop :=
  2 * rule.nodeCount + 1 ≤ utf8Length text

variable {limit m n : Nat} {text left right blanks blanks' : List Char} {rule l r : Rule}

theorem within?_of_le (h : n ≤ limit) : within? limit n = some n :=
  if_pos h

theorem within?_of_lt (h : limit < n) : within? limit n = none :=
  if_neg (Nat.not_le_of_lt h)

/-- What fails on a number above the limit need not look at the limit first. -/
theorem within?_bind {f : Nat → Option α} (hf : limit < n → f n = none) :
    (within? limit n).bind f = f n := by
  by_cases h : n ≤ limit
  · rw [within?_of_le h, Option.bind_some]
  · rw [within?_of_lt (Nat.lt_of_not_le h), hf (Nat.lt_of_not_le h), Option.bind_none]

theorem Rule.nodeCount_add_one (rule : Rule) : rule.nodeCount + 1 = 2 * rule.operandCount := by
  induction rule with
  | operand => rfl
  | operator c l r ihl ihr =>
    simp only [nodeCount, operandCount]
    omega

/-- The count fails only where the number of nodes itself is above the limit. -/
theorem Rule.countWithin?_eq (limit : Nat) (rule : Rule) :
    rule.countWithin? limit = within? limit rule.nodeCount := by
  induction rule with
  | operand => rfl
  | operator c l r ihl ihr =>
    have hr : (within? limit r.nodeCount).bind (fun right =>
        within? limit (1 + l.nodeCount + right)) = within? limit (1 + l.nodeCount + r.nodeCount) :=
      within?_bind fun h => within?_of_lt (by omega)
    have hsum : (within? limit (1 + l.nodeCount)).bind (fun count =>
        (within? limit r.nodeCount).bind fun right => within? limit (count + right)) =
          within? limit (1 + l.nodeCount + r.nodeCount) :=
      (within?_bind fun h => hr.trans (within?_of_lt (by omega))).trans hr
    simp only [countWithin?, nodeCount, ihl, ihr, Option.bind_eq_bind]
    exact (within?_bind fun h => hsum.trans (within?_of_lt (by omega))).trans hsum

theorem Rule.depth_complete (levels : Nat) : (complete levels).depth = levels + 1 := by
  induction levels with
  | zero => rfl
  | succ levels ih => rw [complete, depth, ih, Nat.max_self]

theorem Rule.nodeCount_complete (levels : Nat) :
    (complete levels).nodeCount + 1 = 2 ^ (levels + 1) := by
  induction levels with
  | zero => rfl
  | succ levels ih =>
    rw [complete, nodeCount, Nat.pow_succ, ← ih]
    omega

theorem one_le_utf8Length (h : text ≠ []) : 1 ≤ utf8Length text :=
  Nat.le_trans (List.length_pos_iff.2 h) (length_le_utf8Length text)

theorem IsLiteral.ne_nil (h : IsLiteral text value) : text ≠ [] := by
  cases h with
  | text => exact List.cons_ne_nil _ _
  | number hne => exact hne

theorem IsComparison.hasBytesFor (h : IsComparison text rule) : HasBytesFor rule text := by
  obtain ⟨c, hb, hn, hb', hs, hb'', hl⟩ := h
  have hname := one_le_utf8Length hn.1
  have hcomparator := one_le_utf8Length c.chars_ne_nil
  have hliteral := one_le_utf8Length hl.ne_nil
  simp only [HasBytesFor, Rule.nodeCount, utf8Length_append]
  omega

theorem HasBytesFor.chain (hl : HasBytesFor l left) (c : Comparator) (hr : HasBytesFor r right) :
    HasBytesFor (.operator c l r) (left ++ (blanks ++ (c.chars ++ right))) := by
  have hc := one_le_utf8Length c.chars_ne_nil
  simp only [HasBytesFor, Rule.nodeCount, utf8Length_append] at hl hr ⊢
  omega

theorem HasBytesFor.enclosed (h : HasBytesFor rule text) :
    HasBytesFor rule (blanks ++ '(' :: (text ++ (blanks' ++ [')']))) := by
  simp only [HasBytesFor, utf8Length, utf8Length_append] at h ⊢
  omega

mutual

theorem IsExpression.hasBytesFor {text : List Char} {rule : Rule} :
    IsExpression text rule nesting → HasBytesFor rule text
  | .term h => h.hasBytesFor
  | .chain c hl _ hr => hl.hasBytesFor.chain c hr.hasBytesFor

theorem IsTerm.hasBytesFor {text : List Char} {rule : Rule} :
    IsTerm text rule nesting → HasBytesFor rule text
  | .comparison h => h.hasBytesFor
  | .enclosed _ h _ => h.hasBytesFor.enclosed

end

theorem Derives.hasBytesFor (h : Derives text rule) : HasBytesFor rule text := by
  obtain ⟨-, nesting, -, expression, blanks, rfl, he, -⟩ := h
  have hb := he.hasBytesFor
  rw [HasBytesFor, utf8Length_append]
  exact Nat.le_add_right_of_le hb

/-- A text has more than two bytes for each node of its rule. So wherever its length can be counted
in bytes its nodes can be counted too, although there are trees of the same depth with more nodes
than any text has bytes. -/
theorem Rule.nodeCount_of_parse {text : String} (h : parse text = .ok rule) :
    2 * rule.nodeCount + 1 ≤ text.utf8ByteSize ∧
      rule.nodeCount = 2 * rule.operandCount - 1 ∧
      (∀ limit, text.utf8ByteSize ≤ limit → rule.countWithin? limit = some rule.nodeCount) ∧
      ∃ tree : Rule, tree.depth = maxDepth ∧ tree.nodeCount = 2 ^ maxDepth - 1 ∧
        tree.countWithin? (2 ^ 64 - 1) = none := by
  have hbytes := (derives_of_parse h).hasBytesFor
  rw [HasBytesFor, utf8Length_eq_utf8ByteSize, String.ofList_toList] at hbytes
  have hcount := rule.nodeCount_add_one
  have htree : (complete 99).nodeCount + 1 = 2 ^ maxDepth := nodeCount_complete 99
  refine ⟨hbytes, by omega, ?_, complete 99, depth_complete 99, Nat.eq_sub_of_add_eq htree, ?_⟩
  · intro limit hl
    rw [countWithin?_eq]
    exact within?_of_le (by omega)
  · rw [countWithin?_eq]
    apply within?_of_lt
    rw [maxDepth] at htree
    omega

/-- A chain of comparisons that are as short as they can be leaves no byte over. -/
theorem Rule.nodeCount_of_parse_chain :
    let tree : Rule := .operator .equal (.operand "a" .equal (.number 1))
      (.operand "b" .equal (.number 1))
    parse "a=1=b=1" = .ok tree ∧ 2 * tree.nodeCount + 1 = "a=1=b=1".utf8ByteSize ∧
      tree.nodeCount = 2 * tree.operandCount - 1 ∧ tree.countWithin? 7 = some 3 := by
  intro tree
  have hp : parse "a=1=b=1" = .ok tree := by decide +kernel
  obtain ⟨hbytes, hcount, hlimit, -⟩ := nodeCount_of_parse hp
  have hsize : "a=1=b=1".utf8ByteSize = 7 := by decide
  refine ⟨hp, Nat.le_antisymm hbytes ?_, hcount, hlimit 7 (Nat.le_of_eq hsize)⟩
  rw [hsize]
  exact Nat.le_refl 7

end Eligibility
