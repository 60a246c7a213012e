import Eligibility.Proofs.Nesting
import Eligibility.Proofs.RoundTrip

namespace Eligibility
set_option autoImplicit true

/-- The text is accepted as the rule if it keeps the limits and rejected for its depth if not. -/
def Rule.ParsesWithin (fits : Prop) (text : String) (rule : Rule) : Prop :=
  (fits → parse text = .ok rule) ∧
    (¬ fits → ∃ error, parse text = .error error ∧ error.reason = .nestedTooDeeply ∧
      error.reason.message = "rule nested too deeply")

/-- The text is that of one comparison and has no parentheses. -/
def Rule.ParsesAlone (text : String) (rule : Rule) : Prop :=
  parse text = .ok rule ∧ rule.depth = 1 ∧ parenthesisDepth text = 0

/-- A text with further ones behind it, each after a connective. -/
def chainText (first : String) (links : List (Comparator × String × Rule)) : String :=
  links.foldl (fun text (c, other, _) => text ++ " " ++ c.lexeme ++ " " ++ other) first

/-- A rule joined from the left with further ones. -/
def Rule.chain (first : Rule) (links : List (Comparator × String × Rule)) : Rule :=
  links.foldl (fun rule (c, _, other) => .operator c rule other) first

variable {text right blanks : List Char} {first second : String} {rule l r : Rule}
variable {links : List (Comparator × String × Rule)}

theorem IsRuleText.parsesWithin {text : String} (h : IsRuleText text.toList rule n)
    (hf : fits ↔ Fits maxDepth rule n) : rule.ParsesWithin fits text := by
  constructor
  · intro hfits
    exact h.parse.1 (hf.1 hfits)
  · intro hdeep
    obtain ⟨position, he⟩ := h.parse.2 (hdeep ∘ hf.2)
    exact ⟨_, he, rfl, rfl⟩

/-- A rule text may be followed by a connective and a term. -/
theorem IsRuleText.join (h : IsRuleText text l m) (c : Comparator) (hr : IsTerm right r n)
    (hb : IsBlanks blanks) :
    IsRuleText (text ++ ' ' :: (c.chars ++ (right ++ blanks))) (.operator c l r) (max m n) := by
  obtain ⟨expression, blanks', rfl, he, hb'⟩ := h
  have hj := IsExpression.chain c he (hb'.append .space) hr
  refine ⟨_, blanks, ?_, hj, hb⟩
  simp only [List.append_assoc, List.cons_append, List.nil_append]

theorem IsRuleText.enclosed (h : IsRuleText text rule n) :
    IsTerm (' ' :: '(' :: (text ++ [')'])) rule (n + 1) := by
  obtain ⟨expression, blanks, rfl, he, hb⟩ := h
  have ht := IsTerm.enclosed .space he hb
  rwa [← List.append_assoc] at ht

theorem IsExpression.term_of_depth (h : IsExpression text rule n) (hd : rule.depth = 1) :
    IsTerm text rule n := by
  cases h with
  | term h => exact h
  | @chain left l m _ right r k c hl hb hr =>
    have hl := l.one_le_depth
    simp only [Rule.depth] at hd
    omega

theorem Rule.ParsesAlone.term (h : rule.ParsesAlone first) :
    ∃ text blanks, first.toList = text ++ blanks ∧ IsTerm text rule 0 ∧ IsBlanks blanks := by
  obtain ⟨hp, hd, hn⟩ := h
  obtain ⟨-, n, -, ht⟩ := derives_of_parse hp
  rw [ht.parenthesisDepth_eq] at hn
  obtain ⟨text, blanks, he, hexpr, hb⟩ := ht
  rw [hn] at hexpr
  exact ⟨text, blanks, he, hexpr.term_of_depth hd, hb⟩

theorem IsRuleText.link (h : IsRuleText first.toList l n) (c : Comparator)
    (hs : r.ParsesAlone second) :
    IsRuleText (first ++ " " ++ c.lexeme ++ " " ++ second).toList (.operator c l r) n := by
  obtain ⟨text, blanks, he, ht, hb⟩ := hs.term
  have hj := h.join c (ht.after_blanks .space) hb
  rw [Nat.max_zero] at hj
  simpa [String.toList_append, Comparator.lexeme, he] using hj

theorem IsRuleText.chain (h : IsRuleText first.toList l n)
    (hlinks : ∀ link ∈ links, link.2.2.ParsesAlone link.2.1) :
    IsRuleText (chainText first links).toList (l.chain links) n := by
  induction links generalizing first l with
  | nil => exact h
  | cons link links ih =>
    have hlink := h.link link.1 (hlinks link List.mem_cons_self)
    exact ih hlink fun other hm => hlinks other (List.mem_cons_of_mem _ hm)

theorem Rule.depth_chain (hlinks : ∀ link ∈ links, link.2.2.ParsesAlone link.2.1) (rule : Rule) :
    (rule.chain links).depth = rule.depth + links.length := by
  induction links generalizing rule with
  | nil => rfl
  | cons link links ih =>
    have hlink := (hlinks link List.mem_cons_self).2.1
    have hrule := rule.one_le_depth
    have htail := ih (fun other hm => hlinks other (List.mem_cons_of_mem _ hm))
      (.operator link.1 rule link.2.2)
    rw [chain, List.foldl_cons]
    rw [chain] at htail
    rw [htail, depth, hlink, List.length_cons]
    omega

/-- Texts compose as their rules do, up to the two limits: with the second text in parentheses,
which adds one level to the rule and one to the parentheses, or with comparisons behind the first
text, which join from the left whatever their connectives are and each add a level. -/
theorem Rule.parse_join (hf : parse first = .ok l) (hs : parse second = .ok r) (c : Comparator) :
    (operator c l r).ParsesWithin
        (l.depth < maxDepth ∧ r.depth < maxDepth ∧ parenthesisDepth second < maxDepth)
        (first ++ " " ++ c.lexeme ++ " (" ++ second ++ ")") ∧
      (r.ParsesAlone second → (operator c l r).ParsesWithin (l.depth < maxDepth)
        (first ++ " " ++ c.lexeme ++ " " ++ second)) ∧
      ∀ links : List (Comparator × String × Rule),
        (∀ link ∈ links, link.2.2.ParsesAlone link.2.1) →
        (l.chain links).ParsesWithin (l.depth + links.length ≤ maxDepth)
          (chainText first links) := by
  obtain ⟨hd, m, hm, ht⟩ := derives_of_parse hf
  have hchain : ∀ links : List (Comparator × String × Rule),
      (∀ link ∈ links, link.2.2.ParsesAlone link.2.1) →
      (l.chain links).ParsesWithin (l.depth + links.length ≤ maxDepth)
        (chainText first links) := by
    intro links hlinks
    apply (ht.chain hlinks).parsesWithin
    rw [Fits, depth_chain hlinks, and_iff_left hm]
  refine ⟨?_, ?_, hchain⟩
  · obtain ⟨hd', n, hn, ht'⟩ := derives_of_parse hs
    have hj : IsRuleText (first ++ " " ++ c.lexeme ++ " (" ++ second ++ ")").toList
        (operator c l r) (max m (n + 1)) := by
      simpa [String.toList_append, Comparator.lexeme] using ht.join c ht'.enclosed .nil
    apply hj.parsesWithin
    rw [fits_operator, Fits, Fits, ht'.parenthesisDepth_eq]
    omega
  · intro ha
    exact hchain [(c, second, r)] (List.forall_mem_singleton.2 ha)

/-- Ninety-nine comparisons fit behind a first one, the hundredth does not, and in parentheses a
chain of a hundred is too deep to be joined. -/
theorem Rule.parse_join_limits :
    let leaf : Rule := .operand "a" .equal (.number 1)
    let links (n : Nat) : List (Comparator × String × Rule) := List.replicate n (.or, "a = 1", leaf)
    parse "a = 1" = .ok leaf ∧ leaf.ParsesAlone "a = 1" ∧
      parse (chainText "a = 1" (links 99)) = .ok (leaf.chain (links 99)) ∧
      (∃ error, parse (chainText "a = 1" (links 100)) = .error error ∧
        error.reason = .nestedTooDeeply ∧ error.reason.message = "rule nested too deeply") ∧
      ∃ error, parse ("a = 1" ++ " " ++ Comparator.and.lexeme ++ " (" ++
          chainText "a = 1" (links 99) ++ ")") = .error error ∧
        error.reason = .nestedTooDeeply ∧ error.reason.message = "rule nested too deeply" := by
  intro leaf links
  have hp : parse "a = 1" = .ok leaf := by decide +kernel
  have ha : leaf.ParsesAlone "a = 1" := ⟨hp, rfl, by decide⟩
  have hlinks : ∀ n, ∀ link ∈ links n, link.2.2.ParsesAlone link.2.1 := by
    intro n link hm
    rw [List.eq_of_mem_replicate hm]
    exact ha
  have hchain := (parse_join hp hp .and).2.2
  have h99 : parse (chainText "a = 1" (links 99)) = .ok (leaf.chain (links 99)) :=
    (hchain (links 99) (hlinks 99)).1 (by decide)
  have hdepth : (leaf.chain (links 99)).depth = 100 := depth_chain (hlinks 99) leaf
  refine ⟨hp, ha, h99, (hchain (links 100) (hlinks 100)).2 (by decide), ?_⟩
  apply (parse_join hp h99 .and).1.2
  rw [hdepth]
  exact fun hf => absurd hf.2.1 (by decide)

end Eligibility
