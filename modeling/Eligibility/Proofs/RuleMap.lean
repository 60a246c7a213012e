import Eligibility.Proofs.Journal
import Mathlib.Data.List.Nodup
import Mathlib.Data.List.Perm.Basic

namespace Eligibility
set_option autoImplicit true

/-- No id stands twice in the map. -/
def DistinctKeys (rules : List (UInt64 × Entry)) : Prop :=
  (rules.map Prod.fst).Nodup

/-- Every entry stands under its own id. -/
structure Book.IsKeyed (book : Book) : Prop where
  distinct : DistinctKeys book.rules
  key : ∀ rule ∈ book.rules, rule.2.id = rule.1

/-- The two books have the same map, with its rules in any order, and hand out the same id next. -/
structure Book.SameRules (book other : Book) : Prop where
  keyed : book.IsKeyed
  rules : book.rules.Perm other.rules
  nextId : book.nextId = other.nextId

variable {rules rules' : List (UInt64 × Entry)} {id : UInt64} {entry : Entry}
  {rule : UInt64 × Entry} {book other : Book} {entries : List Entry}

theorem mem_of_lookup (h : rules.lookup id = some entry) : (id, entry) ∈ rules := by
  obtain ⟨before, after, rfl, -⟩ := List.lookup_eq_some_iff.1 h
  exact List.mem_append_right _ List.mem_cons_self

theorem lookup_eq_some_iff (h : DistinctKeys rules) :
    rules.lookup id = some entry ↔ (id, entry) ∈ rules := by
  constructor
  · exact mem_of_lookup
  · intro hm
    obtain ⟨before, after, rfl⟩ := List.append_of_mem hm
    unfold DistinctKeys at h
    rw [List.map_append, List.map_cons, List.nodup_append] at h
    apply List.lookup_eq_some_iff.2 ⟨before, after, rfl, ?_⟩
    intro rule hr
    exact bne_iff_ne.2 (h.2.2 _ (List.mem_map_of_mem hr) _ List.mem_cons_self).symm

/-- The older entry of the same id is gone. -/
theorem mem_insertRule (h : DistinctKeys rules) : rule ∈ insertRule id entry rules ↔
    rule = (id, entry) ∨ rule ∈ rules ∧ rule.1 ≠ id := by
  induction rules with
  | nil => simp only [insertRule, List.mem_singleton, List.not_mem_nil, false_and, or_false]
  | cons first rest ih =>
    obtain ⟨hfirst, hrest⟩ := List.nodup_cons.1 h
    rw [insertRule]
    split
    case isTrue hk =>
      have hne (hm : rule ∈ rest) : rule.1 ≠ id := by
        intro he
        rw [hk, ← he] at hfirst
        exact hfirst (List.mem_map_of_mem hm)
      rw [List.mem_cons, List.mem_cons]
      grind
    case isFalse hk =>
      rw [List.mem_cons, ih hrest, List.mem_cons]
      grind

theorem DistinctKeys.insertRule (h : DistinctKeys rules) (id : UInt64) (entry : Entry) :
    DistinctKeys (insertRule id entry rules) := by
  induction rules with
  | nil => exact List.nodup_singleton id
  | cons first rest ih =>
    obtain ⟨hfirst, hrest⟩ := List.nodup_cons.1 h
    rw [Eligibility.insertRule]
    split
    case isTrue hk =>
      rw [hk] at hfirst
      exact List.nodup_cons.2 ⟨hfirst, hrest⟩
    case isFalse hk =>
      apply List.nodup_cons.2 ⟨_, ih hrest⟩
      intro hm
      obtain ⟨rule, hr, he⟩ := List.mem_map.1 hm
      obtain rfl | ⟨hr, -⟩ := (mem_insertRule hrest).1 hr
      · exact hk he.symm
      · rw [← he] at hfirst
        exact hfirst (List.mem_map_of_mem hr)

/-- Behind a new id nothing changes its place. -/
theorem insertRule_eq_append (h : id ∉ rules.map Prod.fst) :
    insertRule id entry rules = rules ++ [(id, entry)] := by
  induction rules with
  | nil => rfl
  | cons first rest ih =>
    rw [List.map_cons, List.mem_cons, not_or] at h
    rw [insertRule, if_neg (Ne.symm h.1), ih h.2, List.cons_append]

theorem DistinctKeys.sublist (h : DistinctKeys rules) (hs : rules'.Sublist rules) :
    DistinctKeys rules' :=
  List.Nodup.sublist (hs.map Prod.fst) h

theorem DistinctKeys.perm (h : DistinctKeys rules) (hp : rules.Perm rules') :
    DistinctKeys rules' :=
  (hp.map Prod.fst).nodup_iff.1 h

theorem lookup_perm (h : DistinctKeys rules) (hp : rules.Perm rules') (id : UInt64) :
    rules.lookup id = rules'.lookup id := by
  ext entry
  rw [lookup_eq_some_iff h, lookup_eq_some_iff (h.perm hp), hp.mem_iff]

theorem insertRule_perm (h : DistinctKeys rules) (hp : rules.Perm rules') (id : UInt64)
    (entry : Entry) : (insertRule id entry rules).Perm (insertRule id entry rules') := by
  have hrules := List.Nodup.of_map Prod.fst (h.insertRule id entry)
  have hrules' := List.Nodup.of_map Prod.fst ((h.perm hp).insertRule id entry)
  apply (List.perm_ext_iff_of_nodup hrules hrules').2
  intro rule
  rw [mem_insertRule h, mem_insertRule (h.perm hp), hp.mem_iff]

theorem Book.IsKeyed.empty : Book.empty.IsKeyed :=
  ⟨List.nodup_nil, fun _ h => absurd h List.not_mem_nil⟩

theorem Book.mem_list : entry ∈ book.list ↔ ∃ id, (id, entry) ∈ book.rules := by
  rw [list, List.mem_mergeSort, List.mem_map]
  constructor
  · rintro ⟨rule, hr, rfl⟩
    exact ⟨rule.1, hr⟩
  · rintro ⟨id, hr⟩
    exact ⟨(id, entry), hr, rfl⟩

theorem Book.IsKeyed.mem_list (h : book.IsKeyed) :
    entry ∈ book.list ↔ (entry.id, entry) ∈ book.rules := by
  rw [Book.mem_list]
  constructor
  · rintro ⟨id, hr⟩
    rwa [h.key _ hr]
  · intro hr
    exact ⟨entry.id, hr⟩

theorem Book.IsKeyed.get?_eq_some_iff (h : book.IsKeyed) :
    book.get? id = some entry ↔ entry ∈ book.list ∧ entry.id = id := by
  rw [get?, lookup_eq_some_iff h.distinct, h.mem_list]
  constructor
  · intro hr
    have hid : entry.id = id := h.key _ hr
    rw [hid]
    exact ⟨hr, rfl⟩
  · rintro ⟨hr, rfl⟩
    exact hr

theorem Book.length_list (book : Book) : book.list.length = book.size := by
  rw [list, List.length_mergeSort, List.length_map, size]

theorem Book.IsKeyed.ids_eq (h : book.IsKeyed) :
    (book.rules.map Prod.snd).map Entry.id = book.rules.map Prod.fst := by
  rw [List.map_map]
  exact List.map_congr_left h.key

/-- The sort makes the ids ascend, whatever the order of the map. -/
theorem Book.IsKeyed.list_ascending (h : book.IsKeyed) :
    book.list.Pairwise fun a b => a.id < b.id := by
  have hsorted : book.list.Pairwise fun a b => decide (a.id ≤ b.id) = true := by
    apply List.pairwise_mergeSort
    · intro a b c hab hbc
      exact decide_eq_true (UInt64.le_trans (of_decide_eq_true hab) (of_decide_eq_true hbc))
    · intro a b
      rw [Bool.or_eq_true, decide_eq_true_iff, decide_eq_true_iff]
      exact UInt64.le_total _ _
  have hdistinct : book.list.Pairwise fun a b => a.id ≠ b.id := by
    apply List.pairwise_map.1
    apply ((List.mergeSort_perm _ _).map Entry.id).nodup_iff.2
    rw [h.ids_eq]
    exact h.distinct
  apply (hsorted.and hdistinct).imp
  intro a b hab
  exact UInt64.lt_of_le_of_ne (of_decide_eq_true hab.1) hab.2

/-- There is one ascending order. -/
theorem Book.IsKeyed.list_eq (h : book.IsKeyed) (hp : (book.rules.map Prod.snd).Perm entries)
    (ha : entries.Pairwise fun a b => a.id < b.id) : book.list = entries := by
  apply List.Perm.eq_of_pairwise _ h.list_ascending ha ((List.mergeSort_perm _ _).trans hp)
  intro a b _ _ hab hba
  exact absurd hba (UInt64.lt_asymm hab)

/-- What one operation can do to a map: it leaves rules out, or it puts a new one in. -/
theorem Book.perform_cases (book : Book) (operation : Operation) :
    ((book.perform operation).1.created? = none ∧
      (book.perform operation).2.rules.Sublist book.rules) ∨
    (∃ entry, operation = .create entry.name entry.text ∧
      Rule.parse entry.text = .ok entry.rule ∧
      book.perform operation =
        (.created entry, ⟨insertRule entry.id entry book.rules, book.nextId + 1⟩)) := by
  cases operation with
  | create name text =>
    cases hp : Rule.parse text with
    | ok rule =>
      refine .inr ⟨⟨book.nextId, name, text, rule⟩, rfl, hp, ?_⟩
      simp only [perform, create, hp]
    | error error =>
      simp only [perform, create, hp]
      exact .inl ⟨rfl, List.Sublist.refl _⟩
  | get id => exact .inl ⟨rfl, List.Sublist.refl _⟩
  | list => exact .inl ⟨rfl, List.Sublist.refl _⟩
  | evaluate id record =>
    left
    simp only [perform]
    split
    · exact ⟨rfl, List.Sublist.refl _⟩
    · exact ⟨rfl, List.Sublist.refl _⟩
  | delete id =>
    left
    cases hg : book.get? id with
    | none =>
      simp only [perform, delete, hg]
      exact ⟨rfl, List.Sublist.refl _⟩
    | some entry =>
      simp only [perform, delete, hg]
      exact ⟨rfl, List.filter_sublist⟩

theorem Book.IsKeyed.perform (h : book.IsKeyed) (operation : Operation) :
    (book.perform operation).2.IsKeyed := by
  obtain ⟨-, hsub⟩ | ⟨entry, -, -, hb⟩ := book.perform_cases operation
  · exact ⟨h.distinct.sublist hsub, fun rule hr => h.key rule (hsub.subset hr)⟩
  · rw [hb]
    refine ⟨h.distinct.insertRule _ _, ?_⟩
    intro rule hr
    obtain rfl | ⟨hr, -⟩ := (mem_insertRule h.distinct).1 hr
    · rfl
    · exact h.key rule hr

theorem Book.SameRules.get? (h : book.SameRules other) (id : UInt64) :
    book.get? id = other.get? id :=
  lookup_perm h.keyed.distinct h.rules id

theorem Book.SameRules.list (h : book.SameRules other) : book.list = other.list := by
  have hkeyed : other.IsKeyed :=
    ⟨h.keyed.distinct.perm h.rules, fun rule hr => h.keyed.key rule (h.rules.mem_iff.2 hr)⟩
  apply h.keyed.list_eq _ hkeyed.list_ascending
  exact (h.rules.map Prod.snd).trans (List.mergeSort_perm _ _).symm

/-- One operation is answered alike whatever the order of the map. -/
theorem Book.SameRules.perform (h : book.SameRules other) (operation : Operation) :
    (book.perform operation).1 = (other.perform operation).1 ∧
      (book.perform operation).2.SameRules (other.perform operation).2 := by
  have hkeyed := h.keyed.perform operation
  cases operation with
  | create name text =>
    cases hp : Rule.parse text with
    | error error =>
      simp only [Book.perform, Book.create, hp, true_and]
      exact h
    | ok rule =>
      simp only [Book.perform, Book.create, hp] at hkeyed ⊢
      rw [h.nextId] at hkeyed ⊢
      exact ⟨rfl, hkeyed, insertRule_perm h.keyed.distinct h.rules _ _, rfl⟩
  | get id =>
    simp only [Book.perform, h.get?, true_and]
    exact h
  | list =>
    simp only [Book.perform, h.list, true_and]
    exact h
  | evaluate id record =>
    simp only [Book.perform, Book.evaluate, h.get?]
    cases other.get? id with
    | none => exact ⟨rfl, h⟩
    | some entry =>
      dsimp only
      cases entry.rule.evaluate record with
      | ok value => exact ⟨rfl, h⟩
      | error error => exact ⟨rfl, h⟩
  | delete id =>
    simp only [Book.perform, Book.delete, h.get?] at hkeyed ⊢
    cases hg : other.get? id with
    | none => exact ⟨rfl, h⟩
    | some entry =>
      rw [hg] at hkeyed
      exact ⟨rfl, hkeyed, h.rules.filter _, h.nextId⟩

/-- So is a whole run. -/
theorem Book.SameRules.run (h : book.SameRules other) (operations : List Operation) :
    (book.run operations).1 = (other.run operations).1 ∧
      (book.run operations).2.SameRules (other.run operations).2 := by
  induction operations generalizing book other with
  | nil => exact ⟨rfl, h⟩
  | cons operation rest ih =>
    obtain ⟨hanswer, h⟩ := h.perform operation
    obtain ⟨hanswers, h⟩ := ih h
    exact ⟨List.cons_eq_cons.2 ⟨hanswer, hanswers⟩, h⟩

end Eligibility
