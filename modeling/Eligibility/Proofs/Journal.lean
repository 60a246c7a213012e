import Eligibility.Book.Operation
import Mathlib.Data.List.Pairwise

namespace Eligibility
set_option autoImplicit true

/-- A record of every rule that was ever created. The entry with the id n is the n-th one, and it
is neither moved nor overwritten: a deletion marks its id. -/
structure Journal where
  entries : List Entry
  marks : List UInt64

def Journal.empty : Journal :=
  ⟨[], []⟩

/-- The entry of an id, unless it is marked. -/
def Journal.live? (journal : Journal) (id : UInt64) : Option Entry :=
  if id = 0 ∨ id ∈ journal.marks then none else journal.entries[id.toNat - 1]?

def Journal.live (journal : Journal) : List Entry :=
  journal.entries.filter fun entry => entry.id ∉ journal.marks

/-- The entry that the next creation appends. -/
def Journal.next (journal : Journal) (name text : String) (rule : Rule) : Entry :=
  ⟨.ofNat (journal.entries.length + 1), name, text, rule⟩

def Journal.append (journal : Journal) (entry : Entry) : Journal :=
  { journal with entries := journal.entries ++ [entry] }

def Journal.mark (journal : Journal) (id : UInt64) : Journal :=
  { journal with marks := id :: journal.marks }

/-- The reply to one operation and the journal after it. -/
def Journal.perform (journal : Journal) : Operation → Answer × Journal
  | .create name text =>
    match Rule.parse text with
    | .ok rule =>
      (.created (journal.next name text rule), journal.append (journal.next name text rule))
    | .error error => (.failed (.parse error), journal)
  | .get id => (.found (journal.live? id), journal)
  | .list => (.listed journal.live, journal)
  | .evaluate id record =>
    match journal.live? id with
    | none => (.failed (.ruleNotFound id), journal)
    | some entry =>
      match entry.rule.evaluate record with
      | .ok value => (.verdict value, journal)
      | .error error => (.failed (.evaluation error), journal)
  | .delete id =>
    match journal.live? id with
    | none => (.failed (.ruleNotFound id), journal)
    | some _ => (.deleted, journal.mark id)

def Journal.run (journal : Journal) : List Operation → List Answer × Journal
  | [] => ([], journal)
  | operation :: rest =>
    let (answer, journal) := journal.perform operation
    let (answers, journal) := journal.run rest
    (answer :: answers, journal)

/-- The creations that a config stands for. -/
def Config.creations (config : Config) : List Operation :=
  config.definitions.map fun definition => .create definition.name definition.text

def Journal.ofConfig (config : Config) : Journal :=
  (empty.run config.creations).2

/-- Whether an operation creates a rule: a text with a fault creates none. -/
def Operation.creates : Operation → Bool
  | .create _ text => (Rule.parse text).isOk
  | .get _ | .list | .evaluate _ _ | .delete _ => false

def Answer.created? : Answer → Option Entry
  | .created entry => some entry
  | .found _ | .listed _ | .verdict _ | .deleted | .failed _ => none

/-- The ids last for the entries and for what the operations create. -/
def Journal.HasRoom (journal : Journal) (operations : List Operation) : Prop :=
  journal.entries.length + operations.countP Operation.creates < UInt64.size

variable {journal : Journal} {operation : Operation} {earlier later operations : List Operation}
  {id : UInt64} {entry : Entry}

/-- What one operation can do to a journal. -/
theorem Journal.perform_cases (journal : Journal) (operation : Operation) :
    (operation.creates = false ∧ (journal.perform operation).1.created? = none ∧
      (journal.perform operation).2 = journal) ∨
    (∃ name text rule, operation = .create name text ∧ Rule.parse text = .ok rule ∧
      journal.perform operation =
        (.created (journal.next name text rule), journal.append (journal.next name text rule))) ∨
    (∃ id entry, operation = .delete id ∧ journal.live? id = some entry ∧
      journal.perform operation = (.deleted, journal.mark id)) := by
  cases operation with
  | create name text =>
    cases hp : Rule.parse text with
    | ok rule =>
      refine .inr (.inl ⟨name, text, rule, rfl, hp, ?_⟩)
      simp only [perform, hp]
    | error error =>
      refine .inl ⟨?_, ?_, ?_⟩
      · simp only [Operation.creates, hp, Except.isOk, Except.toBool]
      · simp only [perform, hp, Answer.created?]
      · simp only [perform, hp]
  | get id => exact .inl ⟨rfl, rfl, rfl⟩
  | list => exact .inl ⟨rfl, rfl, rfl⟩
  | evaluate id record =>
    refine .inl ⟨rfl, ?_⟩
    simp only [perform]
    split
    · exact ⟨rfl, rfl⟩
    · split
      · exact ⟨rfl, rfl⟩
      · exact ⟨rfl, rfl⟩
  | delete id =>
    cases hl : journal.live? id with
    | none =>
      refine .inl ⟨rfl, ?_⟩
      simp only [perform, hl, Answer.created?, and_self]
    | some entry =>
      refine .inr (.inr ⟨id, entry, rfl, hl, ?_⟩)
      simp only [perform, hl]

theorem Operation.creates_create :
    (Operation.create name text).creates = true ↔ ∃ rule, Rule.parse text = .ok rule := by
  cases hp : Rule.parse text with
  | ok rule =>
    simp only [creates, hp, Except.isOk, Except.toBool, true_iff]
    exact ⟨rule, rfl⟩
  | error error =>
    simp only [creates, hp, Except.isOk, Except.toBool, Bool.false_eq_true, false_iff]
    exact fun ⟨_, h⟩ => nomatch h

theorem Journal.length_empty : empty.entries.length = 0 :=
  rfl

theorem creations_cons (operation : Operation) (rest : List Operation) :
    (operation :: rest).countP Operation.creates =
      [operation].countP Operation.creates + rest.countP Operation.creates := by
  rw [← List.countP_append]
  rfl

theorem Journal.length_perform (journal : Journal) (operation : Operation) :
    (journal.perform operation).2.entries.length =
      journal.entries.length + [operation].countP Operation.creates := by
  obtain ⟨hc, -, hj⟩ | ⟨name, text, rule, rfl, hp, hj⟩ | ⟨id, entry, rfl, -, hj⟩ :=
    journal.perform_cases operation
  · rw [hj, List.countP_singleton, hc]
    rfl
  · rw [hj, List.countP_singleton, Operation.creates_create.2 ⟨_, hp⟩]
    exact List.length_append
  · rw [hj]
    rfl

theorem Journal.length_run (journal : Journal) (operations : List Operation) :
    (journal.run operations).2.entries.length =
      journal.entries.length + operations.countP Operation.creates := by
  induction operations generalizing journal with
  | nil => rfl
  | cons operation rest ih =>
    rw [creations_cons, ← Nat.add_assoc, ← journal.length_perform operation]
    exact ih _

theorem Journal.HasRoom.append (h : journal.HasRoom (earlier ++ later)) :
    journal.HasRoom earlier ∧ (journal.run earlier).2.HasRoom later := by
  unfold HasRoom at h ⊢
  rw [List.countP_append, ← Nat.add_assoc] at h
  rw [journal.length_run]
  exact ⟨Nat.lt_of_le_of_lt (Nat.le_add_right _ _) h, h⟩

theorem Journal.HasRoom.cons (h : journal.HasRoom (operation :: later)) :
    journal.HasRoom [operation] ∧ (journal.perform operation).2.HasRoom later := by
  have hs : journal.HasRoom ([operation] ++ later) := h
  exact hs.append

theorem Journal.HasRoom.create (h : journal.HasRoom [.create name text])
    (hp : Rule.parse text = .ok rule) : journal.entries.length + 1 < UInt64.size := by
  rwa [HasRoom, List.countP_singleton, Operation.creates_create.2 ⟨rule, hp⟩] at h

theorem Journal.created_perform (journal : Journal) (operation : Operation) :
    ([(journal.perform operation).1].filterMap Answer.created?).map Entry.id =
      (List.range' (journal.entries.length + 1) ([operation].countP Operation.creates)).map
        UInt64.ofNat := by
  obtain ⟨hc, ha, -⟩ | ⟨name, text, rule, rfl, hp, hj⟩ | ⟨id, entry, rfl, -, hj⟩ :=
    journal.perform_cases operation
  · rw [List.filterMap_cons_none ha, List.countP_singleton, hc]
    rfl
  · rw [hj, List.countP_singleton, Operation.creates_create.2 ⟨_, hp⟩]
    rfl
  · rw [hj]
    rfl

/-- Ids are handed out one after the other, whatever is deleted in between. -/
theorem Journal.created_run (journal : Journal) (operations : List Operation) :
    ((journal.run operations).1.filterMap Answer.created?).map Entry.id =
      (List.range' (journal.entries.length + 1) (operations.countP Operation.creates)).map
        UInt64.ofNat := by
  induction operations generalizing journal with
  | nil => rfl
  | cons operation rest ih =>
    have hr := ih (journal.perform operation).2
    rw [journal.length_perform, Nat.add_right_comm] at hr
    have hrun : (journal.run (operation :: rest)).1 =
      [(journal.perform operation).1] ++ ((journal.perform operation).2.run rest).1 := rfl
    rw [hrun, List.filterMap_append, List.map_append, journal.created_perform, hr,
      ← List.map_append, List.range'_append_1, creations_cons operation rest]

/-- The ids of the entries are their places from one on, and only such ids are marked. -/
structure Journal.Numbered (journal : Journal) : Prop where
  ids : ∀ place (h : place < journal.entries.length),
    journal.entries[place].id.toNat = place + 1
  marks : ∀ id ∈ journal.marks, id.toNat ≤ journal.entries.length

theorem Journal.Numbered.empty : Journal.empty.Numbered :=
  ⟨fun _ h => absurd h (Nat.not_lt_zero _), fun _ h => absurd h List.not_mem_nil⟩

theorem Journal.next_id (hroom : journal.entries.length + 1 < UInt64.size) :
    (journal.next name text rule).id.toNat = journal.entries.length + 1 :=
  UInt64.toNat_ofNat_of_lt hroom

theorem Journal.Numbered.append (h : journal.Numbered)
    (hroom : journal.entries.length + 1 < UInt64.size) :
    (journal.append (journal.next name text rule)).Numbered := by
  have hlen : (journal.append (journal.next name text rule)).entries.length =
    journal.entries.length + 1 := List.length_append
  refine ⟨?_, ?_⟩
  · intro place hp
    rw [hlen] at hp
    simp only [Journal.append]
    obtain hlt | rfl := Nat.lt_succ_iff_lt_or_eq.1 hp
    · rw [List.getElem_append_left hlt]
      exact h.ids place hlt
    · rw [List.getElem_concat_length rfl]
      exact next_id hroom
  · intro id hid
    rw [hlen]
    exact Nat.le_succ_of_le (h.marks id hid)

theorem Journal.Numbered.id_of_mem (h : journal.Numbered) (he : entry ∈ journal.entries) :
    journal.entries[entry.id.toNat - 1]? = some entry ∧ entry.id ≠ 0 ∧
      entry.id.toNat ≤ journal.entries.length := by
  obtain ⟨place, hp, rfl⟩ := List.getElem_of_mem he
  have hid := h.ids place hp
  refine ⟨?_, ?_, ?_⟩
  · rw [hid, Nat.add_sub_cancel]
    exact List.getElem?_eq_getElem hp
  · intro hz
    rw [hz] at hid
    exact Nat.succ_ne_zero place hid.symm
  · rw [hid]
    exact hp

theorem Journal.Numbered.id_of_getElem? (h : journal.Numbered)
    (he : journal.entries[place]? = some entry) : entry.id.toNat = place + 1 := by
  obtain ⟨hp, rfl⟩ := List.getElem?_eq_some_iff.1 he
  exact h.ids place hp

/-- A lookup by place finds what a search by id would. -/
theorem Journal.Numbered.live?_eq_some_iff (h : journal.Numbered) :
    journal.live? id = some entry ↔ entry ∈ journal.live ∧ entry.id = id := by
  simp only [live?, live, List.mem_filter, decide_eq_true_eq]
  constructor
  · intro hl
    split at hl
    case isTrue => cases hl
    case isFalse hm =>
      obtain ⟨hz, hm⟩ := not_or.1 hm
      have hid : entry.id = id := by
        have hp := h.id_of_getElem? hl
        have hn : id.toNat ≠ 0 := fun hn => hz (UInt64.toNat_inj.1 hn)
        exact UInt64.toNat_inj.1 (hp.trans (Nat.succ_pred hn))
      cases hid
      exact ⟨⟨List.mem_of_getElem? hl, hm⟩, rfl⟩
  · rintro ⟨⟨he, hm⟩, rfl⟩
    obtain ⟨hp, hz, -⟩ := h.id_of_mem he
    rw [if_neg (not_or.2 ⟨hz, hm⟩)]
    exact hp

theorem Journal.Numbered.mark (h : journal.Numbered) (hl : journal.live? id = some entry) :
    (journal.mark id).Numbered := by
  refine ⟨h.ids, ?_⟩
  obtain ⟨he, rfl⟩ := h.live?_eq_some_iff.1 hl
  intro other ho
  obtain rfl | ho := List.mem_cons.1 ho
  · exact (h.id_of_mem (List.mem_filter.1 he).1).2.2
  · exact h.marks other ho

theorem Journal.Numbered.perform (h : journal.Numbered) (hroom : journal.HasRoom [operation]) :
    (journal.perform operation).2.Numbered := by
  obtain ⟨-, -, hj⟩ | ⟨name, text, rule, rfl, hp, hj⟩ | ⟨id, entry, rfl, hl, hj⟩ :=
    journal.perform_cases operation
  · rw [hj]
    exact h
  · rw [hj]
    exact h.append (hroom.create hp)
  · rw [hj]
    exact h.mark hl

theorem Journal.Numbered.ascending (h : journal.Numbered) :
    journal.live.Pairwise fun a b => a.id < b.id := by
  apply List.Pairwise.filter
  rw [List.pairwise_iff_getElem]
  intro i j hi hj hij
  rw [UInt64.lt_iff_toNat_lt, h.ids i hi, h.ids j hj]
  exact Nat.succ_lt_succ hij

/-- An entry that can be found stays as it is until its id is deleted. -/
theorem Journal.Numbered.live?_perform (h : journal.Numbered) (hroom : journal.HasRoom [operation])
    (hl : journal.live? id = some entry) (hd : operation ≠ .delete id) :
    (journal.perform operation).2.live? id = some entry := by
  have hn := h.perform hroom
  rw [h.live?_eq_some_iff] at hl
  rw [hn.live?_eq_some_iff]
  obtain ⟨he, rfl⟩ := hl
  refine ⟨?_, rfl⟩
  obtain ⟨-, -, hj⟩ | ⟨name, text, rule, rfl, hp, hj⟩ | ⟨id, other, rfl, -, hj⟩ :=
    journal.perform_cases operation
  · rw [hj]
    exact he
  · rw [hj]
    obtain ⟨he, hm⟩ := List.mem_filter.1 he
    exact List.mem_filter.2 ⟨List.mem_append_left _ he, hm⟩
  · rw [hj]
    obtain ⟨he, hm⟩ := List.mem_filter.1 he
    refine List.mem_filter.2 ⟨he, decide_eq_true ?_⟩
    rintro (_ | ⟨_, ho⟩)
    · exact hd rfl
    · exact of_decide_eq_true hm ho

theorem Journal.Numbered.live?_run (h : journal.Numbered) (hroom : journal.HasRoom operations)
    (hl : journal.live? id = some entry) (hd : .delete id ∉ operations) :
    (journal.run operations).2.live? id = some entry := by
  induction operations generalizing journal with
  | nil => exact hl
  | cons operation rest ih =>
    obtain ⟨hstep, hrest⟩ := hroom.cons
    obtain ⟨hne, hd⟩ := not_or.1 (mt List.mem_cons.2 hd)
    have hl := h.live?_perform hstep hl fun he => hne he.symm
    exact ih (h.perform hstep) hrest hl hd

theorem Journal.marks_perform (journal : Journal) (operation : Operation) :
    journal.marks ⊆ (journal.perform operation).2.marks := by
  obtain ⟨-, -, hj⟩ | ⟨name, text, rule, rfl, -, hj⟩ | ⟨id, entry, rfl, -, hj⟩ :=
    journal.perform_cases operation
  · rw [hj]
    exact List.Subset.refl _
  · rw [hj]
    exact List.Subset.refl _
  · rw [hj]
    exact List.subset_cons_self _ _

theorem Journal.marks_run (journal : Journal) (operations : List Operation) :
    journal.marks ⊆ (journal.run operations).2.marks := by
  induction operations generalizing journal with
  | nil => exact List.Subset.refl _
  | cons operation rest ih => exact List.Subset.trans (journal.marks_perform operation) (ih _)

theorem Journal.live?_of_mark (hm : id ∈ journal.marks) : journal.live? id = none :=
  if_pos (.inr hm)

end Eligibility
