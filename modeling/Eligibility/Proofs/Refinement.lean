import Eligibility.Proofs.RuleMap

namespace Eligibility
set_option autoImplicit true

/-- The book stores the unmarked entries of the journal under their ids, in any order, and hands out
the same id next. -/
structure Book.Represents (book : Book) (journal : Journal) : Prop where
  numbered : journal.Numbered
  rules : book.rules.Perm (journal.live.map fun entry => (entry.id, entry))
  nextId : book.nextId = .ofNat (journal.entries.length + 1)

variable {book seed : Book} {journal : Journal} {operation : Operation}
  {earlier later operations : List Operation} {id : UInt64} {entry : Entry}

theorem Book.Represents.empty : Book.empty.Represents Journal.empty :=
  ⟨.empty, .nil, rfl⟩

theorem Book.Represents.keys (h : book.Represents journal) :
    (book.rules.map Prod.fst).Perm (journal.live.map Entry.id) := by
  have hkeys := h.rules.map Prod.fst
  rwa [List.map_map] at hkeys

theorem Book.Represents.isKeyed (h : book.Represents journal) : book.IsKeyed := by
  constructor
  · apply h.keys.nodup_iff.2
    exact (List.pairwise_map.2 h.numbered.ascending).imp UInt64.ne_of_lt
  · intro rule hr
    obtain ⟨entry, -, rfl⟩ := List.mem_map.1 (h.rules.mem_iff.1 hr)
    rfl

theorem Book.Represents.list (h : book.Represents journal) : book.list = journal.live := by
  apply h.isKeyed.list_eq _ h.numbered.ascending
  have hentries := h.rules.map Prod.snd
  rw [List.map_map] at hentries
  exact hentries.trans (.of_eq (List.map_id _))

theorem Book.Represents.get? (h : book.Represents journal) (id : UInt64) :
    book.get? id = journal.live? id := by
  ext entry
  rw [h.isKeyed.get?_eq_some_iff, h.numbered.live?_eq_some_iff, h.list]

theorem Journal.Numbered.lt_next (h : journal.Numbered)
    (hroom : journal.entries.length + 1 < UInt64.size) (he : entry ∈ journal.live) :
    entry.id < (journal.next name text rule).id := by
  have hle := (h.id_of_mem (List.mem_filter.1 he).1).2.2
  rw [UInt64.lt_iff_toNat_lt, Journal.next_id hroom]
  exact Nat.lt_succ_of_le hle

/-- A new id carries no mark yet, so that the entry is live at once. -/
theorem Journal.Numbered.live_append (h : journal.Numbered)
    (hroom : journal.entries.length + 1 < UInt64.size) :
    (journal.append (journal.next name text rule)).live =
      journal.live ++ [journal.next name text rule] := by
  have hm : (journal.next name text rule).id ∉ journal.marks := by
    intro hm
    have hle := h.marks _ hm
    rw [Journal.next_id hroom] at hle
    exact Nat.not_succ_le_self _ hle
  have hone : [journal.next name text rule].filter (fun entry => entry.id ∉ journal.marks) =
    [journal.next name text rule] := List.filter_cons_of_pos (decide_eq_true hm)
  exact (List.filter_append _ _).trans (congrArg _ hone)

theorem Journal.live_mark (journal : Journal) (id : UInt64) :
    (journal.mark id).live = journal.live.filter fun entry => entry.id ≠ id := by
  simp only [live, mark, List.filter_filter]
  apply List.filter_congr
  intro entry _
  simp only [List.mem_cons, not_or, Bool.decide_and, ne_eq]

theorem Book.Represents.create (h : book.Represents journal) (name : String)
    (hp : Rule.parse text = .ok rule)
    (hroom : journal.entries.length + 1 < UInt64.size) :
    ∃ after, book.create name text = .ok (journal.next name text rule, after) ∧
      after.Represents (journal.append (journal.next name text rule)) := by
  have hnext : (⟨book.nextId, name, text, rule⟩ : Entry) = journal.next name text rule := by
    rw [h.nextId]
    rfl
  have hnew : (journal.next name text rule).id ∉ book.rules.map Prod.fst := by
    intro hm
    obtain ⟨other, ho, he⟩ := List.mem_map.1 (h.keys.mem_iff.1 hm)
    exact UInt64.ne_of_lt (h.numbered.lt_next hroom ho) he
  refine ⟨⟨insertRule (journal.next name text rule).id (journal.next name text rule) book.rules,
    book.nextId + 1⟩, ?_, h.numbered.append hroom, ?_, ?_⟩
  · rw [← hnext]
    simp only [Book.create, hp]
  · rw [h.numbered.live_append hroom, List.map_append, insertRule_eq_append hnew]
    exact h.rules.append_right _
  · rw [h.nextId]
    simp only [Journal.append, List.length_append, List.length_singleton, UInt64.ofNat_add]
    rfl

theorem Book.Represents.delete (h : book.Represents journal) (hl : journal.live? id = some entry) :
    ∃ after, book.delete id = .ok after ∧ after.Represents (journal.mark id) := by
  refine ⟨⟨removeRule id book.rules, book.nextId⟩, ?_, h.numbered.mark hl, ?_, h.nextId⟩
  · simp only [Book.delete, h.get?, hl]
  · have hrules := h.rules.filter fun rule => rule.1 ≠ id
    rw [List.filter_map] at hrules
    rw [journal.live_mark]
    exact hrules

/-- One operation on the book replies as the same operation on the journal. -/
theorem Book.Represents.perform (h : book.Represents journal)
    (hroom : journal.HasRoom [operation]) :
    (book.perform operation).1 = (journal.perform operation).1 ∧
      (book.perform operation).2.Represents (journal.perform operation).2 := by
  cases operation with
  | create name text =>
    cases hp : Rule.parse text with
    | error error =>
      simp only [Book.perform, Book.create, Journal.perform, hp, true_and]
      exact h
    | ok rule =>
      obtain ⟨after, hc, ha⟩ := h.create name hp (hroom.create hp)
      simp only [Book.perform, Journal.perform, hc, hp, true_and]
      exact ha
  | get id =>
    simp only [Book.perform, Journal.perform, h.get?, true_and]
    exact h
  | list =>
    simp only [Book.perform, Journal.perform, h.list, true_and]
    exact h
  | evaluate id record =>
    simp only [Book.perform, Book.evaluate, Journal.perform, h.get?]
    cases journal.live? id with
    | none => exact ⟨rfl, h⟩
    | some entry =>
      dsimp only
      cases entry.rule.evaluate record with
      | ok value => exact ⟨rfl, h⟩
      | error error => exact ⟨rfl, h⟩
  | delete id =>
    cases hl : journal.live? id with
    | none =>
      simp only [Book.perform, Book.delete, Journal.perform, h.get?, hl, true_and]
      exact h
    | some entry =>
      obtain ⟨after, hd, ha⟩ := h.delete hl
      simp only [Book.perform, Journal.perform, hd, hl, true_and]
      exact ha

theorem Book.Represents.run (h : book.Represents journal) (hroom : journal.HasRoom operations) :
    (book.run operations).1 = (journal.run operations).1 ∧
      (book.run operations).2.Represents (journal.run operations).2 := by
  induction operations generalizing book journal with
  | nil => exact ⟨rfl, h⟩
  | cons operation rest ih =>
    obtain ⟨hstep, hrest⟩ := hroom.cons
    obtain ⟨ha, h⟩ := h.perform hstep
    obtain ⟨hr, h⟩ := ih h hrest
    exact ⟨List.cons_eq_cons.2 ⟨ha, hr⟩, h⟩

theorem Book.run_append_eq (book : Book) (earlier later : List Operation) :
    book.run (earlier ++ later) = ((book.run earlier).1 ++ ((book.run earlier).2.run later).1,
      ((book.run earlier).2.run later).2) := by
  induction earlier generalizing book with
  | nil => rfl
  | cons operation rest ih => simp only [List.cons_append, run, ih]

theorem Book.run_append (book : Book) (earlier later : List Operation) :
    (book.run (earlier ++ later)).2 = ((book.run earlier).2.run later).2 := by
  rw [run_append_eq]

/-- A config whose texts have no fault is a run of creations. -/
theorem Book.createAll_eq_run (book : Book) {definitions : List Definition}
    (hp : ∀ definition ∈ definitions, ∃ rule, Rule.parse definition.text = .ok rule) :
    book.createAll definitions = .ok (book.run (Config.creations ⟨definitions⟩)).2 := by
  induction definitions generalizing book with
  | nil => rfl
  | cons definition rest ih =>
    obtain ⟨rule, hr⟩ := hp definition List.mem_cons_self
    have ih := fun book => ih book fun other ho => hp other (List.mem_cons_of_mem _ ho)
    simp only [createAll, create, hr, ih, Config.creations, List.map_cons, run, perform]

theorem Config.countP_creations (config : Config)
    (hp : ∀ definition ∈ config.definitions, ∃ rule, Rule.parse definition.text = .ok rule) :
    config.creations.countP Operation.creates = config.definitions.length := by
  rw [creations, List.countP_map, List.countP_eq_length]
  intro definition hd
  exact Operation.creates_create.2 (hp definition hd)

theorem Journal.length_ofConfig (config : Config)
    (hp : ∀ definition ∈ config.definitions, ∃ rule, Rule.parse definition.text = .ok rule) :
    (ofConfig config).entries.length = config.definitions.length := by
  rw [ofConfig, length_run, config.countP_creations hp, length_empty, Nat.zero_add]

theorem Book.Represents.kept (h : book.Represents journal) (hroom : journal.HasRoom operations)
    (hg : book.get? id = some entry) (hd : .delete id ∉ operations) :
    (book.run operations).2.get? id = some entry := by
  rw [h.get?] at hg
  rw [(h.run hroom).2.get?]
  exact h.numbered.live?_run hroom hg hd

/-- A created entry can be got at once. -/
theorem Book.Represents.get?_created (h : book.Represents journal)
    (hroom : journal.HasRoom [operation])
    (ha : (book.perform operation).1 = .created entry) :
    (book.perform operation).2.get? entry.id = some entry := by
  obtain ⟨hj, hr⟩ := h.perform hroom
  rw [hj] at ha
  rw [hr.get?, hr.numbered.live?_eq_some_iff]
  refine ⟨?_, rfl⟩
  obtain ⟨-, hn, -⟩ | ⟨name, text, rule, rfl, hp, hj⟩ | ⟨id, other, rfl, -, hj⟩ :=
    journal.perform_cases operation
  · rw [ha] at hn
    cases hn
  · rw [hj] at ha
    cases ha
    rw [hj, h.numbered.live_append (hroom.create hp)]
    exact List.mem_append_right _ List.mem_cons_self
  · rw [hj] at ha
    cases ha

/-- A deletion marks its id, and a mark stays. -/
theorem Book.Represents.gone (h : book.Represents journal)
    (hroom : journal.HasRoom (.delete id :: later))
    (ha : (book.perform (.delete id)).1 = .deleted) :
    (book.run (.delete id :: later)).2.get? id = none := by
  rw [(h.run hroom).2.get?]
  apply Journal.live?_of_mark
  apply Journal.marks_run (journal.perform (.delete id)).2
  rw [(h.perform hroom.cons.1).1] at ha
  cases hl : journal.live? id with
  | none =>
    simp only [Journal.perform, hl] at ha
    cases ha
  | some entry =>
    simp only [Journal.perform, hl]
    exact List.mem_cons_self

/-- The book answers the operations as the journal does, hands out the ids after those of the
journal, and keeps what it stores up to a deletion. -/
structure Book.Follows (book : Book) (journal : Journal) (operations : List Operation) : Prop where
  answers : (book.run operations).1 = (journal.run operations).1
  ids : ((book.run operations).1.filterMap Answer.created?).map (fun entry => entry.id.toNat) =
    List.range' (journal.entries.length + 1) (operations.countP Operation.creates)
  stored : ∀ earlier operation later entry, operations = earlier ++ operation :: later →
    ((book.run earlier).2.perform operation).1 = .created entry → .delete entry.id ∉ later →
      (book.run operations).2.get? entry.id = some entry
  kept : ∀ earlier later id entry, operations = earlier ++ later →
    (book.run earlier).2.get? id = some entry → .delete id ∉ later →
      (book.run operations).2.get? id = some entry
  gone : ∀ earlier later id, operations = earlier ++ .delete id :: later →
    ((book.run earlier).2.perform (.delete id)).1 = .deleted →
      (book.run operations).2.get? id = none
  ascending : (book.run operations).2.list.Pairwise fun a b => a.id < b.id
  listed : ∀ id entry, (book.run operations).2.get? id = some entry ↔
    entry ∈ (book.run operations).2.list ∧ entry.id = id
  size : (book.run operations).2.size = (book.run operations).2.list.length
  isEmpty : (book.run operations).2.isEmpty = true ↔ (book.run operations).2.list = []

theorem Book.Represents.follows (h : book.Represents journal) (hroom : journal.HasRoom operations) :
    book.Follows journal operations where
  answers := (h.run hroom).1
  ids := by
    have hids := congrArg (List.map UInt64.toNat) (journal.created_run operations)
    rw [List.map_map, List.map_map] at hids
    rw [(h.run hroom).1]
    refine hids.trans ((List.map_congr_left ?_).trans (List.map_id _))
    intro n hn
    have hlt := (List.mem_range'_1.1 hn).2
    rw [Nat.add_right_comm] at hlt
    exact UInt64.toNat_ofNat_of_lt (Nat.lt_of_le_of_lt (Nat.le_of_lt_succ hlt) hroom)
  stored := by
    intro earlier operation later entry ho ha hd
    subst ho
    obtain ⟨he, hl⟩ := hroom.append
    obtain ⟨hop, hl⟩ := hl.cons
    have hr := (h.run he).2
    have hg := hr.get?_created hop ha
    rw [Book.run_append]
    exact (hr.perform hop).2.kept hl hg hd
  kept := by
    intro earlier later id entry ho hg hd
    subst ho
    obtain ⟨he, hl⟩ := hroom.append
    rw [Book.run_append]
    exact (h.run he).2.kept hl hg hd
  gone := by
    intro earlier later id ho ha
    subst ho
    obtain ⟨he, hl⟩ := hroom.append
    rw [Book.run_append]
    exact (h.run he).2.gone hl ha
  ascending := (h.run hroom).2.isKeyed.list_ascending
  listed id entry := (h.run hroom).2.isKeyed.get?_eq_some_iff
  size := (Book.length_list _).symm
  isEmpty := by
    rw [← List.length_eq_zero_iff, Book.length_list]
    exact List.isEmpty_iff_length_eq_zero

/-- From any seed, a book is a journal with marks as long as the ids last. -/
theorem Book.ofConfig_follows_journal (config : Config) (operations : List Operation)
    (hp : ∀ definition ∈ config.definitions, ∃ rule, Rule.parse definition.text = .ok rule)
    (hroom : config.definitions.length + operations.countP Operation.creates < UInt64.size) :
    ∃ seed, Book.ofConfig config = .ok seed ∧ (config.definitions = [] → seed = .empty) ∧
      (Journal.ofConfig config).entries.length = config.definitions.length ∧
      seed.Follows (Journal.ofConfig config) operations := by
  have hlen := Journal.length_ofConfig config hp
  refine ⟨_, Book.createAll_eq_run Book.empty hp, ?_, hlen, ?_⟩
  · intro hn
    rw [hn]
    rfl
  · have hseed : (Book.empty.run config.creations).2.Represents (Journal.ofConfig config) := by
      apply (Book.Represents.empty.run _).2
      have hdefs := Nat.lt_of_le_of_lt (Nat.le_add_right _ _) hroom
      rwa [Journal.HasRoom, config.countP_creations hp, Journal.length_empty, Nat.zero_add]
    apply hseed.follows
    rwa [Journal.HasRoom, hlen]

/-- The ids 1 and 2 belong to the config. A text with a fault uses up no id, and the id 3 is not
handed out again after its deletion. -/
theorem Book.follows_journal_default :
    ∃ seed, Book.ofConfig .default = .ok seed ∧
      ((seed.run [.create "a" "age > 30", .create "b" "age >", .delete 3,
        .create "c" "age < 9"]).1.filterMap Answer.created?).map (fun entry => entry.id.toNat) =
          [3, 4] := by
  have hp : ∀ definition ∈ Config.default.definitions,
      ∃ rule, Rule.parse definition.text = .ok rule := by
    have hall : Config.default.creations.all Operation.creates = true := by decide +kernel
    intro definition hd
    exact Operation.creates_create.1 (List.all_eq_true.1 hall _ (List.mem_map_of_mem hd))
  have hcount : [.create "a" "age > 30", .create "b" "age >", .delete 3,
      .create "c" "age < 9"].countP Operation.creates = 2 := by decide +kernel
  have hroom : Config.default.definitions.length + 2 < UInt64.size := by decide
  rw [← hcount] at hroom
  obtain ⟨seed, hs, -, hlen, hf⟩ := Book.ofConfig_follows_journal .default _ hp hroom
  refine ⟨seed, hs, ?_⟩
  rw [hf.ids, hlen, hcount]
  rfl

end Eligibility
