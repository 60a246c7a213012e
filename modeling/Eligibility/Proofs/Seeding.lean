import Eligibility.Proofs.Provenance

namespace Eligibility
set_option autoImplicit true

/-- The text of the definition has no fault. -/
def Definition.Reads (definition : Definition) : Prop :=
  ∃ rule, Rule.parse definition.text = .ok rule

/-- The error is that of the first definition whose text has a fault. -/
def FirstFault (definitions : List Definition) (error : ParseError) : Prop :=
  ∃ earlier definition later, definitions = earlier ++ definition :: later ∧
    (∀ other ∈ earlier, other.Reads) ∧ Rule.parse definition.text = .error error

/-- The entry has the place as its id and was made from the definition at this place. -/
structure Entry.IsMadeFrom (entry : Entry) (source : Definition × Nat) : Prop where
  id : entry.id.toNat = source.2
  name : entry.name = source.1.name
  text : entry.text = source.1.text
  reads : Rule.parse source.1.text = .ok entry.rule

/-- The next id has the place as its number, and all ids of the book are below. -/
structure Book.Awaits (book : Book) (place : Nat) : Prop where
  below : ∀ id ∈ book.rules.map Prod.fst, id.toNat < place
  nextId : book.nextId = .ofNat place

variable {book : Book} {definitions : List Definition} {entry : Entry}

theorem Book.createAll_cons (book : Book) (hp : Rule.parse definition.text = .ok rule)
    (rest : List Definition) : book.createAll (definition :: rest) =
      (book.perform (.create definition.name definition.text)).2.createAll rest := by
  simp only [createAll, create, perform, hp]

theorem Book.createAll_of_fault (h : FirstFault definitions error) (book : Book) :
    book.createAll definitions = .error error := by
  obtain ⟨earlier, definition, later, rfl, hread, hp⟩ := h
  induction earlier generalizing book with
  | nil => simp only [List.nil_append, createAll, create, hp]
  | cons first rest ih =>
    obtain ⟨rule, hr⟩ := hread first List.mem_cons_self
    rw [List.cons_append, book.createAll_cons hr]
    exact ih _ fun other ho => hread other (List.mem_cons_of_mem _ ho)

theorem reads_or_firstFault (definitions : List Definition) :
    (∀ definition ∈ definitions, definition.Reads) ∨ ∃ error, FirstFault definitions error := by
  induction definitions with
  | nil => exact .inl (List.forall_mem_nil _)
  | cons first rest ih =>
    cases hp : Rule.parse first.text with
    | error error => exact .inr ⟨error, [], first, rest, rfl, List.forall_mem_nil _, hp⟩
    | ok rule =>
      rcases ih with hread | ⟨error, earlier, definition, later, rfl, hread, he⟩
      · exact .inl (List.forall_mem_cons.2 ⟨⟨rule, hp⟩, hread⟩)
      · exact .inr ⟨error, first :: earlier, definition, later, rfl,
          List.forall_mem_cons.2 ⟨⟨rule, hp⟩, hread⟩, he⟩

theorem Book.createAll_eq_error_iff :
    book.createAll definitions = .error error ↔ FirstFault definitions error := by
  constructor
  · intro h
    rcases reads_or_firstFault definitions with hread | ⟨other, hfault⟩
    · rw [book.createAll_eq_run hread] at h
      cases h
    · rw [createAll_of_fault hfault book] at h
      cases h
      exact hfault
  · exact fun h => createAll_of_fault h book

theorem FirstFault.exists_iff : (∃ error, FirstFault definitions error) ↔
    ∃ definition ∈ definitions, ∃ error, Rule.parse definition.text = .error error := by
  constructor
  · rintro ⟨error, earlier, definition, later, rfl, -, hp⟩
    exact ⟨definition, List.mem_append_right _ List.mem_cons_self, error, hp⟩
  · rintro ⟨definition, hd, error, hp⟩
    refine (reads_or_firstFault definitions).resolve_left fun hread => ?_
    obtain ⟨rule, hr⟩ := hread definition hd
    rw [hp] at hr
    cases hr

/-- A new id is above all others, so that it is not in the map yet. -/
theorem Book.Awaits.create (h : book.Awaits place) (hroom : place < UInt64.size) (name : String)
    (hp : Rule.parse text = .ok rule) :
    ∃ entry after, book.perform (.create name text) = (.created entry, after) ∧
      entry.IsMadeFrom (⟨name, text⟩, place) ∧ after.rules = book.rules ++ [(entry.id, entry)] ∧
      after.Awaits (place + 1) := by
  let entry : Entry := ⟨book.nextId, name, text, rule⟩
  have hid : entry.id.toNat = place := by
    show book.nextId.toNat = place
    rw [h.nextId]
    exact UInt64.toNat_ofNat_of_lt hroom
  have hlast : insertRule entry.id entry book.rules = book.rules ++ [(entry.id, entry)] := by
    apply insertRule_eq_append
    intro hm
    have hlt := h.below _ hm
    rw [hid] at hlt
    exact Nat.lt_irrefl place hlt
  refine ⟨entry, ⟨book.rules ++ [(entry.id, entry)], book.nextId + 1⟩, ?_, ⟨hid, rfl, rfl, hp⟩,
    rfl, ?_, ?_⟩
  · rw [← hlast]
    simp only [perform, Book.create, hp, entry]
  · intro id hm
    rw [List.map_append, List.mem_append] at hm
    rcases hm with hm | hm
    · exact Nat.lt_succ_of_lt (h.below id hm)
    · rw [List.mem_singleton.1 hm, hid]
      exact Nat.lt_succ_self place
  · rw [h.nextId, UInt64.ofNat_add]
    rfl

/-- As long as the ids last, the entries of the definitions are stored under the next places. -/
theorem Book.Awaits.creations (h : book.Awaits place)
    (hroom : place + definitions.length ≤ UInt64.size)
    (hread : ∀ definition ∈ definitions, definition.Reads) :
    ∃ made, (book.run (Config.creations ⟨definitions⟩)).1 = made.map Answer.created ∧
      (book.run (Config.creations ⟨definitions⟩)).2.rules =
        book.rules ++ made.map (fun entry => (entry.id, entry)) ∧
      List.Forall₂ Entry.IsMadeFrom made (definitions.zipIdx place) := by
  induction definitions generalizing book place with
  | nil => exact ⟨[], rfl, (List.append_nil _).symm, .nil⟩
  | cons definition rest ih =>
    obtain ⟨rule, hp⟩ := hread definition List.mem_cons_self
    rw [List.length_cons] at hroom
    obtain ⟨entry, after, hstep, hentry, hrules, hnext⟩ := h.create (by omega) definition.name hp
    obtain ⟨made, hanswers, hmade, hall⟩ := ih hnext (by omega)
      fun other ho => hread other (List.mem_cons_of_mem _ ho)
    have hrun : book.run (Config.creations ⟨definition :: rest⟩) =
        (.created entry :: (after.run (Config.creations ⟨rest⟩)).1,
          (after.run (Config.creations ⟨rest⟩)).2) := by
      rw [Config.creations, List.map_cons, run, hstep]
      rfl
    refine ⟨entry :: made, ?_, ?_, .cons hentry hall⟩
    · rw [hrun, hanswers, List.map_cons]
    · rw [hrun, hmade, hrules, List.append_assoc, List.singleton_append, List.map_cons]

/-- Entries that are made in their order have ascending ids. -/
theorem Entry.ascending_of_made
    (h : List.Forall₂ Entry.IsMadeFrom made (definitions.zipIdx place)) :
    made.Pairwise fun a b => a.id < b.id := by
  have hplaces : made.map (fun entry => entry.id.toNat) =
      List.range' place definitions.length := by
    rw [← List.zipIdx_map_snd, ← List.forall₂_eq_eq_eq, List.forall₂_map_left_iff,
      List.forall₂_map_right_iff]
    exact h.imp fun entry source hmade => hmade.id
  have hascending := List.pairwise_lt_range' (s := place) (n := definitions.length)
  rw [← hplaces, List.pairwise_map] at hascending
  exact hascending.imp UInt64.lt_iff_toNat_lt.2

theorem Book.awaits_empty : Book.empty.Awaits 1 :=
  ⟨List.forall_mem_nil _, rfl⟩

/-- A book is made from all definitions of a config or not at all. The first definition with a fault
decides on the error, whatever follows it. Without a fault the rules are listed in the order of the
definitions, with their places as ids, and the book goes on as the empty one after a creation for
each of them. -/
theorem Book.ofConfig_all_or_nothing (config : Config)
    (hroom : config.definitions.length < UInt64.size) :
    (∀ error, ofConfig config = .error error ↔ FirstFault config.definitions error) ∧
    ((∃ error, ofConfig config = .error error) ↔
      ∃ definition ∈ config.definitions, ∃ error, Rule.parse definition.text = .error error) ∧
    ((∀ definition ∈ config.definitions, definition.Reads) → ∃ seed, ofConfig config = .ok seed ∧
      seed.size = config.definitions.length ∧
      List.Forall₂ Entry.IsMadeFrom seed.list (config.definitions.zipIdx 1) ∧
      ∀ operations, Book.empty.run (config.creations ++ operations) =
        (seed.list.map Answer.created ++ (seed.run operations).1, (seed.run operations).2)) := by
  refine ⟨fun error => createAll_eq_error_iff, ?_, ?_⟩
  · simp only [ofConfig, createAll_eq_error_iff, FirstFault.exists_iff]
  · intro hread
    have hids : 1 + config.definitions.length ≤ UInt64.size := by
      rw [Nat.add_comm]
      exact hroom
    obtain ⟨made, hanswers, hrules, hmade⟩ := awaits_empty.creations hids hread
    have hkeyed := (Sound.empty.run config.creations).keyed
    have hentries : ((Book.empty.run config.creations).2.rules.map Prod.snd).Perm made := by
      apply List.Perm.of_eq
      rw [hrules, List.map_append, List.map_map]
      exact List.map_id _
    have hlist := hkeyed.list_eq hentries (Entry.ascending_of_made hmade)
    refine ⟨_, createAll_eq_run Book.empty hread, ?_, ?_, ?_⟩
    · have hlength := hmade.length_eq
      rw [List.length_zipIdx, ← hlist, length_list] at hlength
      exact hlength
    · rw [← hlist] at hmade
      exact hmade
    · intro operations
      rw [run_append_eq]
      refine Prod.ext (congrArg (· ++ _) ?_) rfl
      rw [← hlist] at hanswers
      exact hanswers

/-- The second of three definitions has the first fault; without it and what follows there is a
book. -/
theorem Book.ofConfig_all_or_nothing_fault :
    ofConfig ⟨[⟨"a", "age > 1"⟩, ⟨"b", "age >"⟩, ⟨"c", "("⟩]⟩ = .error ⟨5, .missingValue none⟩ ∧
      ∃ seed, ofConfig ⟨[⟨"a", "age > 1"⟩]⟩ = .ok seed ∧ seed.size = 1 := by
  have hgood : Rule.parse "age > 1" = .ok (.operand "age" .greater (.number 1)) := by
    decide +kernel
  have hbad : Rule.parse "age >" = .error ⟨5, .missingValue none⟩ := by decide +kernel
  have hread : ∀ definition ∈ [(⟨"a", "age > 1"⟩ : Definition)], definition.Reads :=
    List.forall_mem_singleton.2 ⟨_, hgood⟩
  obtain ⟨herror, -, -⟩ :=
    ofConfig_all_or_nothing ⟨[⟨"a", "age > 1"⟩, ⟨"b", "age >"⟩, ⟨"c", "("⟩]⟩ (by decide)
  obtain ⟨-, -, hok⟩ := ofConfig_all_or_nothing ⟨[⟨"a", "age > 1"⟩]⟩ (by decide)
  obtain ⟨seed, hs, hsize, -⟩ := hok hread
  exact ⟨(herror _).2 ⟨[⟨"a", "age > 1"⟩], ⟨"b", "age >"⟩, [⟨"c", "("⟩], rfl, hread, hbad⟩,
    seed, hs, hsize⟩

end Eligibility
