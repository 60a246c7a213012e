import Eligibility.Proofs.Refinement

namespace Eligibility
set_option autoImplicit true

/-- The operations on a book with its answers to them. -/
def Book.transcript (book : Book) (operations : List Operation) : List (Operation × Answer) :=
  operations.zip (book.run operations).1

def Answer.newId? (answer : Answer) : Option UInt64 :=
  answer.created?.map Entry.id

/-- The text of the entry reads as its rule, and the last creation that was answered with its id
is the one that made it. -/
structure Entry.RecordedIn (entry : Entry) (log : List (Operation × Answer)) : Prop where
  reads : Rule.parse entry.text = .ok entry.rule
  creation : ∃ earlier later,
    log = earlier ++ (.create entry.name entry.text, .created entry) :: later ∧
      ∀ step ∈ later, step.2.newId? ≠ some entry.id

/-- The entries of the book stand under their ids, and each of them is recorded. -/
structure Book.Sound (book : Book) (log : List (Operation × Answer)) : Prop where
  keyed : book.IsKeyed
  recorded : ∀ rule ∈ book.rules, rule.2.RecordedIn log

/-- The verdict of a text that is read for one record. -/
def verdictOfText (text : String) (record : Record) : Except BookError Bool :=
  match Rule.parse text with
  | .error error => .error (.parse error)
  | .ok rule => (rule.evaluate record).mapError .evaluation

variable {book seed after : Book} {entry : Entry} {id : UInt64} {log : List (Operation × Answer)}
  {step : Operation × Answer}

theorem Book.transcript_append (book : Book) (earlier later : List Operation) :
    book.transcript (earlier ++ later) =
      book.transcript earlier ++ (book.run earlier).2.transcript later := by
  induction earlier generalizing book with
  | nil => rfl
  | cons operation rest ih => exact congrArg (_ :: ·) (ih (book.perform operation).2)

theorem Book.map_snd_transcript (book : Book) (operations : List Operation) :
    (book.transcript operations).map Prod.snd = (book.run operations).1 := by
  induction operations generalizing book with
  | nil => rfl
  | cons operation rest ih => exact congrArg (_ :: ·) (ih (book.perform operation).2)

theorem Entry.RecordedIn.append (h : entry.RecordedIn log)
    (hs : step.2.newId? ≠ some entry.id) : entry.RecordedIn (log ++ [step]) := by
  obtain ⟨earlier, later, rfl, hl⟩ := h.creation
  refine ⟨h.reads, earlier, later ++ [step], List.append_assoc _ _ _, ?_⟩
  intro other ho
  obtain ho | ho := List.mem_append.1 ho
  · exact hl other ho
  · rw [List.mem_singleton.1 ho]
    exact hs

theorem Book.Sound.empty : Book.empty.Sound [] :=
  ⟨.empty, fun _ h => absurd h List.not_mem_nil⟩

theorem Book.Sound.perform (h : book.Sound log) (operation : Operation) :
    (book.perform operation).2.Sound (log ++ [(operation, (book.perform operation).1)]) := by
  have hkeyed := h.keyed.perform operation
  obtain ⟨hn, hsub⟩ | ⟨entry, rfl, hp, hb⟩ := book.perform_cases operation
  · refine ⟨hkeyed, ?_⟩
    intro rule hr
    apply (h.recorded rule (hsub.subset hr)).append
    rw [Answer.newId?, hn]
    exact (Option.some_ne_none _).symm
  · rw [hb] at hkeyed ⊢
    refine ⟨hkeyed, ?_⟩
    intro rule hr
    obtain rfl | ⟨hr, hne⟩ := (mem_insertRule h.keyed.distinct).1 hr
    · exact ⟨hp, log, [], rfl, fun _ h => absurd h List.not_mem_nil⟩
    · apply (h.recorded rule hr).append
      intro he
      rw [h.keyed.key rule hr] at he
      exact hne (Option.some.inj he).symm

theorem Book.Sound.run (h : book.Sound log) (operations : List Operation) :
    (book.run operations).2.Sound (log ++ book.transcript operations) := by
  induction operations generalizing book log with
  | nil => rwa [transcript, List.zip_nil_left, List.append_nil]
  | cons operation rest ih =>
    have hr := ih (h.perform operation)
    rwa [List.append_assoc] at hr

theorem Book.Sound.get? (h : book.Sound log) (hg : book.get? id = some entry) :
    entry.id = id ∧ entry.RecordedIn log := by
  have hr := mem_of_lookup hg
  exact ⟨h.keyed.key _ hr, h.recorded _ hr⟩

theorem Book.evaluate_eq_verdictOfText (hg : book.get? id = some entry)
    (hp : Rule.parse entry.text = .ok entry.rule) (record : Record) :
    book.evaluate id record = verdictOfText entry.text record := by
  simp only [evaluate, verdictOfText, hg, hp]

theorem Book.run_creations {definitions : List Definition}
    (h : book.createAll definitions = .ok after) :
    (book.run (Config.creations ⟨definitions⟩)).2 = after := by
  induction definitions generalizing book with
  | nil => exact Except.ok.inj h
  | cons definition rest ih =>
    rw [createAll] at h
    split at h
    case h_1 => cases h
    case h_2 made next hc =>
      have hn : (book.perform (.create definition.name definition.text)).2 = next := by
        simp only [perform, hc]
      rw [← ih h, ← hn]
      rfl

/-- A seed is sound by the creations that its config stands for. -/
theorem Book.Sound.ofConfig (hs : Book.ofConfig config = .ok seed) :
    seed.Sound (Book.empty.transcript config.creations) := by
  have hr := Sound.empty.run config.creations
  rwa [run_creations hs] at hr

/-- As long as the ids last, no two creations are answered with the same one. -/
theorem Book.nodup_newIds {operations : List Operation}
    (hroom : operations.countP Operation.creates < UInt64.size) :
    ((Book.empty.transcript operations).filterMap fun step => step.2.newId?).Nodup := by
  have hroom : Journal.empty.HasRoom operations := by
    rwa [Journal.HasRoom, Journal.length_empty, Nat.zero_add]
  have hids := (Book.Represents.empty.follows hroom).ids
  have hn : ((Book.empty.run operations).1.filterMap Answer.newId?).Nodup := by
    apply List.Nodup.of_map UInt64.toNat
    unfold Answer.newId?
    rw [← List.map_filterMap, List.map_map]
    exact hids ▸ List.nodup_range'
  rwa [← map_snd_transcript, List.filterMap_map] at hn

/-- What a book holds under an id is what the last creation with this id stored, and the verdicts
are those of its text. -/
theorem Book.serves_stored_text (operations : List Operation) (id : UInt64)
    (hs : Book.ofConfig config = .ok seed) :
    (∀ entry, (seed.run operations).2.get? id = some entry →
      entry.id = id ∧
      entry.RecordedIn (Book.empty.transcript config.creations ++ seed.transcript operations) ∧
      ∀ record, (seed.run operations).2.evaluate id record = verdictOfText entry.text record) ∧
    ((seed.run operations).2.get? id = none →
      ∀ record, (seed.run operations).2.evaluate id record = .error (.ruleNotFound id)) ∧
    ((config.creations ++ operations).countP Operation.creates < UInt64.size →
      ((Book.empty.transcript config.creations ++ seed.transcript operations).filterMap
        fun step => step.2.newId?).Nodup) := by
  refine ⟨?_, ?_, ?_⟩
  · intro entry hg
    obtain ⟨hid, hr⟩ := ((Sound.ofConfig hs).run operations).get? hg
    exact ⟨hid, hr, Book.evaluate_eq_verdictOfText hg hr.reads⟩
  · intro hg record
    simp only [evaluate, hg]
  · intro hroom
    have hn := Book.nodup_newIds hroom
    rwa [transcript_append, run_creations hs] at hn

/-- The entry of the seed answers for its own text, the deleted one for none. -/
theorem Book.serves_stored_text_seed :
    ∃ seed entry, Book.ofConfig ⟨[⟨"Adults", "age >= 18"⟩]⟩ = .ok seed ∧
      (seed.run [.create "Young" "age < 30", .delete 2]).2.get? 1 = some entry ∧
      ∀ record,
        (seed.run [.create "Young" "age < 30", .delete 2]).2.evaluate 1 record =
          verdictOfText "age >= 18" record ∧
        (seed.run [.create "Young" "age < 30", .delete 2]).2.evaluate 2 record =
          .error (.ruleNotFound 2) := by
  have hs : ofConfig ⟨[⟨"Adults", "age >= 18"⟩]⟩ =
      .ok ⟨[(1, ⟨1, "Adults", "age >= 18", .operand "age" .greaterEqual (.number 18)⟩)], 2⟩ := by
    decide +kernel
  have hg : (run ⟨[(1, ⟨1, "Adults", "age >= 18", .operand "age" .greaterEqual (.number 18)⟩)], 2⟩
      [.create "Young" "age < 30", .delete 2]).2.get? 1 =
        some ⟨1, "Adults", "age >= 18", .operand "age" .greaterEqual (.number 18)⟩ := by
    decide +kernel
  have hn : (run ⟨[(1, ⟨1, "Adults", "age >= 18", .operand "age" .greaterEqual (.number 18)⟩)], 2⟩
      [.create "Young" "age < 30", .delete 2]).2.get? 2 = none := by
    decide +kernel
  obtain ⟨hfound, -, -⟩ := Book.serves_stored_text [.create "Young" "age < 30", .delete 2] 1 hs
  obtain ⟨-, hgone, -⟩ := Book.serves_stored_text [.create "Young" "age < 30", .delete 2] 2 hs
  refine ⟨_, _, hs, hg, ?_⟩
  intro record
  exact ⟨(hfound _ hg).2.2 record, hgone hn record⟩

end Eligibility
