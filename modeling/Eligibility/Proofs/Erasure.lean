import Eligibility.Proofs.Provenance

namespace Eligibility
set_option autoImplicit true

def Operation.onlyReads : Operation → Bool
  | .get _ | .list | .evaluate _ _ => true
  | .create _ _ | .delete _ => false

/-- The operation asks for nothing but an answer, or it was refused. -/
def Passive (step : Operation × Answer) : Prop :=
  step.1.onlyReads = true ∨ ∃ error, step.2 = .failed error

/-- The second log is the first one without any number of its passive steps. -/
inductive IsErasure : List (Operation × Answer) → List (Operation × Answer) → Prop
  | nil : IsErasure [] []
  | keep (step : Operation × Answer) (h : IsErasure log kept) :
    IsErasure (step :: log) (step :: kept)
  | erase (hp : Passive step) (h : IsErasure log kept) : IsErasure (step :: log) kept

variable {book : Book} {operation : Operation} {operations : List Operation}
  {kept : List (Operation × Answer)}

theorem Book.perform_onlyReads (book : Book) (h : operation.onlyReads = true) :
    (book.perform operation).2 = book := by
  cases operation with
  | create => cases h
  | get => rfl
  | list => rfl
  | evaluate id record =>
    rw [perform]
    cases book.evaluate id record with
    | ok => rfl
    | error => rfl
  | delete => cases h

theorem Book.perform_failed (h : (book.perform operation).1 = .failed error) :
    (book.perform operation).2 = book := by
  cases operation with
  | create name text =>
    rw [perform] at h ⊢
    cases hc : book.create name text with
    | ok made =>
      rw [hc] at h
      cases h
    | error => rfl
  | get => rfl
  | list => rfl
  | evaluate id record => exact book.perform_onlyReads rfl
  | delete id =>
    rw [perform] at h ⊢
    cases hd : book.delete id with
    | ok after =>
      rw [hd] at h
      cases h
    | error => rfl

theorem Passive.perform (h : Passive (operation, (book.perform operation).1)) :
    (book.perform operation).2 = book := by
  rcases h with h | ⟨error, h⟩
  · exact book.perform_onlyReads h
  · exact Book.perform_failed h

theorem Book.transcript_cons (book : Book) (operation : Operation) (rest : List Operation) :
    book.transcript (operation :: rest) =
      (operation, (book.perform operation).1) :: (book.perform operation).2.transcript rest :=
  rfl

theorem Book.run_cons (book : Book) (operation : Operation) (rest : List Operation) :
    (book.run (operation :: rest)).2 = ((book.perform operation).2.run rest).2 :=
  rfl

/-- What is left out does not change the book from which the rest goes on. -/
theorem IsErasure.run (h : IsErasure (book.transcript operations) kept) :
    book.transcript (kept.map Prod.fst) = kept ∧
      (book.run (kept.map Prod.fst)).2 = (book.run operations).2 := by
  induction operations generalizing book kept with
  | nil =>
    cases h
    exact ⟨rfl, rfl⟩
  | cons operation rest ih =>
    rw [Book.transcript_cons] at h
    cases h with
    | keep step h =>
      obtain ⟨hanswers, hbook⟩ := ih h
      exact ⟨congrArg (_ :: ·) hanswers, hbook⟩
    | erase hp h =>
      have hsame := hp.perform
      rw [hsame] at h
      rw [Book.run_cons, hsame]
      exact ih h

theorem Book.run_of_parse_error (book : Book) (earlier : List Operation) (name : String)
    (hp : Rule.parse text = .error error) :
    (book.run (earlier ++ [.create name text])).2 = (book.run earlier).2 := by
  rw [run_append, run_cons]
  simp only [perform, create, hp, run]

/-- Operations that failed or only read can be left out anywhere in a run: all others are answered
as before and the same book is left. A text with a fault uses up no id. -/
theorem Book.run_without_passive (h : IsErasure (book.transcript operations) kept) :
    book.transcript (kept.map Prod.fst) = kept ∧
      (book.run (kept.map Prod.fst)).2 = (book.run operations).2 ∧
      ∀ earlier name text error, Rule.parse text = .error error →
        (book.run (earlier ++ [.create name text])).2 = (book.run earlier).2 := by
  obtain ⟨hanswers, hbook⟩ := h.run
  refine ⟨hanswers, hbook, ?_⟩
  intro earlier name text error hp
  exact book.run_of_parse_error earlier name hp

/-- A text with a fault, a deletion and a verdict of an unknown rule, a rule without a verdict and
two questions are left out. -/
theorem Book.run_without_passive_mixed :
    let adults : Entry := ⟨1, "b", "age > 30", .operand "age" .greater (.number 30)⟩
    let nobody : Entry := ⟨2, "c", "team = 1", .operand "team" .equal (.number 1)⟩
    let kept : List (Operation × Answer) := [(.create "b" "age > 30", .created adults),
      (.create "c" "team = 1", .created nobody), (.list, .listed [adults, nobody]),
      (.delete 1, .deleted)]
    Book.empty.transcript
        [.create "b" "age > 30", .create "c" "team = 1", .list, .delete 1] = kept ∧
      (Book.empty.run [.create "b" "age > 30", .create "c" "team = 1", .list, .delete 1]).2 =
        (Book.empty.run [.create "a" "age >", .create "b" "age > 30", .delete 7, .get 1,
          .evaluate 7 .default, .create "c" "team = 1", .evaluate 2 .default, .list, .delete 1,
          .list]).2 := by
  intro adults nobody kept
  let early : List Operation := [.create "a" "age >", .create "b" "age > 30", .delete 7, .get 1,
    .evaluate 7 .default, .create "c" "team = 1", .evaluate 2 .default]
  have hearly : Book.empty.run early = ([.failed (.parse ⟨5, .missingValue none⟩), .created adults,
      .failed (.ruleNotFound 7), .found (some adults), .failed (.ruleNotFound 7), .created nobody,
      .failed (.evaluation (.unknownField "team"))], ⟨[(1, adults), (2, nobody)], 3⟩) := by
    decide +kernel
  have hboth : Book.list ⟨[(1, adults), (2, nobody)], 3⟩ = [adults, nobody] :=
    List.mergeSort_of_pairwise (by decide)
  have hdelete : Book.delete ⟨[(1, adults), (2, nobody)], 3⟩ 1 = .ok ⟨[(2, nobody)], 3⟩ := by
    decide +kernel
  have hone : Book.list ⟨[(2, nobody)], 3⟩ = [nobody] := List.mergeSort_singleton nobody
  have hanswers : (Book.empty.run (early ++ [.list, .delete 1, .list])).1 =
      [.failed (.parse ⟨5, .missingValue none⟩), .created adults, .failed (.ruleNotFound 7),
        .found (some adults), .failed (.ruleNotFound 7), .created nobody,
        .failed (.evaluation (.unknownField "team")), .listed [adults, nobody], .deleted,
        .listed [nobody]] := by
    rw [run_append_eq, hearly]
    simp only [run, perform, hboth, hdelete, hone]
    rfl
  have herasure : IsErasure (Book.empty.transcript (early ++ [.list, .delete 1, .list])) kept := by
    rw [transcript, hanswers]
    apply IsErasure.erase (.inr ⟨_, rfl⟩)
    apply IsErasure.keep
    apply IsErasure.erase (.inr ⟨_, rfl⟩)
    apply IsErasure.erase (.inl rfl)
    apply IsErasure.erase (.inr ⟨_, rfl⟩)
    apply IsErasure.keep
    apply IsErasure.erase (.inr ⟨_, rfl⟩)
    apply IsErasure.keep
    apply IsErasure.keep
    apply IsErasure.erase (.inl rfl)
    exact .nil
  obtain ⟨hkept, hbook, -⟩ := Book.run_without_passive herasure
  exact ⟨hkept, hbook⟩

end Eligibility
