import Eligibility.Proofs.Provenance
import Eligibility.Proofs.RuleJson

namespace Eligibility
set_option autoImplicit true

/-- The entry survives its JSON text, with the rule that its text reads as and that the book
evaluates. -/
structure Book.Exports (book : Book) (entry : Entry) : Prop where
  decodes : Entry.decode entry.encode = .ok entry
  reads : Rule.parse entry.text = .ok entry.rule
  evaluates : ∀ record,
    book.evaluate entry.id record = (entry.rule.evaluate record).mapError .evaluation

variable {book seed : Book} {entry : Entry} {id : UInt64}

theorem Json.toInteger_ofUInt64 (n : UInt64) :
    (ofInt n.toNat).toInteger = .ok (n.toNat : Int) := by
  have hmin : Int64.minValue.toInt ≤ (n.toNat : Int) :=
    Int.le_trans (by decide) (Int.natCast_nonneg _)
  have hmax : (n.toNat : Int) < UInt64.size := Int.ofNat_lt.2 n.toNat_lt_size
  exact toInteger_ofInt hmin hmax

theorem Json.toUInt64_ofUInt64 (n : UInt64) : (ofInt n.toNat).toUInt64 = .ok n := by
  rw [toUInt64, toInteger_ofUInt64]
  simp only [if_pos (Int.natCast_nonneg _), Int.toNat_natCast, UInt64.ofNat_toNat]

theorem Entry.isReadable_toJson (entry : Entry) : entry.toJson.isReadable = true := by
  simp only [toJson, Json.isReadable, Json.membersReadable, Json.isReadable_ofUInt64,
    entry.rule.isReadable_toJson, Option.isSome_some, Bool.and_true]

theorem Entry.Draft.add_id (draft : Draft) (id : UInt64) (h : draft.id = none) :
    draft.add "id" (.ofInt id.toNat) = .ok { draft with id := some id } := by
  simp [add, h, Json.toUInt64_ofUInt64]

theorem Entry.Draft.add_name (draft : Draft) (name : String) (h : draft.name = none) :
    draft.add "name" (.text (some name)) = .ok { draft with name := some name } := by
  simp [add, h, Json.toText]

theorem Entry.Draft.add_text (draft : Draft) (text : String) (h : draft.text = none) :
    draft.add "rule_string" (.text (some text)) = .ok { draft with text := some text } := by
  simp [add, h, Json.toText]

theorem Entry.Draft.add_rule (draft : Draft) (value : Json) (h : draft.rule = none) :
    draft.add "ast" value =
      (ruleOfJson value).map fun rule => { draft with rule := some rule } := by
  simp only [add, h]
  cases ruleOfJson value with
  | error => rfl
  | ok => rfl

/-- All of an entry but its rule is always decoded. -/
theorem Entry.ofJson_toJson (entry : Entry) :
    ofJson entry.toJson = (ruleOfJson entry.rule.toJson).map fun rule => { entry with rule } := by
  rw [toJson, ofJson, addMembers_cons, Draft.add_id _ _ rfl, Decoded.ok_bind, addMembers_cons,
    Draft.add_name _ _ rfl, Decoded.ok_bind, addMembers_cons, Draft.add_text _ _ rfl,
    Decoded.ok_bind, addMembers_cons, Draft.add_rule _ _ rfl]
  cases ruleOfJson entry.rule.toJson with
  | error => rfl
  | ok => rfl

/-- The entry takes up one of the 127 levels, so that its rule has 126. -/
theorem Entry.ruleOfJson_toJson (rule : Rule) :
    ruleOfJson rule.toJson = if rule.depth ≤ 126 then .ok rule else .error .malformed :=
  rule.ofJsonWithin_toJson (by decide)

theorem Entry.decode_encode_eq (entry : Entry) :
    decode entry.encode = if entry.rule.depth ≤ 126 then .ok entry else .error .malformed := by
  rw [decode, encode, decodeText_write _ entry.isReadable_toJson, ofJson_toJson, ruleOfJson_toJson]
  split
  · rfl
  · rfl

theorem Book.Sound.exports (h : book.Sound log) (hg : book.get? id = some entry) :
    book.Exports entry where
  decodes := by
    have hd : entry.rule.depth ≤ 100 := (Rule.derives_of_parse (h.get? hg).2.reads).1
    rw [Entry.decode_encode_eq, if_pos (Nat.le_trans hd (by decide))]
  reads := (h.get? hg).2.reads
  evaluates record := by
    rw [← (h.get? hg).1] at hg
    simp only [evaluate, hg]

/-- The JSON text of an entry decodes to the entry if its rule has at most 126 levels, and is
refused as malformed beyond. What a book returns always survives. -/
theorem Entry.import_export (operations : List Operation) (hs : Book.ofConfig config = .ok seed) :
    (∀ entry : Entry, decode entry.encode =
      if entry.rule.depth ≤ 126 then .ok entry else .error .malformed) ∧
    (∀ id entry, (seed.run operations).2.get? id = some entry →
      (seed.run operations).2.Exports entry) ∧
    ∀ entry ∈ (seed.run operations).2.list, (seed.run operations).2.Exports entry := by
  have hsound := (Book.Sound.ofConfig hs).run operations
  refine ⟨decode_encode_eq, fun id entry => hsound.exports, ?_⟩
  intro entry he
  exact hsound.exports (hsound.keyed.get?_eq_some_iff.2 ⟨he, rfl⟩)

/-- The name has a control character, a quote and a backslash. -/
theorem Entry.import_export_escapes :
    ∃ seed entry, Book.ofConfig ⟨[⟨"\n\"\\", "age > 30"⟩]⟩ = .ok seed ∧
      (seed.run [.create "Young" "age < 30"]).2.get? 1 = some entry ∧
      decode entry.encode = .ok entry ∧ Rule.parse entry.text = .ok entry.rule := by
  have hs : Book.ofConfig ⟨[⟨"\n\"\\", "age > 30"⟩]⟩ =
      .ok ⟨[(1, ⟨1, "\n\"\\", "age > 30", .operand "age" .greater (.number 30)⟩)], 2⟩ := by
    decide +kernel
  have hg : (Book.run ⟨[(1, ⟨1, "\n\"\\", "age > 30", .operand "age" .greater (.number 30)⟩)], 2⟩
      [.create "Young" "age < 30"]).2.get? 1 =
        some ⟨1, "\n\"\\", "age > 30", .operand "age" .greater (.number 30)⟩ := by
    decide +kernel
  obtain ⟨-, hfound, -⟩ := Entry.import_export [.create "Young" "age < 30"] hs
  exact ⟨_, _, hs, hg, (hfound 1 _ hg).decodes, (hfound 1 _ hg).reads⟩

end Eligibility
