import Mathlib.Data.List.Forall2
import Eligibility.Book.Config
import Eligibility.Proofs.JsonReading
import Eligibility.Proofs.NodeMembers

namespace Eligibility
set_option autoImplicit true

/-- The one spelling of the two for the text of a definition. -/
def respell (key : String) : String :=
  if key = "ruleString" then "rule_string" else key

def respelled (members : List (Option String × Json)) : List (Option String × Json) :=
  members.map fun member => (member.1.map respell, member.2)

/-- The value is the definition: an object with one name and, under either spelling, one text, or an
array of both. -/
inductive Definition.IsPresentedBy : Definition → Json → Prop
  | object (hn : Named members) (hname : valuesOf "name" members = [.text (some definition.name)])
    (htext : valuesOf "rule_string" (respelled members) = [.text (some definition.text)]) :
    IsPresentedBy definition (.object members)
  | array :
    IsPresentedBy definition (.array [.text (some definition.name), .text (some definition.text)])

/-- The value is an object that presents no definition for the given reason: its text stands there
twice, whatever the spellings, or not at all. -/
inductive Definition.IsFaulty : Json → String → Prop
  | duplicate {found first : String} (hn : Named members)
    (hname : valuesOf "name" members = [.text (some found)])
    (htext : valuesOf "rule_string" (respelled members) = .text (some first) :: second :: others) :
    IsFaulty (.object members) "duplicate field `rule_string`"
  | missing {found : String} (hn : Named members)
    (hname : valuesOf "name" members = [.text (some found)])
    (htext : valuesOf "rule_string" (respelled members) = []) :
    IsFaulty (.object members) "missing field `rule_string`"

/-- The value is a document with the values in its list of rules, or one without such a list. -/
inductive Config.IsDocument : List Json → Json → Prop
  | rules (hn : Named members) (hr : valuesOf "rules" members = [.array values]) :
    IsDocument values (.object members)
  | noRules (hn : Named members) (hr : valuesOf "rules" members = []) :
    IsDocument [] (.object members)
  | array : IsDocument values (.array [.array values])
  | emptyArray : IsDocument [] (.array [])

variable {members rest : List (Option String × Json)} {name key : String} {value : Json}
variable {values : List Json} {definition : Definition} {definitions : List Definition}

theorem Json.isWhole_of_mem (hw : membersWhole members = true)
    (hm : (some name, value) ∈ members) : value.isWhole = true := by
  induction members with
  | nil => cases hm
  | cons member rest ih =>
    obtain ⟨key, inner⟩ := member
    obtain ⟨hinner, hrest⟩ := Bool.and_eq_true_iff.1 hw
    cases hm with
    | head => exact hinner
    | tail _ hm => exact ih hrest hm

theorem gives_toText_iff {text : String} :
    Gives name Json.toText members text ↔ valuesOf name members = [.text (some text)] := by
  constructor
  · rintro ⟨value, hv, hd⟩
    obtain rfl := Json.toText_eq_ok.1 hd
    exact hv
  · intro hv
    exact ⟨_, hv, rfl⟩

/-- What a definition makes of one member. -/
theorem Definition.Draft.add_eq (draft : Draft) (key : String) (hw : value.isWhole = true) :
    draft.add key value = do
      return ⟨← fillFor "name" Json.toText key value draft.name,
        ← fillFor "rule_string" Json.toText (respell key) value draft.text⟩ := by
  unfold add
  split
  · rename_i hk
    subst hk
    rfl
  split
  · rename_i hname htext
    have hspelling : respell key = "rule_string" := by
      rcases htext with rfl | rfl
      · rfl
      · rfl
    rw [fillFor_ne hname, fillFor, if_pos hspelling]
    rfl
  · rename_i hname htext
    obtain ⟨hsnake, hcamel⟩ := not_or.1 htext
    have hspelling : respell key ≠ "rule_string" := by rwa [respell, if_neg hcamel]
    rw [fillFor_ne hname, fillFor_ne hspelling, Json.skip_of_isWhole hw]
    rfl

/-- If the members give at most one name, all that matters is the text that they give. -/
theorem Definition.Draft.addMembers_eq {draft : Draft} (hn : Named members)
    (hw : Json.membersWhole members = true)
    (h : fillAll "name" Json.toText draft.name members = .ok slot) :
    addMembers add draft members =
      (fillAll "rule_string" Json.toText draft.text (respelled members)).map fun text =>
        ⟨slot, text⟩ := by
  induction members generalizing draft with
  | nil =>
    cases h
    rfl
  | cons member rest ih =>
    obtain ⟨name?, value⟩ := member
    cases name? with
    | none => exact absurd hn not_named_cons_none
    | some key =>
      obtain ⟨hv, hrest⟩ := Bool.and_eq_true_iff.1 hw
      rw [fillAll_cons] at h
      obtain ⟨name, hname, hnames⟩ := Decoded.bind_eq_ok.1 h
      have hrespelled : respelled ((some key, value) :: rest) =
          (some (respell key), value) :: respelled rest := rfl
      rw [addMembers_cons, add_eq _ _ hv, hname, Decoded.ok_bind, hrespelled, fillAll_cons]
      cases fillFor "rule_string" Json.toText (respell key) value draft.text with
      | error error => rfl
      | ok text => exact ih (named_cons.1 hn) hrest hnames

theorem Definition.Draft.isWhole_of_add (draft : Draft) (key : String) (value : Json)
    (next : Draft) (h : draft.add key value = .ok next) : value.isWhole = true := by
  unfold add at h
  split at h
  · obtain ⟨slot, hfill, -⟩ := Decoded.bind_eq_ok.1 h
    exact isWhole_of_fill hfill Json.isWhole_of_toText
  split at h
  · obtain ⟨slot, hfill, -⟩ := Decoded.bind_eq_ok.1 h
    exact isWhole_of_fill hfill Json.isWhole_of_toText
  · obtain ⟨_, hskip, -⟩ := Decoded.bind_eq_ok.1 h
    exact Json.skip_eq_ok.1 hskip

theorem Definition.Draft.fillFor_of_add (draft : Draft) (key : String) (value : Json)
    (next : Draft) (h : draft.add key value = .ok next) :
    fillFor "name" Json.toText key value draft.name = .ok next.name := by
  rw [add_eq draft key (isWhole_of_add _ _ _ _ h)] at h
  obtain ⟨name, hname, h⟩ := Decoded.bind_eq_ok.1 h
  obtain ⟨text, -, he⟩ := Decoded.bind_eq_ok.1 h
  cases he
  exact hname

theorem Definition.Draft.finish_eq_ok {draft : Draft} :
    draft.finish = .ok definition ↔ draft = ⟨some definition.name, some definition.text⟩ := by
  obtain ⟨name, text⟩ := draft
  simp only [finish, Decoded.bind_eq_ok, require_eq_ok, Decoded.pure_eq, Except.ok.injEq,
    Draft.mk.injEq]
  constructor
  · rintro ⟨_, rfl, _, rfl, rfl⟩
    exact ⟨rfl, rfl⟩
  · rintro ⟨rfl, rfl⟩
    exact ⟨_, rfl, _, rfl, rfl⟩

theorem Definition.ofJson_object_eq_ok (h : ofJson (.object members) = .ok definition) :
    definition.IsPresentedBy (.object members) ∧ Json.membersWhole members = true := by
  obtain ⟨draft, hadd, hfinish⟩ := Decoded.bind_eq_ok.1 h
  obtain rfl := Draft.finish_eq_ok.1 hfinish
  have hn := named_of_addMembers hadd
  have hw := membersWhole_of_addMembers Draft.isWhole_of_add hadd
  have hname := fillAll_of_addMembers Draft.fillFor_of_add hadd
  rw [Draft.addMembers_eq hn hw hname] at hadd
  obtain ⟨text, htext, he⟩ := Decoded.map_eq_ok.1 hadd
  cases he
  exact ⟨.object hn (gives_toText_iff.1 (fillAll_none_eq_ok.1 hname))
    (gives_toText_iff.1 (fillAll_none_eq_ok.1 htext)), hw⟩

theorem Definition.ofJson_array_eq_ok (h : ofJson (.array values) = .ok definition) :
    values = [.text (some definition.name), .text (some definition.text)] := by
  obtain ⟨⟨name, rest⟩, hname, h⟩ := Decoded.bind_eq_ok.1 h
  obtain ⟨⟨text, rest⟩, htext, h⟩ := Decoded.bind_eq_ok.1 h
  obtain ⟨_, hend, he⟩ := Decoded.bind_eq_ok.1 h
  cases he
  obtain rfl := endElements_eq_ok.1 hend
  obtain ⟨first, rfl, hfirst⟩ := nextElement_eq_ok hname
  obtain ⟨second, rfl, hsecond⟩ := nextElement_eq_ok htext
  obtain rfl := Json.toText_eq_ok.1 hfirst
  obtain rfl := Json.toText_eq_ok.1 hsecond
  rfl

/-- The values that decode to a definition are those that present it. -/
theorem Definition.ofJson_eq_ok :
    ofJson value = .ok definition ↔ definition.IsPresentedBy value ∧ value.isWhole = true := by
  constructor
  · intro h
    cases value with
    | object members => exact ofJson_object_eq_ok h
    | array values =>
      obtain rfl := ofJson_array_eq_ok h
      exact ⟨.array, rfl⟩
    | _ => cases h
  · rintro ⟨hp, hw⟩
    cases hp with
    | object hn hname htext =>
      have hnames := fillAll_none_eq_ok.2 (gives_toText_iff.2 hname)
      have htexts := fillAll_none_eq_ok.2 (gives_toText_iff.2 htext)
      rw [ofJson, Draft.addMembers_eq hn hw hnames, htexts]
      rfl
    | array => rfl

theorem Definition.ofJson_of_isFaulty (h : IsFaulty value detail) (hw : value.isWhole = true) :
    ∃ cause, ofJson value = .error (.mismatch cause) ∧ cause.detail = detail := by
  cases h with
  | duplicate hn hname htext =>
    have hnames := fillAll_none_eq_ok.2 (gives_toText_iff.2 hname)
    have htexts : fillAll "rule_string" Json.toText none (respelled _) = .error _ :=
      fillAll_duplicate htext rfl
    refine ⟨.duplicateField "rule_string", ?_, rfl⟩
    rw [ofJson, Draft.addMembers_eq hn hw hnames, htexts]
    rfl
  | missing hn hname htext =>
    have hnames := fillAll_none_eq_ok.2 (gives_toText_iff.2 hname)
    have htexts : fillAll "rule_string" Json.toText none (respelled _) = .ok none :=
      fillAll_of_valuesOf_nil htext
    refine ⟨.missingField "rule_string", ?_, rfl⟩
    rw [ofJson, Draft.addMembers_eq hn hw hnames, htexts]
    rfl

theorem Definition.mapM_ofJson_eq_ok : values.mapM ofJson = .ok definitions ↔
    List.Forall₂ IsPresentedBy definitions values ∧ Json.elementsWhole values = true := by
  induction values generalizing definitions with
  | nil =>
    rw [List.mapM_nil, List.forall₂_nil_right_iff]
    exact ⟨fun h => ⟨(Except.ok.inj h).symm, rfl⟩, fun h => h.1 ▸ rfl⟩
  | cons value values ih =>
    rw [List.mapM_cons, List.forall₂_cons_right_iff, Json.elementsWhole, Bool.and_eq_true]
    simp only [Decoded.bind_eq_ok, ofJson_eq_ok, ih, Decoded.pure_eq, Except.ok.injEq]
    constructor
    · rintro ⟨definition, ⟨hp, hw⟩, others, ⟨hps, hws⟩, rfl⟩
      exact ⟨⟨definition, others, hp, hps, rfl⟩, hw, hws⟩
    · rintro ⟨⟨definition, others, hp, hps, rfl⟩, hw, hws⟩
      exact ⟨definition, ⟨hp, hw⟩, others, ⟨hps, hws⟩, rfl⟩

/-- Decoding ends at the first value that does not decode. -/
theorem Definition.mapM_ofJson_eq_error {before after : List Json}
    (hb : before.mapM ofJson = .ok definitions) (hf : ofJson value = .error error) :
    (before ++ value :: after).mapM ofJson = .error error := by
  rw [List.mapM_append, hb, Decoded.ok_bind, List.mapM_cons, hf]
  rfl

theorem Config.addMembers_fillFrom (hn : Named members) (hw : Json.membersWhole members = true) :
    addMembers fillFrom slot members = fillAll "rules" definitionsOfJson slot members := by
  apply addMembers_eq_fillAll hn
  intro key value hm slot
  unfold fillFrom fillFor
  split
  · rfl
  · rw [Json.skip_of_isWhole (Json.isWhole_of_mem hw hm)]
    rfl

/-- All that a document says is in its list. -/
theorem Config.ofJson_of_isDocument (hd : IsDocument values value) (hw : value.isWhole = true) :
    ofJson value = (values.mapM Definition.ofJson).map Config.mk := by
  cases hd with
  | rules hn hr =>
    rw [ofJson, addMembers_fillFrom hn hw, fillAll, hr, List.foldlM_cons, definitionsOfJson]
    cases values.mapM Definition.ofJson with
    | error error => rfl
    | ok definitions => rfl
  | noRules hn hr =>
    rw [ofJson, addMembers_fillFrom hn hw, fillAll_of_valuesOf_nil hr]
    rfl
  | array =>
    rw [ofJson, definitionsOfJson]
    cases values.mapM Definition.ofJson with
    | error error => rfl
    | ok definitions => rfl
  | emptyArray => rfl

theorem Config.definitionsOfJson_eq_ok (h : definitionsOfJson value = .ok definitions) :
    ∃ values, value = .array values ∧ values.mapM Definition.ofJson = .ok definitions := by
  cases value with
  | array values => exact ⟨values, rfl, h⟩
  | _ => cases h

theorem Config.isWhole_of_fillFrom (slot : Option (List Definition)) (key : String) (value : Json)
    (next : Option (List Definition)) (h : fillFrom slot key value = .ok next) :
    value.isWhole = true := by
  unfold fillFrom at h
  split at h
  · apply isWhole_of_fill h
    intro definitions hd
    obtain ⟨values, rfl, hm⟩ := definitionsOfJson_eq_ok hd
    exact (Definition.mapM_ofJson_eq_ok.1 hm).2
  · obtain ⟨_, hskip, -⟩ := Decoded.bind_eq_ok.1 h
    exact Json.skip_eq_ok.1 hskip

theorem Config.isDocument_of_ofJson {config : Config} (h : ofJson value = .ok config) :
    value.isWhole = true ∧ ∃ values, IsDocument values value := by
  cases value with
  | object members =>
    obtain ⟨slot, hadd, he⟩ := Decoded.bind_eq_ok.1 h
    have hn := named_of_addMembers hadd
    have hw := membersWhole_of_addMembers isWhole_of_fillFrom hadd
    refine ⟨hw, ?_⟩
    rw [addMembers_fillFrom hn hw] at hadd
    cases slot with
    | none => exact ⟨[], .noRules hn (valuesOf_of_fillAll hadd)⟩
    | some definitions =>
      obtain ⟨list, hr, hd⟩ := fillAll_none_eq_ok.1 hadd
      obtain ⟨values, rfl, -⟩ := definitionsOfJson_eq_ok hd
      exact ⟨values, .rules hn hr⟩
  | array values =>
    cases values with
    | nil => exact ⟨rfl, [], .emptyArray⟩
    | cons value rest =>
      obtain ⟨definitions, hd, h⟩ := Decoded.bind_eq_ok.1 h
      obtain ⟨_, hend, -⟩ := Decoded.bind_eq_ok.1 h
      obtain rfl := endElements_eq_ok.1 hend
      obtain ⟨values, rfl, hm⟩ := definitionsOfJson_eq_ok hd
      have hw := (Definition.mapM_ofJson_eq_ok.1 hm).2
      exact ⟨Bool.and_eq_true_iff.2 ⟨hw, rfl⟩, values, .array⟩
  | _ => cases h

theorem Config.IsDocument.elementsWhole (hd : IsDocument values value)
    (hw : value.isWhole = true) : Json.elementsWhole values = true := by
  cases hd with
  | rules hn hr =>
    have hlist := List.mem_singleton_self (Json.array values)
    rw [← hr] at hlist
    exact Json.isWhole_of_mem hw (mem_valuesOf.1 hlist)
  | array => exact (Bool.and_eq_true_iff.1 hw).1
  | noRules | emptyArray => rfl

theorem Config.decode_of_isDocument {text : String} (ht : IsLooseJson text.toList value)
    (hd : IsDocument values value) :
    decode text = (values.mapM Definition.ofJson).map Config.mk := by
  rw [decode, decodeText_of_read _ ht.read, ofJson_of_isDocument hd ht.isWhole]

theorem Config.decode_eq_ok {text : String} : decode text = .ok ⟨definitions⟩ ↔
    ∃ value values, IsLooseJson text.toList value ∧ IsDocument values value ∧
      List.Forall₂ Definition.IsPresentedBy definitions values := by
  constructor
  · intro h
    obtain ⟨value, hread, hvalue⟩ := decodeText_eq_ok_iff.1 h
    obtain ⟨hw, values, hd⟩ := isDocument_of_ofJson hvalue
    have ht := (isLooseJson_iff_of_read hread hw).2 rfl
    rw [decode_of_isDocument ht hd] at h
    obtain ⟨found, hm, he⟩ := Decoded.map_eq_ok.1 h
    cases he
    exact ⟨value, values, ht, hd, (Definition.mapM_ofJson_eq_ok.1 hm).1⟩
  · rintro ⟨value, values, ht, hd, hp⟩
    have hm := Definition.mapM_ofJson_eq_ok.2 ⟨hp, hd.elementsWhole ht.isWhole⟩
    rw [decode_of_isDocument ht hd, hm]
    rfl

theorem Mismatch.message_of_detail {cause : Mismatch} {text : String} (h : cause.detail = text)
    (place : Option TextPlace) :
    cause.message place = "Deserialization error: " ++ text ++ TextPlace.suffix place := by
  rw [← h]
  rfl

theorem Config.decode_of_isFaulty {text : String} {before after : List Json} {faulty : Json}
    (ht : IsLooseJson text.toList value) (hd : IsDocument (before ++ faulty :: after) value)
    (hp : List.Forall₂ Definition.IsPresentedBy definitions before)
    (hf : Definition.IsFaulty faulty detail) :
    ∃ cause, decode text = .error (.mismatch cause) ∧ ∀ place,
      cause.message place = "Deserialization error: " ++ detail ++ TextPlace.suffix place := by
  have hw := hd.elementsWhole ht.isWhole
  rw [Json.elementsWhole_append, Bool.and_eq_true, Json.elementsWhole, Bool.and_eq_true] at hw
  obtain ⟨hbefore, hfaulty, -⟩ := hw
  have hm := Definition.mapM_ofJson_eq_ok.2 ⟨hp, hbefore⟩
  obtain ⟨cause, hcause, hdetail⟩ := Definition.ofJson_of_isFaulty hf hfaulty
  refine ⟨cause, ?_, Mismatch.message_of_detail hdetail⟩
  rw [decode_of_isDocument ht hd, Definition.mapM_ofJson_eq_error hm hcause]
  rfl

/-- A text decodes to the definitions that the document in it lists, in their order and each under
either spelling, and to no others. A document without a list gives none. The first definition that
has a text twice or not at all decides the error. -/
theorem Config.decode_keeps_definitions (text : String) :
    (∀ definitions, decode text = .ok ⟨definitions⟩ ↔ ∃ value values,
      IsLooseJson text.toList value ∧ IsDocument values value ∧
        List.Forall₂ Definition.IsPresentedBy definitions values) ∧
    (∀ members, IsLooseJson text.toList (.object members) → Named members →
      valuesOf "rules" members = [] → decode text = .ok ⟨[]⟩) ∧
    ∀ value before faulty after definitions detail, IsLooseJson text.toList value →
      IsDocument (before ++ faulty :: after) value →
      List.Forall₂ Definition.IsPresentedBy definitions before →
      Definition.IsFaulty faulty detail →
      ∃ cause, decode text = .error (.mismatch cause) ∧ ∀ place,
        cause.message place = "Deserialization error: " ++ detail ++ TextPlace.suffix place := by
  refine ⟨fun _ => decode_eq_ok, ?_, ?_⟩
  · intro members ht hn hr
    exact decode_eq_ok.2 ⟨_, [], ht, .noRules hn hr, .nil⟩
  · intro value before faulty after definitions detail ht hd hp hf
    exact decode_of_isFaulty ht hd hp hf

/-- The three definitions of the list are an array and two objects with one spelling each. -/
theorem Config.decode_keeps_definitions_mixed :
    decode ("\x7b\"v\": [1e999, \"\\udc00\"], \"r\\u0075les\": [[\"A\", \"age > 30\"],\n" ++
      "\x7b\"x\": null, \"ruleString\": \"\\\"\\ud83d\\ude00\", \"name\": \"é\"\x7d," ++
      "\x7b\"name\": \"\", \"rule_string\": \"\"\x7d]\x7d") =
        .ok ⟨[⟨"A", "age > 30"⟩, ⟨"é", "\"😀"⟩, ⟨"", ""⟩]⟩ ∧
    decode "\x7b\"v\": []\x7d" = .ok ⟨[]⟩ ∧
    (∃ cause, decode ("[[[\"A\", \"\"], \x7b\"ruleString\": \"\", \"name\": \"B\"," ++
        "\"rule_string\": \"\"\x7d, 7]]") = .error (.mismatch cause) ∧
      cause.message none = "Deserialization error: duplicate field `rule_string`") ∧
    ∃ cause, decode "\x7b\"rules\": [\x7b\"name\": \"B\"\x7d]\x7d" = .error (.mismatch cause) ∧
      cause.message (some ⟨1, 23⟩) =
        "Deserialization error: missing field `rule_string` at line 1 column 23" := by
  refine ⟨?_, ?_, ?_, ?_⟩
  · let unknown : Json := .array [.numeral ⟨false, 1, 0, some 999⟩, .text none]
    let first : Json := .array [.text (some "A"), .text (some "age > 30")]
    let second : Json := .object [(some "x", .null), (some "ruleString", .text (some "\"😀")),
      (some "name", .text (some "é"))]
    let third : Json := .object [(some "name", .text (some "")),
      (some "rule_string", .text (some ""))]
    let value : Json := .object [(some "v", unknown), (some "rules", .array [first, second, third])]
    apply ((decode_keeps_definitions _).1 _).2
    refine ⟨value, [first, second, third], isLooseJson_of_scanAll (by decide +kernel) rfl, ?_, ?_⟩
    · exact .rules (by simp [Named]) rfl
    · exact .cons .array (.cons (.object (by simp [Named]) rfl rfl)
        (.cons (.object (by simp [Named]) rfl rfl) .nil))
  · apply (decode_keeps_definitions _).2.1 [(some "v", .array [])]
    · exact isLooseJson_of_scanAll (by decide +kernel) rfl
    · simp [Named]
    · rfl
  · let first : Json := .array [.text (some "A"), .text (some "")]
    let faulty : Json := .object [(some "ruleString", .text (some "")),
      (some "name", .text (some "B")), (some "rule_string", .text (some ""))]
    let last : Json := .numeral ⟨false, 7, 0, none⟩
    have ht : IsLooseJson ("[[[\"A\", \"\"], \x7b\"ruleString\": \"\", \"name\": \"B\"," ++
        "\"rule_string\": \"\"\x7d, 7]]").toList (.array [.array [first, faulty, last]]) :=
      isLooseJson_of_scanAll (by decide +kernel) rfl
    obtain ⟨cause, hcause, hmessage⟩ := (decode_keeps_definitions _).2.2 _ [first] faulty [last]
      [⟨"A", ""⟩] _ ht .array (.cons .array .nil) (.duplicate (by simp [Named]) rfl rfl)
    exact ⟨cause, hcause, hmessage none⟩
  · let faulty : Json := .object [(some "name", .text (some "B"))]
    have ht : IsLooseJson "\x7b\"rules\": [\x7b\"name\": \"B\"\x7d]\x7d".toList
        (.object [(some "rules", .array [faulty])]) :=
      isLooseJson_of_scanAll (by decide +kernel) rfl
    obtain ⟨cause, hcause, hmessage⟩ := (decode_keeps_definitions _).2.2 _ [] faulty [] [] _ ht
      (.rules (by simp [Named]) rfl) .nil (.missing (by simp [Named]) rfl rfl)
    exact ⟨cause, hcause, hmessage _⟩

end Eligibility
