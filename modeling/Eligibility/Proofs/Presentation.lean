import Mathlib.Logic.Relation
import Eligibility.Proofs.JsonReading
import Eligibility.Proofs.RuleJson

namespace Eligibility
set_option autoImplicit true

/-- The names of the parts of a node in the order of their declaration. -/
def NodeKind.fields : NodeKind → List String
  | .operand => ["field", "comparator", "value"]
  | .operator => ["operator", "left", "right"]

def NodeKind.comparatorField : NodeKind → String
  | .operand => "comparator"
  | .operator => "operator"

/-- The two values differ in how one node is presented. The node is the outermost one or, as `child`
has it, one inside of it. A node in an array is changed by way of the object that it stands for. -/
inductive IsChange : Json → Json → Prop
  | reorder (hm : members.Perm members') : IsChange (.object members) (.object members')
  | add (kind : NodeKind) (ht : (some "type", kind.toJson) ∈ members) (hn : name ≠ "type")
    (hf : name ∉ kind.fields) (value : Json) :
    IsChange (.object members) (.object ((some name, value) :: members))
  | array (kind : NodeKind) (parts : List Json) (hl : parts.length = kind.fields.length) :
    IsChange (.object ((some "type", kind.toJson) :: (kind.fields.map some).zip parts))
      (.array (kind.toJson :: parts))
  | comparator (kind : NodeKind) (ht : (some "type", kind.toJson) ∈ members) (c : Comparator) :
    IsChange (.object ((some kind.comparatorField, .text (some c.lexeme)) :: members))
      (.object ((some kind.comparatorField, .object [(some c.lexeme, .null)]) :: members))
  | child (ht : (some "type", NodeKind.operator.toJson) ∈ members)
    (hs : side = "left" ∨ side = "right") (h : IsChange value value') :
    IsChange (.object ((some side, value) :: members)) (.object ((some side, value') :: members))

variable {members members' rest : List (Option String × Json)} {name key : String}
variable {value value' : Json} {rule : Rule} {kind found : NodeKind}

theorem IsChange.eqvGen_child (ht : (some "type", NodeKind.operator.toJson) ∈ members)
    (hs : name = "left" ∨ name = "right") (h : Relation.EqvGen IsChange value value') :
    Relation.EqvGen IsChange (.object ((some name, value) :: members))
      (.object ((some name, value') :: members)) := by
  induction h with
  | rel value value' h => exact .rel _ _ (.child ht hs h)
  | refl value => exact .refl _
  | symm value value' h ih => exact .symm _ _ ih
  | trans value inner value' h h' ih ih' => exact .trans _ _ _ ih ih'

/-- What may change in a member of an object may change in an element of an array. -/
theorem IsChange.eqvGen_element {names names' : List String} {parts parts' : List Json}
    (hf : kind.fields = names ++ name :: names') (hl : names.length = parts.length)
    (hl' : names'.length = parts'.length)
    (h : ∀ members, (some "type", kind.toJson) ∈ members → Relation.EqvGen IsChange
      (.object ((some name, value) :: members)) (.object ((some name, value') :: members))) :
    Relation.EqvGen IsChange (.array (kind.toJson :: (parts ++ value :: parts')))
      (.array (kind.toJson :: (parts ++ value' :: parts'))) := by
  let others := (some "type", kind.toJson) :: ((names.map some).zip parts ++
    (names'.map some).zip parts')
  -- The array is that object with the member in its place among the others.
  have harray (value : Json) : Relation.EqvGen IsChange (.object ((some name, value) :: others))
      (.array (kind.toJson :: (parts ++ value :: parts'))) := by
    have hlength : (parts ++ value :: parts').length = kind.fields.length := by
      simp [hf, hl, hl']
    have hzip : (kind.fields.map some).zip (parts ++ value :: parts') =
        (names.map some).zip parts ++ (some name, value) :: (names'.map some).zip parts' := by
      rw [hf, List.map_append, List.zip_append (by simpa using hl)]
      rfl
    have hchange := IsChange.array kind (parts ++ value :: parts') hlength
    rw [hzip] at hchange
    have hperm : ((some name, value) :: others).Perm ((some "type", kind.toJson) ::
        ((names.map some).zip parts ++ (some name, value) :: (names'.map some).zip parts')) :=
      (List.Perm.swap ..).trans (List.perm_middle.symm.cons _)
    exact .trans _ _ _ (.rel _ _ (.reorder hperm)) (.rel _ _ hchange)
  exact .trans _ _ _ (.symm _ _ (harray value))
    (.trans _ _ _ (h others List.mem_cons_self) (harray value'))

theorem NodeKind.ofInnerJson_toJson (kind : NodeKind) : ofInnerJson kind.toJson = .ok kind := by
  cases kind <;> rfl

theorem NodeKind.eq_of_gives (ht : (some "type", kind.toJson) ∈ members)
    (h : Gives "type" ofInnerJson members found) : found = kind := by
  have hd := h.eq_of_mem ht
  rw [ofInnerJson_toJson] at hd
  exact (Except.ok.inj hd).symm

theorem Named.perm_iff (h : members.Perm members') : Named members ↔ Named members' :=
  forall_congr' fun _ => imp_congr_left h.mem_iff

theorem Gives.perm_iff (h : members.Perm members') {decode : Json → Decoded α} :
    Gives name decode members a ↔ Gives name decode members' a := by
  have hvalues : (valuesOf name members).Perm (valuesOf name members') := h.filterMap _
  refine exists_congr fun value => and_congr_left fun _ => ?_
  rw [← List.perm_singleton, ← List.perm_singleton]
  exact ⟨hvalues.symm.trans, hvalues.trans⟩

theorem gives_cons_ne (h : key ≠ name) {decode : Json → Decoded α} :
    Gives name decode ((some key, value) :: rest) a ↔ Gives name decode rest a := by
  rw [Gives, valuesOf_cons_ne h, Gives]

/-- Members are exchanged for others that are decoded alike under the name that they have. -/
theorem gives_cons_congr {decode : Json → Decoded α}
    (h : key = name → (decode value = .ok a ↔ decode value' = .ok a)) :
    Gives name decode ((some key, value) :: rest) a ↔
      Gives name decode ((some key, value') :: rest) a := by
  by_cases hk : key = name
  · subst hk
    simp only [Gives, valuesOf_cons_self, List.cons.injEq]
    constructor
    · rintro ⟨_, ⟨rfl, hrest⟩, hd⟩
      exact ⟨value', ⟨rfl, hrest⟩, (h rfl).1 hd⟩
    · rintro ⟨_, ⟨rfl, hrest⟩, hd⟩
      exact ⟨value, ⟨rfl, hrest⟩, (h rfl).2 hd⟩
  · rw [gives_cons_ne hk, gives_cons_ne hk]

theorem NodeKind.givesRule_perm_iff (h : members.Perm members') (kind : NodeKind) :
    kind.GivesRule members rule ↔ kind.GivesRule members' rule := by
  cases kind <;> simp only [GivesRule, Gives.perm_iff h]

theorem NodeKind.givesRule_cons_ne (h : key ∉ kind.fields) :
    kind.GivesRule ((some key, value) :: rest) rule ↔ kind.GivesRule rest rule := by
  cases kind with
  | operand =>
    have hne : key ≠ "field" ∧ key ≠ "comparator" ∧ key ≠ "value" := by simpa [fields] using h
    simp only [GivesRule, gives_cons_ne hne.1, gives_cons_ne hne.2.1, gives_cons_ne hne.2.2]
  | operator =>
    have hne : key ≠ "operator" ∧ key ≠ "left" ∧ key ≠ "right" := by simpa [fields] using h
    simp only [GivesRule, gives_cons_ne hne.1, gives_cons_ne hne.2.1, gives_cons_ne hne.2.2]

theorem NodeKind.givesRule_operator_congr
    (hc : key = "operator" →
      ∀ c, Comparator.ofJson value = .ok c ↔ Comparator.ofJson value' = .ok c)
    (hs : key = "left" ∨ key = "right" →
      ∀ rule, Rule.ofJson value = .ok rule ↔ Rule.ofJson value' = .ok rule) :
    operator.GivesRule ((some key, value) :: rest) rule ↔
      operator.GivesRule ((some key, value') :: rest) rule := by
  refine exists_congr fun c => exists_congr fun left => exists_congr fun right => ?_
  rw [gives_cons_congr fun hk => hc hk c, gives_cons_congr fun hk => hs (.inl hk) left,
    gives_cons_congr fun hk => hs (.inr hk) right]

/-- An object that names a comparator is decoded as the name alone. -/
theorem NodeKind.givesRule_comparator (kind : NodeKind) (name : String) :
    kind.GivesRule ((some kind.comparatorField, .text (some name)) :: rest) rule ↔
      kind.GivesRule ((some kind.comparatorField, .object [(some name, .null)]) :: rest) rule := by
  cases kind with
  | operand =>
    refine exists_congr fun field => exists_congr fun c => exists_congr fun literal => ?_
    refine and_congr (gives_cons_congr nofun) (and_congr ?_ ?_)
    · exact gives_cons_congr fun _ => .rfl
    · exact and_congr (gives_cons_congr nofun) .rfl
  | operator => exact givesRule_operator_congr (fun _ _ => .rfl) nofun

theorem NodeKind.comparatorField_ne (kind : NodeKind) : kind.comparatorField ≠ "type" := by
  cases kind <;> decide

/-- Two objects with the same string as tag are decoded alike if they give the same rules. -/
theorem Rule.ofJson_object_congr (hn : Named members ↔ Named members')
    (ht : ∀ found, Gives "type" NodeKind.ofInnerJson members found ↔
      Gives "type" NodeKind.ofInnerJson members' found)
    (hr : ∀ found, Gives "type" NodeKind.ofInnerJson members found →
      (found.GivesRule members rule ↔ found.GivesRule members' rule)) :
    ofJson (.object members) = .ok rule ↔ ofJson (.object members') = .ok rule := by
  rw [ofJson_object_eq_ok, ofJson_object_eq_ok, hn]
  refine and_congr_right fun _ => exists_congr fun found => ?_
  rw [← ht]
  exact and_congr_right (hr found)

theorem gives_cons_self (h : valuesOf name rest = []) {decode : Json → Decoded α} :
    Gives name decode ((some name, value) :: rest) a ↔ decode value = .ok a := by
  rw [Gives, valuesOf_cons_self, h]
  constructor
  · rintro ⟨_, he, hd⟩
    cases he
    exact hd
  · intro hd
    exact ⟨value, rfl, hd⟩

theorem Rule.operandOfElements_eq_ok (field comparator literal : Json) :
    operandOfElements [field, comparator, literal] = .ok rule ↔ ∃ f c l,
      field.toText = .ok f ∧ Comparator.ofJson comparator = .ok c ∧
        Literal.ofJson literal = .ok l ∧ rule = .operand f c l := by
  simp only [operandOfElements, Decoded.bind_eq_ok, Prod.exists, nextElement_cons_eq_ok, and_assoc,
    exists_and_left, exists_eq_left]
  constructor
  · rintro ⟨f, hf, c, hc, l, hl, _, -, he⟩
    exact ⟨f, hf, c, hc, l, hl, (Except.ok.inj he).symm⟩
  · rintro ⟨f, hf, c, hc, l, hl, rfl⟩
    exact ⟨f, hf, c, hc, l, hl, (), rfl, rfl⟩

theorem Rule.operatorOfElements_eq_ok (connective left right : Json) :
    operatorOfElements [connective, left, right] = .ok rule ↔ ∃ c l r,
      Comparator.ofJson connective = .ok c ∧ ofJson left = .ok l ∧ ofJson right = .ok r ∧
        rule = .operator c l r := by
  simp only [operatorOfElements, Decoded.bind_eq_ok]
  constructor
  · rintro ⟨c, hc, l, hl, r, hr, _, -, he⟩
    exact ⟨c, l, r, hc, hl, hr, (Except.ok.inj he).symm⟩
  · rintro ⟨c, l, r, hc, hl, hr, rfl⟩
    exact ⟨c, hc, l, hl, r, hr, (), rfl, rfl⟩

theorem named_zip (names : List String) (parts : List Json) :
    Named ((names.map some).zip parts) := by
  intro (key, value) hm
  obtain ⟨name, -, rfl⟩ := List.mem_map.1 (List.of_mem_zip hm).1
  exact nofun

theorem valuesOf_zip {names : List String} (h : name ∉ names) (parts : List Json) :
    valuesOf name ((names.map some).zip parts) = [] := by
  refine List.eq_nil_iff_forall_not_mem.2 fun value hv => h ?_
  obtain ⟨found, hm, he⟩ := List.mem_map.1 (List.of_mem_zip (mem_valuesOf.1 hv)).1
  rwa [← Option.some.inj he]

theorem NodeKind.type_notMem_fields (kind : NodeKind) : "type" ∉ kind.fields := by
  cases kind <;> decide

theorem gives_type_zip (kind : NodeKind) (parts : List Json) {decode : Json → Decoded α} :
    Gives "type" decode ((some "type", kind.toJson) :: (kind.fields.map some).zip parts) a ↔
      decode kind.toJson = .ok a :=
  gives_cons_self (valuesOf_zip kind.type_notMem_fields parts)

theorem Rule.ofJson_zip_eq_ok (kind : NodeKind) (parts : List Json) :
    ofJson (.object ((some "type", kind.toJson) :: (kind.fields.map some).zip parts)) = .ok rule ↔
      kind.GivesRule ((kind.fields.map some).zip parts) rule := by
  rw [ofJson_object_eq_ok, named_cons]
  constructor
  · rintro ⟨-, found, ht, hr⟩
    obtain rfl := NodeKind.eq_of_gives List.mem_cons_self ht
    exact (NodeKind.givesRule_cons_ne found.type_notMem_fields).1 hr
  · intro hr
    exact ⟨named_zip _ _, kind, (gives_type_zip kind parts).2 kind.ofInnerJson_toJson,
      (NodeKind.givesRule_cons_ne kind.type_notMem_fields).2 hr⟩

/-- A node in an array is decoded as the object with the elements as its members. -/
theorem Rule.ofJson_array_iff (kind : NodeKind) (parts : List Json)
    (hl : parts.length = kind.fields.length) :
    ofJson (.object ((some "type", kind.toJson) :: (kind.fields.map some).zip parts)) = .ok rule ↔
      ofJson (.array (kind.toJson :: parts)) = .ok rule := by
  rw [ofJson_zip_eq_ok]
  match kind, parts, hl with
  | .operand, [field, comparator, literal], _ =>
    have harray : ofJson (.array (NodeKind.operand.toJson :: [field, comparator, literal])) =
        operandOfElements [field, comparator, literal] := by
      rw [ofJson]
      rfl
    rw [harray, operandOfElements_eq_ok]
    refine exists_congr fun f => exists_congr fun c => exists_congr fun l => ?_
    refine and_congr (gives_cons_self rfl) (and_congr ?_ (and_congr ?_ .rfl))
    · exact (gives_cons_ne (by decide)).trans (gives_cons_self rfl)
    · exact ((gives_cons_ne (by decide)).trans (gives_cons_ne (by decide))).trans
        (gives_cons_self rfl)
  | .operator, [connective, left, right], _ =>
    have harray : ofJson (.array (NodeKind.operator.toJson :: [connective, left, right])) =
        operatorOfElements [connective, left, right] := by
      rw [ofJson]
      rfl
    rw [harray, operatorOfElements_eq_ok]
    refine exists_congr fun c => exists_congr fun l => exists_congr fun r => ?_
    refine and_congr (gives_cons_self rfl) (and_congr ?_ (and_congr ?_ .rfl))
    · exact (gives_cons_ne (by decide)).trans (gives_cons_self rfl)
    · exact ((gives_cons_ne (by decide)).trans (gives_cons_ne (by decide))).trans
        (gives_cons_self rfl)

/-- No change matters to what a node is decoded as. -/
theorem IsChange.ofJson_iff (h : IsChange value value') :
    ∀ rule, Rule.ofJson value = .ok rule ↔ Rule.ofJson value' = .ok rule := by
  induction h with
  | reorder hm =>
    intro rule
    exact Rule.ofJson_object_congr (Named.perm_iff hm) (fun _ => Gives.perm_iff hm)
      fun found _ => found.givesRule_perm_iff hm
  | add kind ht hn hf value =>
    intro rule
    refine Rule.ofJson_object_congr named_cons.symm (fun _ => (gives_cons_ne hn).symm) ?_
    intro found hfound
    obtain rfl := NodeKind.eq_of_gives ht hfound
    exact (NodeKind.givesRule_cons_ne hf).symm
  | array kind parts hl => exact fun rule => Rule.ofJson_array_iff kind parts hl
  | comparator kind ht c =>
    intro rule
    have hne := kind.comparatorField_ne
    refine Rule.ofJson_object_congr (named_cons.trans named_cons.symm)
      (fun _ => (gives_cons_ne hne).trans (gives_cons_ne hne).symm) ?_
    intro found hfound
    obtain rfl := NodeKind.eq_of_gives ht ((gives_cons_ne hne).1 hfound)
    exact found.givesRule_comparator c.lexeme
  | @child members side value value' ht hs h ih =>
    intro rule
    have hne : side ≠ "type" := by rcases hs with rfl | rfl <;> decide
    have ho : side ≠ "operator" := by rcases hs with rfl | rfl <;> decide
    refine Rule.ofJson_object_congr (named_cons.trans named_cons.symm)
      (fun _ => (gives_cons_ne hne).trans (gives_cons_ne hne).symm) ?_
    intro found hfound
    obtain rfl := NodeKind.eq_of_gives ht ((gives_cons_ne hne).1 hfound)
    exact NodeKind.givesRule_operator_congr (fun hk => absurd hk ho) fun _ => ih

/-- Nor does it matter to whether the tag is a string. -/
theorem IsChange.tagIsText_iff (h : IsChange value value') :
    value.TagIsText ↔ value'.TagIsText := by
  cases h with
  | reorder hm => exact exists_congr fun _ => Gives.perm_iff hm
  | add kind ht hn hf value => exact exists_congr fun _ => (gives_cons_ne hn).symm
  | array kind parts hl =>
    have htag := kind.ofJson_toJson
    exact iff_of_true ⟨kind, (gives_type_zip kind parts).2 htag⟩ ⟨kind, htag⟩
  | comparator kind ht c =>
    have hne := kind.comparatorField_ne
    exact exists_congr fun _ => (gives_cons_ne hne).trans (gives_cons_ne hne).symm
  | @child members side value value' ht hs h =>
    have hne : side ≠ "type" := by rcases hs with rfl | rfl <;> decide
    exact exists_congr fun _ => (gives_cons_ne hne).trans (gives_cons_ne hne).symm

/-- All changes together leave the rule and the form of the tag as they are. -/
theorem IsChange.eqvGen_iff (h : Relation.EqvGen IsChange value value') (rule : Rule) :
    Rule.ofJson value = .ok rule ∧ value.TagIsText ↔
      Rule.ofJson value' = .ok rule ∧ value'.TagIsText := by
  induction h with
  | rel value value' h => exact and_congr (h.ofJson_iff rule) h.tagIsText_iff
  | refl value => exact .rfl
  | symm value value' h ih => exact ih.symm
  | trans value inner value' h h' ih ih' => exact ih.trans ih'

/-- What a text decodes to does not depend on how the nodes and the tokens of its value are
presented, as long as there is room and no number is beyond the doubles. -/
theorem Rule.decode_presented {text : String} (h : decode text = .ok rule) :
    ∃ value, (∀ other, IsJson text.toList other ↔ other = value) ∧
      ∀ (value' : Json) (text' : String), Relation.EqvGen IsChange value value' →
        IsJson text'.toList value' → value'.nesting ≤ 127 →
        (∀ n, .numeral n ∈ value'.tokens → n.overflows = false) → decode text' = .ok rule := by
  have hroom : 0 < maxNesting := by decide
  obtain ⟨value, hread, hwithin⟩ := decodeText_eq_ok_iff.1 h
  obtain ⟨hrule, htag, -, hreadable⟩ := (ofJsonWithin_eq_ok hroom).1 hwithin
  refine ⟨value, fun other => isJson_iff_of_read hread hreadable, ?_⟩
  intro value' text' hchanges htext hnesting hnumbers
  obtain ⟨hrule', htag'⟩ := (IsChange.eqvGen_iff hchanges rule).1 ⟨hrule, htag⟩
  have hreadable' := htext.isReadable hnumbers
  exact decodeText_eq_ok_iff.2 ⟨value', htext.read hreadable',
    (ofJsonWithin_eq_ok hroom).2 ⟨hrule', htag', hnesting, hreadable'⟩⟩

/-- All kinds of changes at once: members in another order and some more of them, an object for a
comparator inside of an array, escapes in a name and in a string, and white space. -/
theorem Rule.decode_presented_mixed :
    let text := "\x7b\"type\":\"operator\",\"operator\":\"AND\"," ++
      "\"right\":[\"operand\",\"team\",\"=\",\"x\"],\"left\":[\"operand\",\"age\",\">\",30]\x7d"
    let text' := "\n\x7b\"z\": [1e5], \"left\": \x7b\"value\":30,\"comparator\":\">\"," ++
      "\"field\":\"age\",\"t\\u0079pe\":\"operand\",\"y\":null\x7d, \"right\": " ++
      "[\"operand\",\"team\",\x7b\"=\":null\x7d,\"\\u0078\"]," ++
      "\"operator\":\"AND\",\"type\":\"operator\"\x7d"
    let rule : Rule := .operator .and (.operand "age" .greater (.number 30))
      (.operand "team" .equal (.text "x"))
    decode text = .ok rule ∧ decode text' = .ok rule := by
  intro text text' rule
  let thirty : Json := .numeral ⟨false, 30, 0, none⟩
  let left : Json := .array [NodeKind.operand.toJson, .text (some "age"), .text (some ">"), thirty]
  let left' : Json := .object [(some "value", thirty), (some "comparator", .text (some ">")),
    (some "field", .text (some "age")), (some "type", NodeKind.operand.toJson), (some "y", .null)]
  let right (c : Json) : Json := .array (NodeKind.operand.toJson ::
    ([.text (some "team")] ++ c :: [.text (some "x")]))
  let equal : Json := .text (some "=")
  let equal' : Json := .object [(some "=", .null)]
  let others : List (Option String × Json) := [(some "operator", .text (some "AND")),
    (some "type", NodeKind.operator.toJson)]
  let z : Json := .array [.numeral ⟨false, 1, 0, some 5⟩]
  let value : Json :=
    .object ((some "left", left) :: (some "right", right equal) :: others).reverse
  let value' : Json :=
    .object ((some "z", z) :: (some "left", left') :: (some "right", right equal') :: others)
  have hscan : Token.scanAll text.toList = value.tokens := by decide +kernel
  have hscan' : Token.scanAll text'.toList = value'.tokens := by decide +kernel
  have htext : IsJson text.toList value := isJson_of_scanAll hscan (by decide +kernel)
  have htext' : IsJson text'.toList value' := isJson_of_scanAll hscan' (by decide +kernel)
  have hdecode : decode text = .ok rule :=
    decodeText_eq_ok_iff.2 ⟨value, htext.read (by decide +kernel), by decide +kernel⟩
  have htype : (some "type", NodeKind.operator.toJson) ∈ others :=
    List.mem_cons_of_mem _ List.mem_cons_self
  have hleft : Relation.EqvGen IsChange left left' :=
    .trans _ _ _ (.symm _ _ (.rel _ _ (.array .operand [_, _, _] rfl)))
      (.trans _ _ _ (.rel _ _ (.add .operand List.mem_cons_self (by decide) (by decide) .null))
        (.rel _ _ (.reorder (List.reverse_perm _).symm)))
  have hfields : NodeKind.operand.fields = ["field"] ++ "comparator" :: ["value"] := rfl
  have hright : Relation.EqvGen IsChange (right equal) (right equal') :=
    IsChange.eqvGen_element hfields rfl rfl fun members ht =>
      .rel _ _ (.comparator .operand ht .equal)
  have hswap (left right : Json) : Relation.EqvGen IsChange
      (.object ((some "left", left) :: (some "right", right) :: others))
      (.object ((some "right", right) :: (some "left", left) :: others)) :=
    .rel _ _ (.reorder (.swap _ _ _))
  have hchanges : Relation.EqvGen IsChange value value' := calc
    Relation.EqvGen IsChange value
        (.object ((some "left", left) :: (some "right", right equal) :: others)) :=
      .rel _ _ (.reorder (List.reverse_perm _))
    Relation.EqvGen IsChange _
        (.object ((some "left", left') :: (some "right", right equal) :: others)) :=
      IsChange.eqvGen_child (List.mem_cons_of_mem _ htype) (.inl rfl) hleft
    Relation.EqvGen IsChange _
        (.object ((some "right", right equal) :: (some "left", left') :: others)) :=
      hswap _ _
    Relation.EqvGen IsChange _
        (.object ((some "right", right equal') :: (some "left", left') :: others)) :=
      IsChange.eqvGen_child (List.mem_cons_of_mem _ htype) (.inr rfl) hright
    Relation.EqvGen IsChange _
        (.object ((some "left", left') :: (some "right", right equal') :: others)) :=
      .symm _ _ (hswap _ _)
    Relation.EqvGen IsChange _ value' :=
      .rel _ _ (.add .operator (List.mem_cons_of_mem _ (List.mem_cons_of_mem _ htype)) (by decide)
        (by decide) z)
  obtain ⟨found, hfound, hpresented⟩ := decode_presented hdecode
  rw [← (hfound value).1 htext] at hpresented
  refine ⟨hdecode, hpresented value' text' hchanges htext' (by decide) ?_⟩
  have hnumbers : value'.tokens.all Token.isReadable = true := by decide +kernel
  intro n hn
  simpa [Token.isReadable] using List.all_eq_true.1 hnumbers _ hn

end Eligibility
