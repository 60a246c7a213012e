import Eligibility.Proofs.PartChecks

namespace Eligibility
set_option autoImplicit true

/-- Every member has a text as its name. -/
def Named (members : List (Option String × Json)) : Prop :=
  ∀ member ∈ members, member.1 ≠ none

/-- The values of all members of a name, in their order. -/
def valuesOf (name : String) (members : List (Option String × Json)) : List Json :=
  members.filterMap fun member => if member.1 = some name then some member.2 else none

/-- One member and no other has the name, and its value is decoded to `a`. -/
def Gives (name : String) (decode : Json → Decoded α) (members : List (Option String × Json))
    (a : α) : Prop :=
  ∃ value, valuesOf name members = [value] ∧ decode value = .ok a

/-- The members that a node of the kind asks for give the rule. -/
def NodeKind.GivesRule (members : List (Option String × Json)) (rule : Rule) : NodeKind → Prop
  | .operand => ∃ field comparator value, Gives "field" Json.toText members field ∧
      Gives "comparator" Comparator.ofJson members comparator ∧
      Gives "value" Literal.ofJson members value ∧ rule = .operand field comparator value
  | .operator => ∃ connective left right, Gives "operator" Comparator.ofJson members connective ∧
      Gives "left" Rule.ofJson members left ∧ Gives "right" Rule.ofJson members right ∧
      rule = .operator connective left right

/-- The tag of the node is a string, as that of an outermost node must be. -/
def Json.TagIsText : Json → Prop
  | .object members => ∃ kind, Gives "type" NodeKind.ofJson members kind
  | .array (tag :: _) => ∃ kind, NodeKind.ofJson tag = .ok kind
  | _ => False

/-- Fills the slot of a name if this is the name of the member. -/
def fillFor (name : String) (decode : Json → Decoded α) (key : String) (value : Json)
    (slot : Option α) : Decoded (Option α) :=
  if key = name then fill name slot (decode value) else .ok slot

/-- Fills a slot with the values of all members of a name, of which a second finds it taken. -/
def fillAll (name : String) (decode : Json → Decoded α) (slot : Option α)
    (members : List (Option String × Json)) : Decoded (Option α) :=
  (valuesOf name members).foldlM (fun slot value => fill name slot (decode value)) slot

/-- What a node with an operator makes of one member. -/
def Rule.OperatorDraft.add (draft : OperatorDraft) (name : String) (value : Json) :
    Decoded OperatorDraft := do
  return ⟨← fillFor "operator" Comparator.ofJson name value draft.operator,
    ← fillFor "left" Rule.ofJson name value draft.left,
    ← fillFor "right" Rule.ofJson name value draft.right⟩

variable {members rest : List (Option String × Json)} {name key : String} {value : Json}
variable {rule : Rule} {room : Nat}

theorem named_nil : Named [] :=
  List.forall_mem_nil _

theorem named_cons : Named ((some key, value) :: rest) ↔ Named rest := by
  rw [Named, List.forall_mem_cons]
  exact and_iff_right nofun

theorem not_named_cons_none : ¬ Named ((none, value) :: rest) :=
  fun h => h _ List.mem_cons_self rfl

theorem valuesOf_cons_self (name : String) (value : Json) (rest : List (Option String × Json)) :
    valuesOf name ((some name, value) :: rest) = value :: valuesOf name rest := by
  simp [valuesOf]

theorem valuesOf_cons_ne (h : key ≠ name) (value : Json) (rest : List (Option String × Json)) :
    valuesOf name ((some key, value) :: rest) = valuesOf name rest := by
  simp [valuesOf, h]

theorem fillFor_ne (h : key ≠ name) (decode : Json → Decoded α) (value : Json)
    (slot : Option α) : fillFor name decode key value slot = .ok slot :=
  if_neg h

theorem fillAll_cons (name : String) (decode : Json → Decoded α) (slot : Option α) (key : String)
    (value : Json) (rest : List (Option String × Json)) :
    fillAll name decode slot ((some key, value) :: rest) =
      fillFor name decode key value slot >>= fun slot => fillAll name decode slot rest := by
  by_cases h : key = name
  · rw [h, fillAll, valuesOf_cons_self, fillFor, if_pos rfl]
    rfl
  · rw [fillAll, valuesOf_cons_ne h, fillFor_ne h]
    rfl

/-- An empty slot is filled by the value of a single member. -/
theorem fillAll_none_eq_ok {decode : Json → Decoded α} :
    fillAll name decode none members = .ok (some a) ↔ Gives name decode members a := by
  rw [fillAll, Gives]
  cases valuesOf name members with
  | nil => exact ⟨nofun, nofun⟩
  | cons value values =>
    rw [List.foldlM_cons, Decoded.bind_eq_ok]
    constructor
    · rintro ⟨slot, hfill, hrest⟩
      obtain ⟨-, b, hd, rfl⟩ := fill_eq_ok hfill
      cases values with
      | nil =>
        cases hrest
        exact ⟨value, rfl, hd⟩
      | cons value values => cases hrest
    · rintro ⟨_, he, hd⟩
      cases he
      exact ⟨some a, by rw [hd, fill_none_ok], rfl⟩

theorem fillAll_of_valuesOf_nil {decode : Json → Decoded α} (h : valuesOf name members = []) :
    fillAll name decode slot members = .ok slot := by
  rw [fillAll, h]
  rfl

/-- A slot stays empty only if no member has its name. -/
theorem valuesOf_of_fillAll {decode : Json → Decoded α}
    (h : fillAll name decode none members = .ok none) : valuesOf name members = [] := by
  cases hv : valuesOf name members with
  | nil => rfl
  | cons value values =>
    rw [fillAll, hv, List.foldlM_cons] at h
    obtain ⟨slot, hs, hrest⟩ := Decoded.bind_eq_ok.1 h
    obtain ⟨-, a, -, rfl⟩ := fill_eq_ok hs
    cases values with
    | nil => cases hrest
    | cons => cases hrest

/-- The value of a second member of a name is not even looked at. -/
theorem fillAll_duplicate {decode : Json → Decoded α} {first second : Json} {others : List Json}
    (h : valuesOf name members = first :: second :: others) (hd : decode first = .ok a) :
    fillAll name decode none members = .error (.mismatch (.duplicateField name)) := by
  rw [fillAll, h, List.foldlM_cons, hd, fill_none_ok, Decoded.ok_bind]
  rfl

/-- A slot to which each member adds what its name asks for is filled by all members of the name. -/
theorem addMembers_eq_fillAll {add : Option α → String → Json → Decoded (Option α)}
    {decode : Json → Decoded α} (hn : Named members)
    (hadd : ∀ key value, (some key, value) ∈ members → ∀ slot,
      add slot key value = fillFor name decode key value slot) :
    addMembers add slot members = fillAll name decode slot members := by
  induction members generalizing slot with
  | nil => rfl
  | cons member rest ih =>
    obtain ⟨name?, value⟩ := member
    cases name? with
    | none => exact absurd hn not_named_cons_none
    | some key =>
      have hrest (slot : Option α) : addMembers add slot rest = fillAll name decode slot rest :=
        ih (named_cons.1 hn) fun key value hm => hadd key value (.tail _ hm)
      rw [addMembers_cons, fillAll_cons, hadd key value (.head _)]
      simp only [hrest]

section Slot

variable {add : δ → String → Json → Decoded δ} {slot : δ → Option α} {decode : Json → Decoded α}
variable {draft result : δ}

theorem named_of_addMembers (h : addMembers add draft members = .ok result) : Named members := by
  induction members generalizing draft with
  | nil => exact named_nil
  | cons member rest ih =>
    obtain ⟨name?, value⟩ := member
    cases name? with
    | none => cases h
    | some key =>
      obtain ⟨next, -, hrest⟩ := Decoded.bind_eq_ok.1 h
      exact named_cons.2 (ih hrest)

theorem membersWhole_of_addMembers
    (hadd : ∀ draft key value next, add draft key value = .ok next → value.isWhole = true)
    (h : addMembers add draft members = .ok result) : Json.membersWhole members = true := by
  induction members generalizing draft with
  | nil => rfl
  | cons member rest ih =>
    obtain ⟨name?, value⟩ := member
    cases name? with
    | none => cases h
    | some key =>
      obtain ⟨next, hnext, hrest⟩ := Decoded.bind_eq_ok.1 h
      exact Bool.and_eq_true_iff.2 ⟨hadd _ _ _ _ hnext, ih hrest⟩

/-- A slot that each member fills by its name is filled by all members of the name. -/
theorem fillAll_of_addMembers
    (hadd : ∀ draft key value next, add draft key value = .ok next →
      fillFor name decode key value (slot draft) = .ok (slot next))
    (h : addMembers add draft members = .ok result) :
    fillAll name decode (slot draft) members = .ok (slot result) := by
  induction members generalizing draft with
  | nil =>
    cases h
    rfl
  | cons member rest ih =>
    obtain ⟨name?, value⟩ := member
    cases name? with
    | none => cases h
    | some key =>
      obtain ⟨next, hnext, hrest⟩ := Decoded.bind_eq_ok.1 h
      rw [fillAll_cons, hadd _ _ _ _ hnext, Decoded.ok_bind]
      exact ih hrest

end Slot

section Slots

variable {add : δ → String → Json → Decoded δ} {make : Option α → Option β → Option γ → δ}
variable {first : δ → Option α} {second : δ → Option β} {third : δ → Option γ}
variable {decodeFirst : Json → Decoded α} {decodeSecond : Json → Decoded β}
variable {decodeThird : Json → Decoded γ} {draft result : δ}

/-- A draft of three slots that each member fills by its name is filled by all members of the three
names, whatever order they stand in. -/
theorem addMembers_eq_ok (hmake : ∀ draft, make (first draft) (second draft) (third draft) = draft)
    (hfirst : ∀ a b c, first (make a b c) = a) (hsecond : ∀ a b c, second (make a b c) = b)
    (hthird : ∀ a b c, third (make a b c) = c)
    (hadd : ∀ draft key value next, add draft key value = .ok next ↔
      fillFor name decodeFirst key value (first draft) = .ok (first next) ∧
      fillFor name' decodeSecond key value (second draft) = .ok (second next) ∧
      fillFor name'' decodeThird key value (third draft) = .ok (third next)) :
    addMembers add draft members = .ok result ↔ Named members ∧
      fillAll name decodeFirst (first draft) members = .ok (first result) ∧
      fillAll name' decodeSecond (second draft) members = .ok (second result) ∧
      fillAll name'' decodeThird (third draft) members = .ok (third result) := by
  induction members generalizing draft with
  | nil =>
    constructor
    · intro h
      cases h
      exact ⟨named_nil, rfl, rfl, rfl⟩
    · rintro ⟨-, h, h', h''⟩
      rw [addMembers_nil, ← hmake draft, Except.ok.inj h, Except.ok.inj h', Except.ok.inj h'',
        hmake]
  | cons member rest ih =>
    obtain ⟨name?, value⟩ := member
    cases name? with
    | none => exact iff_of_false nofun fun h => not_named_cons_none h.1
    | some key =>
      simp only [addMembers_cons, named_cons, fillAll_cons, Decoded.bind_eq_ok, hadd, ih]
      constructor
      · rintro ⟨next, ⟨h, h', h''⟩, hn, hr, hr', hr''⟩
        exact ⟨hn, ⟨_, h, hr⟩, ⟨_, h', hr'⟩, ⟨_, h'', hr''⟩⟩
      · rintro ⟨hn, ⟨a, h, hr⟩, ⟨b, h', hr'⟩, ⟨c, h'', hr''⟩⟩
        refine ⟨make a b c, ?_⟩
        rw [hfirst, hsecond, hthird]
        exact ⟨⟨h, h', h''⟩, hn, hr, hr', hr''⟩

theorem addMembers_none_eq_ok (make : Option α → Option β → Option γ → δ)
    (hmake : ∀ draft, make (first draft) (second draft) (third draft) = draft)
    (hfirst : ∀ a b c, first (make a b c) = a) (hsecond : ∀ a b c, second (make a b c) = b)
    (hthird : ∀ a b c, third (make a b c) = c)
    (hadd : ∀ draft key value next, add draft key value = .ok next ↔
      fillFor name decodeFirst key value (first draft) = .ok (first next) ∧
      fillFor name' decodeSecond key value (second draft) = .ok (second next) ∧
      fillFor name'' decodeThird key value (third draft) = .ok (third next)) :
    addMembers add (make none none none) members = .ok (make (some a) (some b) (some c)) ↔
      Named members ∧ Gives name decodeFirst members a ∧ Gives name' decodeSecond members b ∧
        Gives name'' decodeThird members c := by
  rw [addMembers_eq_ok hmake hfirst hsecond hthird hadd]
  simp only [hfirst, hsecond, hthird, fillAll_none_eq_ok]

end Slots

theorem Rule.OperandDraft.add_eq_ok (draft : OperandDraft) (key : String) (value : Json)
    (next : OperandDraft) : draft.add key value = .ok next ↔
      fillFor "field" Json.toText key value draft.field = .ok next.field ∧
      fillFor "comparator" Comparator.ofJson key value draft.comparator = .ok next.comparator ∧
      fillFor "value" Literal.ofJson key value draft.value = .ok next.value := by
  obtain ⟨field, comparator, literal⟩ := next
  unfold add fillFor
  by_cases hf : key = "field"
  · simp [hf, Decoded.bind_eq_ok, and_left_comm]
  by_cases hc : key = "comparator"
  · simp [hc, Decoded.bind_eq_ok, and_left_comm]
  by_cases hv : key = "value"
  · simp [hv, Decoded.bind_eq_ok, and_left_comm]
  · obtain ⟨field', comparator', literal'⟩ := draft
    simp [hf, hc, hv]

theorem Rule.OperatorDraft.add_eq_ok (draft : OperatorDraft) (key : String) (value : Json)
    (next : OperatorDraft) : draft.add key value = .ok next ↔
      fillFor "operator" Comparator.ofJson key value draft.operator = .ok next.operator ∧
      fillFor "left" Rule.ofJson key value draft.left = .ok next.left ∧
      fillFor "right" Rule.ofJson key value draft.right = .ok next.right := by
  obtain ⟨connective, left, right⟩ := next
  simp only [add, Decoded.bind_eq_ok, Decoded.pure_eq, Except.ok.injEq, OperatorDraft.mk.injEq]
  constructor
  · rintro ⟨_, ho, _, hl, _, hr, rfl, rfl, rfl⟩
    exact ⟨ho, hl, hr⟩
  · rintro ⟨ho, hl, hr⟩
    exact ⟨_, ho, _, hl, _, hr, rfl, rfl, rfl⟩

theorem Rule.addOperatorMembers_eq (draft : OperatorDraft) (members : List (Option String × Json)) :
    addOperatorMembers draft members = addMembers OperatorDraft.add draft members := by
  induction members generalizing draft with
  | nil => rfl
  | cons member rest ih =>
    obtain ⟨name?, value⟩ := member
    cases name? with
    | none => rfl
    | some key =>
      rw [addOperatorMembers, addMembers_cons]
      by_cases ho : key = "operator"
      · simp [ho, OperatorDraft.add, fillFor, ih]
      by_cases hl : key = "left"
      · simp [hl, OperatorDraft.add, fillFor, ih]
      by_cases hr : key = "right"
      · simp [hr, OperatorDraft.add, fillFor, ih]
      · simp [ho, hl, hr, OperatorDraft.add, fillFor, ih]

theorem NodeKind.addMembers_fillFrom_eq_ok {slot filled : Option NodeKind} :
    addMembers fillFrom slot members = .ok filled ↔
      Named members ∧ fillAll "type" ofInnerJson slot members = .ok filled := by
  have hfill (hn : Named members) :
      addMembers fillFrom slot members = fillAll "type" ofInnerJson slot members :=
    addMembers_eq_fillAll hn fun _ _ _ _ => rfl
  constructor
  · intro h
    have hn := named_of_addMembers h
    exact ⟨hn, hfill hn ▸ h⟩
  · rintro ⟨hn, h⟩
    rwa [hfill hn]

theorem NodeKind.ofMembers_eq_ok {kind : NodeKind} :
    ofMembers members = .ok kind ↔ Named members ∧ Gives "type" ofInnerJson members kind := by
  rw [ofMembers, Decoded.bind_eq_ok]
  simp only [addMembers_fillFrom_eq_ok, require_eq_ok]
  constructor
  · rintro ⟨_, ⟨hn, hf⟩, rfl⟩
    exact ⟨hn, fillAll_none_eq_ok.1 hf⟩
  · rintro ⟨hn, hg⟩
    exact ⟨some kind, ⟨hn, fillAll_none_eq_ok.2 hg⟩, rfl⟩

theorem Rule.OperandDraft.finish_eq_ok {draft : OperandDraft} :
    draft.finish = .ok rule ↔ ∃ field comparator value,
      draft = ⟨some field, some comparator, some value⟩ ∧
        rule = .operand field comparator value := by
  obtain ⟨field, comparator, value⟩ := draft
  simp only [finish, Decoded.bind_eq_ok, require_eq_ok, Decoded.pure_eq, Except.ok.injEq,
    OperandDraft.mk.injEq]
  constructor
  · rintro ⟨_, rfl, _, rfl, _, rfl, rfl⟩
    exact ⟨_, _, _, ⟨rfl, rfl, rfl⟩, rfl⟩
  · rintro ⟨_, _, _, ⟨rfl, rfl, rfl⟩, rfl⟩
    exact ⟨_, rfl, _, rfl, _, rfl, rfl⟩

theorem Rule.OperatorDraft.finish_eq_ok {draft : OperatorDraft} :
    draft.finish = .ok rule ↔ ∃ connective left right,
      draft = ⟨some connective, some left, some right⟩ ∧
        rule = .operator connective left right := by
  obtain ⟨connective, left, right⟩ := draft
  simp only [finish, Decoded.bind_eq_ok, require_eq_ok, Decoded.pure_eq, Except.ok.injEq,
    OperatorDraft.mk.injEq]
  constructor
  · rintro ⟨_, rfl, _, rfl, _, rfl, rfl⟩
    exact ⟨_, _, _, ⟨rfl, rfl, rfl⟩, rfl⟩
  · rintro ⟨_, _, _, ⟨rfl, rfl, rfl⟩, rfl⟩
    exact ⟨_, rfl, _, rfl, _, rfl, rfl⟩

theorem Rule.addMembers_operand_eq_ok {field : String} {comparator : Comparator}
    {literal : Literal} :
    addMembers OperandDraft.add {} members = .ok ⟨some field, some comparator, some literal⟩ ↔
      Named members ∧ Gives "field" Json.toText members field ∧
        Gives "comparator" Comparator.ofJson members comparator ∧
        Gives "value" Literal.ofJson members literal :=
  addMembers_none_eq_ok OperandDraft.mk (fun _ => rfl) (fun _ _ _ => rfl) (fun _ _ _ => rfl)
    (fun _ _ _ => rfl) OperandDraft.add_eq_ok

theorem Rule.addOperatorMembers_eq_ok {connective : Comparator} {left right : Rule} :
    addOperatorMembers {} members = .ok ⟨some connective, some left, some right⟩ ↔
      Named members ∧ Gives "operator" Comparator.ofJson members connective ∧
        Gives "left" ofJson members left ∧ Gives "right" ofJson members right := by
  rw [addOperatorMembers_eq]
  exact addMembers_none_eq_ok OperatorDraft.mk (fun _ => rfl) (fun _ _ _ => rfl) (fun _ _ _ => rfl)
    (fun _ _ _ => rfl) OperatorDraft.add_eq_ok

/-- An object is a node if it has one tag, and one member for each part of a node of this kind. -/
theorem Rule.ofJson_object_eq_ok : ofJson (.object members) = .ok rule ↔
    Named members ∧ ∃ kind, Gives "type" NodeKind.ofInnerJson members kind ∧
      kind.GivesRule members rule := by
  rw [ofJson, Decoded.bind_eq_ok]
  simp only [NodeKind.ofMembers_eq_ok]
  constructor
  · rintro ⟨kind, ⟨hn, ht⟩, hrule⟩
    refine ⟨hn, kind, ht, ?_⟩
    cases kind with
    | operand =>
      obtain ⟨draft, hm, hf⟩ := Decoded.bind_eq_ok.1 hrule
      obtain ⟨field, comparator, value, rfl, rfl⟩ := OperandDraft.finish_eq_ok.1 hf
      obtain ⟨-, hfield, hcomparator, hvalue⟩ := addMembers_operand_eq_ok.1 hm
      exact ⟨field, comparator, value, hfield, hcomparator, hvalue, rfl⟩
    | operator =>
      obtain ⟨draft, hm, hf⟩ := Decoded.bind_eq_ok.1 hrule
      obtain ⟨connective, left, right, rfl, rfl⟩ := OperatorDraft.finish_eq_ok.1 hf
      obtain ⟨-, hconnective, hleft, hright⟩ := addOperatorMembers_eq_ok.1 hm
      exact ⟨connective, left, right, hconnective, hleft, hright, rfl⟩
  · rintro ⟨hn, kind, ht, hrule⟩
    refine ⟨kind, ⟨hn, ht⟩, ?_⟩
    cases kind with
    | operand =>
      obtain ⟨field, comparator, value, hfield, hcomparator, hvalue, rfl⟩ := hrule
      have hm := addMembers_operand_eq_ok.2 ⟨hn, hfield, hcomparator, hvalue⟩
      exact Decoded.bind_eq_ok.2 ⟨_, hm, rfl⟩
    | operator =>
      obtain ⟨connective, left, right, hconnective, hleft, hright, rfl⟩ := hrule
      have hm := addOperatorMembers_eq_ok.2 ⟨hn, hconnective, hleft, hright⟩
      exact Decoded.bind_eq_ok.2 ⟨_, hm, rfl⟩

theorem mem_valuesOf : value ∈ valuesOf name members ↔ (some name, value) ∈ members := by
  rw [valuesOf, List.mem_filterMap]
  constructor
  · rintro ⟨⟨key, inner⟩, hm, he⟩
    split at he
    · rename_i hk
      cases he
      rwa [← hk]
    · cases he
  · exact fun hm => ⟨_, hm, if_pos rfl⟩

theorem Gives.eq_of_mem {decode : Json → Decoded α} (h : Gives name decode members a)
    (hm : (some name, value) ∈ members) : decode value = .ok a := by
  obtain ⟨found, hv, hd⟩ := h
  have hvalue := mem_valuesOf.2 hm
  rw [hv, List.mem_singleton] at hvalue
  rwa [hvalue]

theorem NodeKind.checkMember_eq_ok {slot next : Option NodeKind} :
    checkMember room slot key value = .ok next ↔
      fillFor "type" ofJson key value slot = .ok next ∧
        (key ≠ "type" → value.checkPart room = .ok ()) := by
  unfold checkMember fillFor
  by_cases hk : key = "type"
  · simp [hk]
  · simp only [hk, if_false, Decoded.bind_eq_ok, Decoded.pure_eq, ne_eq, not_false_eq_true,
      forall_const]
    exact ⟨fun ⟨_, hc, hs⟩ => ⟨hs, hc⟩, fun ⟨hs, hc⟩ => ⟨_, hc, hs⟩⟩

theorem NodeKind.addMembers_checkMember_eq_ok {slot filled : Option NodeKind} :
    addMembers (checkMember room) slot members = .ok filled ↔ Named members ∧
      fillAll "type" ofJson slot members = .ok filled ∧
        ∀ member ∈ members, member.1 ≠ some "type" → member.2.checkPart room = .ok () := by
  induction members generalizing slot with
  | nil => exact ⟨fun h => ⟨named_nil, h, List.forall_mem_nil _⟩, fun h => h.2.1⟩
  | cons member rest ih =>
    obtain ⟨name?, value⟩ := member
    cases name? with
    | none => exact iff_of_false nofun fun h => not_named_cons_none h.1
    | some key =>
      simp only [addMembers_cons, named_cons, fillAll_cons, Decoded.bind_eq_ok, checkMember_eq_ok,
        ih, List.forall_mem_cons, ne_eq, Option.some.injEq]
      constructor
      · rintro ⟨next, ⟨hf, hc⟩, hn, hr, hm⟩
        exact ⟨hn, ⟨next, hf, hr⟩, hc, hm⟩
      · rintro ⟨hn, ⟨next, hf, hr⟩, hc, hm⟩
        exact ⟨next, ⟨hf, hc⟩, hn, hr, hm⟩

theorem Json.members_checked_iff (hr : 0 < room) :
    membersNesting members < room ∧ membersReadable members = true ↔
      Named members ∧ ∀ member ∈ members, member.2.checkPart room = .ok () := by
  induction members with
  | nil => exact iff_of_true ⟨hr, rfl⟩ ⟨named_nil, List.forall_mem_nil _⟩
  | cons member rest ih =>
    obtain ⟨name?, value⟩ := member
    cases name? with
    | none => exact iff_of_false nofun fun h => not_named_cons_none h.1
    | some key =>
      rw [named_cons, List.forall_mem_cons, checkPart_eq_ok hr, and_left_comm, ← ih,
        membersNesting, membersReadable, Nat.max_lt, Option.isSome_some, Bool.true_and,
        Bool.and_eq_true]
      exact and_and_and_comm

theorem NodeKind.checkPart_of_ofJson {kind : NodeKind} (h : ofJson value = .ok kind)
    (hr : 0 < room) : value.checkPart room = .ok () := by
  cases value with
  | text value =>
    cases value with
    | none => cases h
    | some value => exact (Json.checkPart_eq_ok hr).2 ⟨hr, rfl⟩
  | numeral n =>
    obtain ⟨found, hf, -⟩ := Decoded.bind_eq_ok.1 h
    cases hf
  | _ => cases h

theorem Decoded.discard_eq_ok {decoded : Decoded α} :
    discard decoded = .ok () ↔ ∃ a, decoded = .ok a := by
  cases decoded with
  | error e => exact ⟨nofun, nofun⟩
  | ok a => exact iff_of_true rfl ⟨a, rfl⟩

/-- The slot for the tag of an object is filled if the one tag is a string. -/
theorem NodeKind.exists_fillAll_eq_ok {kind : NodeKind}
    (ht : Gives "type" ofInnerJson members kind) :
    (∃ filled, fillAll "type" ofJson none members = .ok filled) ↔
      ∃ kind, Gives "type" ofJson members kind := by
  constructor
  · rintro ⟨filled, hf⟩
    cases filled with
    | some kind => exact ⟨kind, fillAll_none_eq_ok.1 hf⟩
    | none =>
      obtain ⟨tag, hv, -⟩ := ht
      rw [valuesOf_of_fillAll hf] at hv
      cases hv
  · rintro ⟨kind, hk⟩
    exact ⟨some kind, fillAll_none_eq_ok.2 hk⟩

theorem Rule.checkParts_object_eq_ok (hr : 0 < room) {kind : NodeKind}
    (ht : Gives "type" NodeKind.ofInnerJson members kind) :
    checkParts room (.object members) = .ok () ↔ Json.TagIsText (.object members) ∧
      (Json.object members).nesting ≤ room ∧ (Json.object members).isReadable = true := by
  have hchecked : (Json.object members).nesting ≤ room ∧ (Json.object members).isReadable = true ↔
      Named members ∧ ∀ member ∈ members, member.2.checkPart room = .ok () :=
    Json.members_checked_iff hr
  rw [checkParts, Decoded.discard_eq_ok, hchecked, Json.TagIsText,
    ← NodeKind.exists_fillAll_eq_ok ht]
  simp only [NodeKind.addMembers_checkMember_eq_ok]
  constructor
  · rintro ⟨filled, hn, hf, hm⟩
    refine ⟨⟨filled, hf⟩, hn, ?_⟩
    rintro ⟨name, value⟩ hmember
    by_cases hname : name = some "type"
    · obtain ⟨found, hfound⟩ := (NodeKind.exists_fillAll_eq_ok ht).1 ⟨filled, hf⟩
      rw [hname] at hmember
      exact NodeKind.checkPart_of_ofJson (hfound.eq_of_mem hmember) hr
    · exact hm _ hmember hname
  · rintro ⟨⟨filled, hf⟩, hn, hm⟩
    exact ⟨filled, hn, hf, fun member hmember _ => hm member hmember⟩

theorem Rule.checkParts_array_eq_ok (hr : 0 < room) {tag : Json} {elements : List Json} :
    checkParts room (.array (tag :: elements)) = .ok () ↔
      Json.TagIsText (.array (tag :: elements)) ∧ (Json.array (tag :: elements)).nesting ≤ room ∧
        (Json.array (tag :: elements)).isReadable = true := by
  have hchecked : (Json.array (tag :: elements)).nesting ≤ room ∧
      (Json.array (tag :: elements)).isReadable = true ↔
        (tag.checkPart room >>= fun _ => Json.checkElements room elements) = .ok () :=
    Json.elements_checked_iff hr
  rw [checkParts, Decoded.bind_eq_ok, hchecked, Decoded.bind_eq_ok, Json.TagIsText]
  constructor
  · rintro ⟨kind, hk, he⟩
    exact ⟨⟨kind, hk⟩, (), NodeKind.checkPart_of_ofJson hk hr, he⟩
  · rintro ⟨⟨kind, hk⟩, _, -, he⟩
    exact ⟨kind, hk, he⟩

/-- An outermost node is a node with a string as its tag that can be read in the room. -/
theorem Rule.ofJsonWithin_eq_ok (hr : 0 < room) : ofJsonWithin room value = .ok rule ↔
    ofJson value = .ok rule ∧ value.TagIsText ∧ value.nesting ≤ room ∧ value.isReadable = true := by
  have hparts (h : ofJson value = .ok rule) : checkParts room value = .ok () ↔
      value.TagIsText ∧ value.nesting ≤ room ∧ value.isReadable = true := by
    cases value with
    | object members =>
      obtain ⟨-, kind, ht, -⟩ := ofJson_object_eq_ok.1 h
      exact checkParts_object_eq_ok hr ht
    | array elements =>
      cases elements with
      | nil => cases h
      | cons tag elements => exact checkParts_array_eq_ok hr
    | _ => cases h
  rw [ofJsonWithin, Decoded.bind_eq_ok]
  constructor
  · rintro ⟨_, hc, h⟩
    exact ⟨h, (hparts h).1 hc⟩
  · rintro ⟨h, hc⟩
    exact ⟨(), (hparts h).2 hc, h⟩

end Eligibility
