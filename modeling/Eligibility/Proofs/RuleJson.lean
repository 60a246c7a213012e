import Eligibility.Proofs.NodeMembers
import Eligibility.Proofs.Recognition
import Eligibility.Proofs.Scaling

namespace Eligibility
set_option autoImplicit true

variable {rule : Rule} {value : Json} {room : Nat} {members : List (Option String × Json)}

theorem Json.isReadable_ofUInt64 (n : UInt64) : (ofInt n.toNat).isReadable = true := by
  have hn : (n.toNat : Int).natAbs < 2 ^ 64 := by
    rw [Int.natAbs_natCast]
    exact n.toNat_lt
  rw [ofInt, isReadable, Numeral.overflows_ofInt hn]
  rfl

theorem Literal.isReadable_toJson (value : Literal) : value.toJson.isReadable = true := by
  cases value with
  | number n => exact Json.isReadable_ofUInt64 n
  | text => rfl

theorem Literal.nesting_toJson (value : Literal) : value.toJson.nesting = 0 := by
  cases value <;> rfl

theorem Literal.ofJson_toJson (value : Literal) : ofJson value.toJson = .ok value := by
  cases value with
  | number n =>
    have hn : (0 : Int) ≤ n.toNat ∧ (n.toNat : Int) < UInt64.size :=
      ⟨Int.natCast_nonneg _, Int.ofNat_lt.2 n.toNat_lt_size⟩
    simp only [toJson, ofJson, Json.ofInt, Numeral.integer?_ofInt, if_pos hn, Int.toNat_natCast,
      UInt64.ofNat_toNat]
  | text value => rfl

theorem Comparator.ofJson_toJson (c : Comparator) : ofJson c.toJson = .ok c := by
  simp only [toJson, ofJson, ofName, ofLexeme?_lexeme]

theorem NodeKind.ofJson_toJson (kind : NodeKind) : ofJson kind.toJson = .ok kind := by
  cases kind <;> rfl

theorem NodeKind.nesting_toJson (kind : NodeKind) : kind.toJson.nesting = 0 := by
  cases kind with
  | operand => rfl
  | operator => rfl

/-- The kind of the node that a rule is. -/
def Rule.kind : Rule → NodeKind
  | .operand .. => .operand
  | .operator .. => .operator

/-- The members of a rule behind its kind. -/
def Rule.parts : Rule → List (Option String × Json)
  | .operand field comparator value =>
    [(some "field", .text (some field)), (some "comparator", comparator.toJson),
      (some "value", value.toJson)]
  | .operator connective left right =>
    [(some "operator", connective.toJson), (some "left", left.toJson), (some "right", right.toJson)]

theorem Rule.toJson_eq (rule : Rule) :
    rule.toJson = .object ((some "type", rule.kind.toJson) :: rule.parts) := by
  cases rule <;> rfl

/-- No member of the list gives the kind of a node. -/
def Untyped (members : List (Option String × Json)) : Prop :=
  ∀ member ∈ members, ∃ name value, member = (some name, value) ∧ name ≠ "type"

theorem Rule.untyped_parts (rule : Rule) : Untyped rule.parts := by
  cases rule <;> simp [parts, Untyped]

/-- Each level of a rule is an object inside the one of the level above. -/
theorem Rule.nesting_toJson (rule : Rule) : rule.toJson.nesting = rule.depth := by
  induction rule with
  | operand field comparator value =>
    have hv := value.nesting_toJson
    simp only [toJson, Json.nesting, Json.membersNesting, NodeKind.toJson, Comparator.toJson, hv,
      depth, Nat.max_self]
  | operator connective left right ihl ihr =>
    simp only [toJson, Json.nesting, Json.membersNesting, NodeKind.toJson, Comparator.toJson, ihl,
      ihr, depth, Nat.zero_max, Nat.max_zero]

theorem Rule.isReadable_toJson (rule : Rule) : rule.toJson.isReadable = true := by
  induction rule with
  | operand field comparator value =>
    simp only [toJson, Json.isReadable, Json.membersReadable, NodeKind.toJson, Comparator.toJson,
      value.isReadable_toJson, Option.isSome_some, Bool.and_true]
  | operator connective left right ihl ihr =>
    simp only [toJson, Json.isReadable, Json.membersReadable, NodeKind.toJson, Comparator.toJson,
      ihl, ihr, Option.isSome_some, Bool.and_true]

theorem Rule.nesting_parts (rule : Rule) : Json.membersNesting rule.parts + 1 = rule.depth := by
  have h := rule.nesting_toJson
  rwa [toJson_eq, Json.nesting, Json.membersNesting, rule.kind.nesting_toJson, Nat.zero_max] at h

theorem Rule.readable_parts (rule : Rule) : Json.membersReadable rule.parts = true := by
  have h := rule.isReadable_toJson
  rw [toJson_eq, Json.isReadable, Json.membersReadable] at h
  exact (Bool.and_eq_true_iff.1 h).2

theorem NodeKind.fillFrom_untyped (h : Untyped members) (slot : Option NodeKind) :
    addMembers fillFrom slot members = .ok slot := by
  induction members with
  | nil => rfl
  | cons member rest ih =>
    obtain ⟨name, value, rfl, hne⟩ := h member List.mem_cons_self
    have hskip : fillFrom slot name value = .ok slot := if_neg hne
    rw [addMembers_cons, hskip, Decoded.ok_bind]
    exact ih fun member hm => h member (List.mem_cons_of_mem _ hm)

theorem NodeKind.ofMembers_type (kind : NodeKind) (h : Untyped members) :
    ofMembers ((some "type", kind.toJson) :: members) = .ok kind := by
  have htype : fillFrom none "type" kind.toJson = .ok (some kind) := by
    cases kind <;> rfl
  rw [ofMembers, addMembers_cons, htype, Decoded.ok_bind, fillFrom_untyped h]
  rfl

theorem Rule.ofJson_toJson (rule : Rule) : ofJson rule.toJson = .ok rule := by
  have hkind (rule : Rule) := NodeKind.ofMembers_type rule.kind rule.untyped_parts
  induction rule with
  | operand field comparator value =>
    rw [toJson_eq, ofJson, hkind]
    simp [kind, parts, OperandDraft.add, OperandDraft.finish, Json.toText,
      Comparator.ofJson_toJson, Literal.ofJson_toJson]
  | operator connective left right ihl ihr =>
    rw [toJson_eq, ofJson, hkind]
    simp [kind, parts, addOperatorMembers, OperatorDraft.finish, Comparator.ofJson_toJson,
      ihl, ihr]

/-- Readable parts are accepted if there is room for them, and only then. -/
theorem NodeKind.checkMember_untyped (h : Untyped members) (slot : Option NodeKind)
    (hr : 0 < room) (hp : Json.membersReadable members = true) :
    addMembers (checkMember room) slot members =
      if Json.membersNesting members < room then .ok slot else .error .malformed := by
  induction members with
  | nil => exact (if_pos hr).symm
  | cons member rest ih =>
    obtain ⟨name, value, rfl, hne⟩ := h member List.mem_cons_self
    obtain ⟨hv, hm⟩ := Bool.and_eq_true_iff.1 hp
    have ih := ih (fun member hm => h member (List.mem_cons_of_mem _ hm)) hm
    have hcheck : checkMember room slot name value = value.checkPart room >>= fun _ => .ok slot :=
      if_neg hne
    rw [addMembers_cons, hcheck, Json.checkPart_of_isReadable hv hr, Json.membersNesting]
    by_cases hn : value.nesting < room
    · rw [if_pos hn, Decoded.ok_bind, Decoded.ok_bind, ih]
      simp only [Nat.max_lt, hn, true_and]
    · rw [if_neg hn, if_neg fun hmax => hn (Nat.max_lt.1 hmax).1]
      rfl

/-- The text of a rule is read whole if there is room for all of its levels, and only then. -/
theorem Rule.checkParts_toJson (rule : Rule) (hr : 0 < room) :
    checkParts room rule.toJson = if rule.depth ≤ room then .ok () else .error .malformed := by
  have htype : NodeKind.checkMember room none "type" rule.kind.toJson = .ok (some rule.kind) := by
    rw [NodeKind.checkMember, if_pos rfl, NodeKind.ofJson_toJson, fill_none_ok]
  have hparts := NodeKind.checkMember_untyped rule.untyped_parts (some rule.kind) hr
    rule.readable_parts
  have hroom : Json.membersNesting rule.parts < room ↔ rule.depth ≤ room := by
    rw [← rule.nesting_parts, Nat.succ_le_iff]
  simp only [hroom] at hparts
  rw [toJson_eq, checkParts, addMembers_cons, htype, Decoded.ok_bind, hparts]
  split
  · rfl
  · rfl

theorem Rule.ofJsonWithin_toJson (rule : Rule) (hr : 0 < room) :
    ofJsonWithin room rule.toJson = if rule.depth ≤ room then .ok rule else .error .malformed := by
  rw [ofJsonWithin, checkParts_toJson rule hr]
  split
  · exact rule.ofJson_toJson
  · rfl

theorem Rule.depth_of_operandDraft {draft : OperandDraft} (h : draft.finish = .ok rule) :
    rule.depth = 1 := by
  obtain ⟨field, -, h⟩ := Decoded.bind_eq_ok.1 h
  obtain ⟨comparator, -, h⟩ := Decoded.bind_eq_ok.1 h
  obtain ⟨value, -, h⟩ := Decoded.bind_eq_ok.1 h
  cases h
  rfl

theorem Rule.depth_of_operandOfElements (h : operandOfElements elements = .ok rule) :
    rule.depth = 1 := by
  obtain ⟨⟨field, rest⟩, -, h⟩ := Decoded.bind_eq_ok.1 h
  obtain ⟨⟨comparator, rest⟩, -, h⟩ := Decoded.bind_eq_ok.1 h
  obtain ⟨⟨value, rest⟩, -, h⟩ := Decoded.bind_eq_ok.1 h
  obtain ⟨_, -, h⟩ := Decoded.bind_eq_ok.1 h
  cases h
  rfl

/-- The sides of an operator that were found so far are at most that deep. -/
def Rule.OperatorDraft.Within (bound : Nat) (draft : OperatorDraft) : Prop :=
  (∀ left ∈ draft.left, left.depth ≤ bound) ∧ ∀ right ∈ draft.right, right.depth ≤ bound

theorem Rule.depth_of_operatorDraft {draft : OperatorDraft} (h : draft.finish = .ok rule)
    (hd : draft.Within bound) : rule.depth ≤ bound + 1 := by
  obtain ⟨connective, -, h⟩ := Decoded.bind_eq_ok.1 h
  obtain ⟨left, hl, h⟩ := Decoded.bind_eq_ok.1 h
  obtain ⟨right, hr, h⟩ := Decoded.bind_eq_ok.1 h
  cases h
  exact Nat.succ_le_succ
    (Nat.max_le.2 ⟨hd.1 left (require_eq_ok.1 hl), hd.2 right (require_eq_ok.1 hr)⟩)

mutual

/-- A rule has at most as many levels as the value that it is decoded from. -/
theorem Rule.depth_le_nesting : ∀ {value : Json} {rule : Rule}, ofJson value = .ok rule →
    rule.depth ≤ value.nesting
  | .object members, rule, h => by
    rw [ofJson] at h
    obtain ⟨kind, -, h⟩ := Decoded.bind_eq_ok.1 h
    cases kind with
    | operand =>
      obtain ⟨draft, -, hf⟩ := Decoded.bind_eq_ok.1 h
      rw [depth_of_operandDraft hf]
      exact Nat.le_add_left _ _
    | operator =>
      obtain ⟨draft, hm, hf⟩ := Decoded.bind_eq_ok.1 h
      exact depth_of_operatorDraft hf
        (Rule.addOperatorMembers_within hm ⟨nofun, nofun⟩ (Nat.le_refl _))
  | .array (kind :: elements), rule, h => by
    rw [ofJson] at h
    obtain ⟨kind, -, h⟩ := Decoded.bind_eq_ok.1 h
    cases kind with
    | operand =>
      rw [depth_of_operandOfElements h]
      exact Nat.le_add_left _ _
    | operator =>
      refine Nat.le_trans (Rule.depth_le_of_operatorOfElements h) (Nat.succ_le_succ ?_)
      exact Nat.le_max_right _ _

theorem Rule.addOperatorMembers_within : ∀ {members : List (Option String × Json)}
    {draft result : OperatorDraft} {bound : Nat}, addOperatorMembers draft members = .ok result →
      draft.Within bound → Json.membersNesting members ≤ bound → result.Within bound
  | [], _, _, _, h, hd, _ => by
    cases h
    exact hd
  | (some name, value) :: rest, draft, result, bound, h, hd, hb => by
    obtain ⟨hv, hrest⟩ := Nat.max_le.1 hb
    rw [addOperatorMembers] at h
    split at h
    · obtain ⟨operator, -, h⟩ := Decoded.bind_eq_ok.1 h
      exact Rule.addOperatorMembers_within h hd hrest
    split at h
    · obtain ⟨slot, hs, h⟩ := Decoded.bind_eq_ok.1 h
      obtain ⟨-, left, hl, rfl⟩ := fill_eq_ok hs
      refine Rule.addOperatorMembers_within h ⟨?_, hd.2⟩ hrest
      rintro _ ⟨⟩
      exact Nat.le_trans (Rule.depth_le_nesting hl) hv
    split at h
    · obtain ⟨slot, hs, h⟩ := Decoded.bind_eq_ok.1 h
      obtain ⟨-, right, hl, rfl⟩ := fill_eq_ok hs
      refine Rule.addOperatorMembers_within h ⟨hd.1, ?_⟩ hrest
      rintro _ ⟨⟩
      exact Nat.le_trans (Rule.depth_le_nesting hl) hv
    · exact Rule.addOperatorMembers_within h hd hrest

theorem Rule.depth_le_of_operatorOfElements : ∀ {elements : List Json} {rule : Rule},
    operatorOfElements elements = .ok rule → rule.depth ≤ Json.elementsNesting elements + 1
  | connective :: left :: right :: rest, rule, h => by
    rw [operatorOfElements] at h
    obtain ⟨connective, -, h⟩ := Decoded.bind_eq_ok.1 h
    obtain ⟨l, hl, h⟩ := Decoded.bind_eq_ok.1 h
    obtain ⟨r, hr, h⟩ := Decoded.bind_eq_ok.1 h
    obtain ⟨_, -, h⟩ := Decoded.bind_eq_ok.1 h
    cases h
    have hleft := Rule.depth_le_nesting hl
    have hright := Rule.depth_le_nesting hr
    simp only [depth, Json.elementsNesting]
    omega
  | [connective, left], _, h => by
    obtain ⟨_, -, h⟩ := Decoded.bind_eq_ok.1 h
    obtain ⟨_, -, h⟩ := Decoded.bind_eq_ok.1 h
    cases h
  | [connective], _, h => by
    obtain ⟨_, -, h⟩ := Decoded.bind_eq_ok.1 h
    cases h

end

theorem Rule.depth_le_of_ofJsonWithin (h : ofJsonWithin room value = .ok rule) (hr : 0 < room) :
    rule.depth ≤ room := by
  obtain ⟨hrule, -, hnesting, -⟩ := (ofJsonWithin_eq_ok hr).1 h
  exact Nat.le_trans (depth_le_nesting hrule) hnesting

theorem Rule.decode_encode_eq (rule : Rule) :
    decode rule.encode = if rule.depth ≤ maxNesting then .ok rule else .error .malformed := by
  rw [decode, encode, decodeText_write _ rule.isReadable_toJson]
  exact rule.ofJsonWithin_toJson (by decide)

/-- The JSON text of a rule decodes to the rule if the rule has at most 127 levels, and is refused
as malformed beyond. No text, however it presents a rule, decodes to one with more levels, so that
every decoded rule and every parsed one survives. -/
theorem Rule.decode_encode :
    (∀ rule : Rule, decode rule.encode = if rule.depth ≤ 127 then .ok rule else .error .malformed) ∧
      (∀ text rule, decode text = .ok rule → rule.depth ≤ 127 ∧ decode rule.encode = .ok rule) ∧
      ∀ text rule, parse text = .ok rule → decode rule.encode = .ok rule := by
  have hshallow : ∀ rule : Rule, rule.depth ≤ 127 → decode rule.encode = .ok rule :=
    fun rule hd => (decode_encode_eq rule).trans (if_pos hd)
  refine ⟨decode_encode_eq, ?_, ?_⟩
  · intro text rule h
    have hd : rule.depth ≤ 127 := depth_le_of_ofJsonWithin (decodeText_eq_ok h) (by decide)
    exact ⟨hd, hshallow rule hd⟩
  · intro text rule h
    have hd : rule.depth ≤ 100 := (derives_of_parse h).1
    exact hshallow rule (Nat.le_trans hd (by decide))

/-- A text may write a node as an array, put the kind last, leave it to a place, name a comparator
by a member and add members that mean nothing. The text `30` does not turn into a number. -/
theorem Rule.decode_encode_mixed_forms :
    let text := "[\"operator\", \"AND\", \x7b\"value\": \"30\", \"x\": [1e5, null], " ++
      "\"comparator\": \x7b\">\": null\x7d, \"field\": \"age\", \"type\": \"operand\"\x7d, " ++
      "[1, \"a\\\"\\u000a\", \"=\", 18446744073709551615]]"
    let rule : Rule := .operator .and (.operand "age" .greater (.text "30"))
      (.operand "a\"\n" .equal (.number 18446744073709551615))
    decode text = .ok rule ∧ rule.depth ≤ 127 ∧ decode rule.encode = .ok rule ∧
      ∃ parsed, parse "age > 30" = .ok parsed ∧ decode parsed.encode = .ok parsed := by
  intro text rule
  have hdecode : decode text = .ok rule := by decide +kernel
  obtain ⟨hd, hr⟩ := decode_encode.2.1 text rule hdecode
  have hparse : parse "age > 30" = .ok (.operand "age" .greater (.number 30)) :=
    by decide +kernel
  exact ⟨hdecode, hd, hr, _, hparse, decode_encode.2.2 _ _ hparse⟩

end Eligibility
