import Eligibility.Proofs.JsonReading
import Eligibility.Proofs.NodeMembers
import Eligibility.Proofs.NumberReading
import Eligibility.Record.Codec

namespace Eligibility
set_option autoImplicit true

/-- The numeral is the integer, digit by digit, with neither a point nor a power of ten. -/
def Numeral.Writes (n : Numeral) (value : Int) : Prop :=
  n.places = 0 ∧ n.exponent = none ∧ value = signedValue n.negative n.digits

/-- The numeral stands at the only place from which the age of a record is read: in the one member
of this name or in the first element. -/
def Json.AgeIs (n : Numeral) : Json → Prop
  | .object members => valuesOf "age" members = [.numeral n]
  | .array (first :: _) => first = .numeral n
  | _ => False

/-- What the value of a decoded record says of it. -/
structure Record.IsReadFrom (record : Record) (value : Json) : Prop where
  whole : value.isWhole = true
  age : ∃ n, value.AgeIs n ∧ n.integer? = some record.age.toInt
  salary : record.salary.isFinite = true
  experience : record.experience.isFinite = true

variable {value : Json} {n : Numeral} {record : Record} {elements rest : List Json}
variable {members : List (Option String × Json)} {name key : String}

theorem Numeral.writes_of_integer? (h : n.integer? = some i) : n.Writes i := by
  unfold integer? at h
  split at h
  · cases h
  rename_i hplain
  obtain ⟨hplaces, hexponent⟩ := not_or.1 hplain
  refine ⟨not_not.1 hplaces, not_not.1 hexponent, ?_⟩
  split at h
  · rename_i hnegative
    split at h
    · cases h
    · exact (Option.some.inj h).symm.trans (if_pos hnegative).symm
  · rename_i hnegative
    exact (Option.some.inj h).symm.trans (if_neg hnegative).symm

theorem Json.toInteger_eq_ok (h : value.toInteger = .ok i) : ∃ n, value = .numeral n ∧
    n.integer? = some i ∧ Int64.minValue.toInt ≤ i := by
  unfold toInteger at h
  split at h
  · rename_i n
    split at h
    · rename_i found hi
      split at h
      · rename_i hrange
        cases h
        exact ⟨n, rfl, hi, hrange.1⟩
      · cases h
    · cases h
  · cases h

/-- An integer is not cut to 64 bits: one that does not fit is refused. -/
theorem Json.toInt64_eq_ok (h : value.toInt64 = .ok a) :
    ∃ n, value = .numeral n ∧ n.integer? = some a.toInt := by
  unfold toInt64 at h
  split at h
  · cases h
  rename_i i hi
  split at h
  · rename_i hmax
    cases h
    obtain ⟨n, hn, hinteger, hmin⟩ := toInteger_eq_ok hi
    rw [Int64.toInt_minValue] at hmin
    rw [Int64.toInt_maxValue] at hmax
    rw [Int64.toInt_ofInt_of_le hmin (by omega)]
    exact ⟨n, hn, hinteger⟩
  · cases h

theorem Json.isWhole_of_toInt64 (h : value.toInt64 = .ok a) : value.isWhole = true := by
  obtain ⟨n, rfl, -⟩ := toInt64_eq_ok h
  rfl

theorem Json.toBinary64_eq_ok (h : value.toBinary64 = .ok x) :
    value.isWhole = true ∧ x.isFinite = true := by
  unfold toBinary64 at h
  split at h
  · split at h
    · rename_i hn
      cases h
      exact ⟨rfl, Numeral.isFinite_of_toBinary64? hn⟩
    · cases h
  · cases h

/-- What one member does to the numbers of the draft. -/
theorem Record.Draft.add_eq_ok (draft : Draft) (key : String) (value : Json) (next : Draft)
    (h : draft.add key value = .ok next) : value.isWhole = true ∧
      fillFor "age" Json.toInt64 key value draft.age = .ok next.age ∧
      fillFor "salary" Json.toBinary64 key value draft.salary = .ok next.salary ∧
      fillFor "experience" Json.toBinary64 key value draft.experience = .ok next.experience := by
  unfold add at h
  split at h
  · rename_i hf
    obtain rfl := Field.name_of_ofName? hf
    obtain ⟨slot, hfill, he⟩ := Decoded.bind_eq_ok.1 h
    cases he
    exact ⟨isWhole_of_fill hfill Json.isWhole_of_toInt64, hfill, rfl, rfl⟩
  · rename_i hf
    obtain rfl := Field.name_of_ofName? hf
    obtain ⟨slot, hfill, he⟩ := Decoded.bind_eq_ok.1 h
    cases he
    exact ⟨isWhole_of_fill hfill Json.isWhole_of_toText, rfl, rfl, rfl⟩
  · rename_i hf
    obtain rfl := Field.name_of_ofName? hf
    obtain ⟨slot, hfill, he⟩ := Decoded.bind_eq_ok.1 h
    cases he
    exact ⟨isWhole_of_fill hfill fun hd => (Json.toBinary64_eq_ok hd).1, rfl, hfill, rfl⟩
  · rename_i hf
    obtain rfl := Field.name_of_ofName? hf
    obtain ⟨slot, hfill, he⟩ := Decoded.bind_eq_ok.1 h
    cases he
    exact ⟨isWhole_of_fill hfill fun hd => (Json.toBinary64_eq_ok hd).1, rfl, rfl, hfill⟩
  · rename_i hf
    obtain ⟨_, hskip, he⟩ := Decoded.bind_eq_ok.1 h
    cases he
    have hne (field : Field) : key ≠ field.name := by
      rintro rfl
      rw [Field.ofName?_name] at hf
      cases hf
    exact ⟨Json.skip_eq_ok.1 hskip, fillFor_ne (hne .age) .., fillFor_ne (hne .salary) ..,
      fillFor_ne (hne .experience) ..⟩

theorem Record.Draft.finish_eq_ok {draft : Draft} (h : draft.finish = .ok record) :
    draft.age = some record.age ∧ draft.salary = some record.salary ∧
      draft.experience = some record.experience := by
  obtain ⟨age, hage, h⟩ := Decoded.bind_eq_ok.1 h
  obtain ⟨department, hdepartment, h⟩ := Decoded.bind_eq_ok.1 h
  obtain ⟨salary, hsalary, h⟩ := Decoded.bind_eq_ok.1 h
  obtain ⟨experience, hexperience, h⟩ := Decoded.bind_eq_ok.1 h
  cases h
  exact ⟨require_eq_ok.1 hage, require_eq_ok.1 hsalary, require_eq_ok.1 hexperience⟩

theorem Record.isReadFrom_object (h : ofJson (.object members) = .ok record) :
    record.IsReadFrom (.object members) := by
  obtain ⟨draft, hadd, hfinish⟩ := Decoded.bind_eq_ok.1 h
  obtain ⟨hage, hsalary, hexperience⟩ := Draft.finish_eq_ok hfinish
  have hslots := Draft.add_eq_ok
  have hages := fillAll_of_addMembers (fun d k v next h => (hslots d k v next h).2.1) hadd
  have hsalaries := fillAll_of_addMembers (fun d k v next h => (hslots d k v next h).2.2.1) hadd
  have hexperiences := fillAll_of_addMembers (fun d k v next h => (hslots d k v next h).2.2.2) hadd
  rw [hage] at hages
  rw [hsalary] at hsalaries
  rw [hexperience] at hexperiences
  obtain ⟨age, hvalues, hdecode⟩ := fillAll_none_eq_ok.1 hages
  obtain ⟨n, rfl, hn⟩ := Json.toInt64_eq_ok hdecode
  obtain ⟨salary, -, hs⟩ := fillAll_none_eq_ok.1 hsalaries
  obtain ⟨experience, -, he⟩ := fillAll_none_eq_ok.1 hexperiences
  exact ⟨membersWhole_of_addMembers (fun d k v next h => (hslots d k v next h).1) hadd,
    ⟨n, hvalues, hn⟩, (Json.toBinary64_eq_ok hs).2, (Json.toBinary64_eq_ok he).2⟩

theorem Record.isReadFrom_array (h : ofJson (.array elements) = .ok record) :
    record.IsReadFrom (.array elements) := by
  obtain ⟨⟨age, rest⟩, hage, h⟩ := Decoded.bind_eq_ok.1 h
  obtain ⟨⟨department, rest⟩, hdepartment, h⟩ := Decoded.bind_eq_ok.1 h
  obtain ⟨⟨salary, rest⟩, hsalary, h⟩ := Decoded.bind_eq_ok.1 h
  obtain ⟨⟨experience, rest⟩, hexperience, h⟩ := Decoded.bind_eq_ok.1 h
  obtain ⟨_, hend, he⟩ := Decoded.bind_eq_ok.1 h
  cases he
  obtain rfl := endElements_eq_ok.1 hend
  obtain ⟨first, rfl, hfirst⟩ := nextElement_eq_ok hage
  obtain ⟨second, rfl, hsecond⟩ := nextElement_eq_ok hdepartment
  obtain ⟨third, rfl, hthird⟩ := nextElement_eq_ok hsalary
  obtain ⟨fourth, rfl, hfourth⟩ := nextElement_eq_ok hexperience
  obtain ⟨n, rfl, hn⟩ := Json.toInt64_eq_ok hfirst
  obtain rfl := Json.toText_eq_ok.1 hsecond
  obtain ⟨hthird, hfinite⟩ := Json.toBinary64_eq_ok hthird
  obtain ⟨hfourth, hfinite'⟩ := Json.toBinary64_eq_ok hfourth
  refine ⟨?_, ⟨n, rfl, hn⟩, hfinite, hfinite'⟩
  simp only [Json.isWhole, Json.elementsWhole, hthird, hfourth, Bool.and_true]

theorem Record.isReadFrom_of_ofJson (h : ofJson value = .ok record) :
    record.IsReadFrom value := by
  cases value with
  | object members => exact isReadFrom_object h
  | array elements => exact isReadFrom_array h
  | _ => cases h

theorem Json.toInt64_ofInt64 (value : Int64) : (ofInt value.toInt).toInt64 = .ok value := by
  have hmax := value.toInt_le
  have hsize : value.toInt < UInt64.size := Int.lt_of_le_of_lt hmax (by decide)
  rw [toInt64, toInteger_ofInt value.minValue_le_toInt hsize]
  simp only [if_pos hmax, Int64.ofInt_toInt]

theorem Json.isReadable_ofInt64 (value : Int64) : (ofInt value.toInt).isReadable = true := by
  have hmin := value.le_toInt
  have hmax := value.toInt_lt
  have hn : value.toInt.natAbs < 2 ^ 64 := by omega
  rw [ofInt, isReadable, Numeral.overflows_ofInt hn]
  rfl

theorem Json.isReadable_of_toBinary64 (h : value.toBinary64 = .ok x) : value.isReadable = true := by
  unfold toBinary64 at h
  split at h
  · split at h
    · rename_i n _ hn
      obtain ⟨size, hsize, -⟩ := Option.map_eq_some_iff.1 hn
      rw [isReadable, Numeral.overflows, hsize]
      rfl
    · cases h
  · cases h

theorem Json.isReadable_ofBinary64 (x : Binary64) : (ofBinary64 x).isReadable = true := by
  cases hx : x.isFinite with
  | true =>
    obtain ⟨y, hy, -⟩ := toBinary64_ofBinary64 hx
    exact isReadable_of_toBinary64 hy
  | false =>
    cases x with
    | nan => rfl
    | signed negative magnitude =>
      rw [ofBinary64, if_neg (of_decide_eq_false hx)]
      rfl

theorem Record.isReadable_toJson (record : Record) : record.toJson.isReadable = true := by
  simp only [toJson, Json.isReadable, Json.membersReadable, Json.isReadable_ofInt64,
    Json.isReadable_ofBinary64, Option.isSome_some, Bool.and_true]

theorem Record.ofJson_toJson {salary experience : Binary64}
    (hs : (Json.ofBinary64 record.salary).toBinary64 = .ok salary)
    (he : (Json.ofBinary64 record.experience).toBinary64 = .ok experience) :
    ofJson record.toJson = .ok { record with salary, experience } := by
  have hname (field : Field) : Field.ofName? field.name = some field := field.ofName?_name
  have hage := hname .age
  have hdepartment := hname .department
  have hsalary := hname .salary
  have hexperience := hname .experience
  simp only [Field.name] at hage hdepartment hsalary hexperience
  simp only [toJson, ofJson, addMembers_cons, addMembers_nil, Draft.add, hage, hdepartment, hsalary,
    hexperience, Json.toInt64_ofInt64, Json.toText, hs, he, fill_none_ok, Decoded.ok_bind,
    Decoded.pure_eq, Draft.finish, require_some]

/-- A decoded record has no number but finite ones and exactly the age that its text writes. Every
record with finite numbers is decoded from its JSON text, with its age and its department and with
nearly its other numbers. -/
theorem Record.decode_finite_nearly_lossless :
    (∀ text record, decode text = .ok record →
      record.salary.isFinite = true ∧ record.experience.isFinite = true ∧
      ∃ value n, (∀ other, IsLooseJson text.toList other ↔ other = value) ∧
        value.AgeIs n ∧ n.Writes record.age.toInt) ∧
    ∀ record : Record, record.salary.isFinite = true → record.experience.isFinite = true →
      ∃ read, decode record.encode = .ok read ∧ read.age = record.age ∧
        read.department = record.department ∧ record.salary.IsNearlyKept read.salary ∧
        record.experience.IsNearlyKept read.experience := by
  constructor
  · intro text record h
    obtain ⟨value, hread, hvalue⟩ := decodeText_eq_ok_iff.1 h
    have hfrom := isReadFrom_of_ofJson hvalue
    obtain ⟨n, hn, hinteger⟩ := hfrom.age
    exact ⟨hfrom.salary, hfrom.experience, value, n,
      fun other => isLooseJson_iff_of_read hread hfrom.whole, hn,
      Numeral.writes_of_integer? hinteger⟩
  · intro record hs he
    obtain ⟨salary, hsalary, hs⟩ := Json.toBinary64_ofBinary64 hs
    obtain ⟨experience, hexperience, he⟩ := Json.toBinary64_ofBinary64 he
    refine ⟨{ record with salary, experience }, ?_, rfl, rfl, hs, he⟩
    rw [decode, encode, decodeText_write _ record.isReadable_toJson,
      ofJson_toJson hsalary hexperience]

/-- A salary of seventeen digits comes back as the next double above it. -/
theorem Record.decode_encode_drifts :
    let record : Record := ⟨0, "", .signed false ⟨0x40499fc44f1b2f60, by decide⟩, .zero⟩
    let read : Record := ⟨0, "", .signed false ⟨0x40499fc44f1b2f61, by decide⟩, .zero⟩
    record.salary.isFinite = true ∧ record.experience.isFinite = true ∧
      decode record.encode = .ok read ∧ decode record.encode ≠ .ok record := by
  decide +kernel

/-- A minus zero, the least positive double and a salary of seventeen digits are written. The text
that is decoded has members that no field takes, with half of a surrogate pair and a number beyond
the doubles. -/
theorem Record.decode_finite_nearly_lossless_extremes :
    let record : Record :=
      ⟨.minValue, "\"\x01\n😀", .signed true .zero, .signed false ⟨0x40499fc44f1b2f60, by decide⟩⟩
    let text := " \x7b\"x\": \"\\ud800\", \"salary\": 1E-400, \"age\": -7,\n" ++
      "\"y\": [1e999, null], \"experience\": 12.50e1, \"department\": \"\\u0041\"\x7d"
    (∃ read, decode record.encode = .ok read ∧ read.age = record.age ∧
      read.department = record.department ∧ record.salary.IsNearlyKept read.salary ∧
      record.experience.IsNearlyKept read.experience) ∧
    decode text = .ok ⟨-7, "A", .zero, .ofInt 125⟩ ∧
    ∃ value n, (∀ other, IsLooseJson text.toList other ↔ other = value) ∧ value.AgeIs n ∧
      n.Writes (-7) := by
  intro record text
  have hdecode : decode text = .ok ⟨-7, "A", .zero, .ofInt 125⟩ := by decide +kernel
  obtain ⟨hread, hwritten⟩ := decode_finite_nearly_lossless
  obtain ⟨-, -, hage⟩ := hread text _ hdecode
  exact ⟨hwritten record (by decide) (by decide), hdecode, hage⟩

end Eligibility
