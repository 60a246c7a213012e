import Eligibility.Json.Decoding
import Eligibility.Proofs.JsonText

namespace Eligibility
set_option autoImplicit true

theorem Decoded.bind_eq_ok {decoded : Decoded α} {next : α → Decoded β} :
    decoded >>= next = .ok b ↔ ∃ a, decoded = .ok a ∧ next a = .ok b := by
  cases decoded with
  | error error => exact ⟨nofun, nofun⟩
  | ok a => exact ⟨fun h => ⟨a, rfl, h⟩, fun ⟨_, ha, h⟩ => Except.ok.inj ha ▸ h⟩

theorem Decoded.map_eq_ok {decoded : Decoded α} {f : α → β} :
    decoded.map f = .ok b ↔ ∃ a, decoded = .ok a ∧ f a = b := by
  cases decoded with
  | error error => exact ⟨nofun, nofun⟩
  | ok a => exact ⟨fun h => ⟨a, rfl, Except.ok.inj h⟩, fun ⟨_, ha, h⟩ => Except.ok.inj ha ▸ h ▸ rfl⟩

@[simp]
theorem Decoded.ok_bind (a : α) (next : α → Decoded β) : (.ok a : Decoded α) >>= next = next a :=
  rfl

@[simp]
theorem Decoded.pure_eq (a : α) : (pure a : Decoded α) = .ok a :=
  rfl

@[simp]
theorem fill_none_ok (name : String) (a : α) : fill name none (.ok a) = .ok (some a) :=
  rfl

theorem fill_eq_ok (h : fill name slot decoded = .ok filled) :
    slot = none ∧ ∃ a, decoded = .ok a ∧ filled = some a := by
  unfold fill at h
  split at h
  · cases h
  · cases decoded with
    | error error => cases h
    | ok a =>
      cases h
      exact ⟨rfl, a, rfl, rfl⟩

@[simp]
theorem require_some (name : String) (a : α) : require name (some a) = .ok a :=
  rfl

theorem require_eq_ok : require name slot = .ok a ↔ slot = some a := by
  cases slot with
  | none => exact ⟨nofun, nofun⟩
  | some b =>
    exact ⟨fun h => congrArg some (Except.ok.inj h), fun h => congrArg _ (Option.some.inj h)⟩

@[simp]
theorem addMembers_nil (add : α → String → Json → Decoded α) (draft : α) :
    addMembers add draft [] = .ok draft :=
  rfl

@[simp]
theorem addMembers_cons (add : α → String → Json → Decoded α) (draft : α) (name : String)
    (value : Json) (rest : List (Option String × Json)) :
    addMembers add draft ((some name, value) :: rest) =
      add draft name value >>= fun draft => addMembers add draft rest :=
  rfl

theorem nextElement_cons_eq_ok {decode : Json → Decoded α} {elements elements' : List Json} :
    nextElement decode (value :: elements) = .ok (a, elements') ↔
      decode value = .ok a ∧ elements' = elements := by
  rw [nextElement]
  cases decode value with
  | error e =>
    constructor
    · intro h
      cases h
    · rintro ⟨h, -⟩
      cases h
  | ok b => simp [Except.map, eq_comm]

theorem nextElement_eq_ok {decode : Json → Decoded α}
    (h : nextElement decode elements = .ok (a, rest)) :
    ∃ value, elements = value :: rest ∧ decode value = .ok a := by
  cases elements with
  | nil => cases h
  | cons value elements =>
    obtain ⟨hd, rfl⟩ := nextElement_cons_eq_ok.1 h
    exact ⟨value, rfl, hd⟩

theorem endElements_eq_ok {error : DecodingError} :
    endElements error elements = .ok () ↔ elements = [] := by
  cases elements with
  | nil => exact iff_of_true rfl rfl
  | cons value rest =>
    cases value with
    | _ => exact iff_of_false nofun nofun

theorem Json.toText_eq_ok {value : Json} {text : String} :
    value.toText = .ok text ↔ value = .text (some text) := by
  constructor
  · intro h
    unfold toText at h
    split at h
    · cases h
      rfl
    · cases h
  · rintro rfl
    rfl

theorem Json.toInteger_ofInt (hmin : Int64.minValue.toInt ≤ i) (hmax : i < UInt64.size) :
    (ofInt i).toInteger = .ok i := by
  simp only [toInteger, ofInt, Numeral.integer?_ofInt]
  exact if_pos ⟨hmin, hmax⟩

theorem Json.isWhole_of_toText {value : Json} {text : String} (h : value.toText = .ok text) :
    value.isWhole = true := by
  rw [toText_eq_ok.1 h]
  rfl

/-- What fills a slot was read to its end if this is so for all that can be decoded. -/
theorem isWhole_of_fill {value : Json} {decode : Json → Decoded α}
    (h : fill name slot (decode value) = .ok filled)
    (hw : ∀ {a}, decode value = .ok a → value.isWhole = true) : value.isWhole = true := by
  obtain ⟨-, a, hd, -⟩ := fill_eq_ok h
  exact hw hd

theorem Json.skip_eq_ok {value : Json} : value.skip = .ok () ↔ value.isWhole = true := by
  rw [← breach?_eq_none]
  unfold skip
  cases value.breach? with
  | none => exact iff_of_true rfl rfl
  | some breach => exact iff_of_false nofun nofun

theorem Json.skip_of_isWhole {value : Json} (h : value.isWhole = true) : value.skip = .ok () :=
  skip_eq_ok.2 h

/-- A text is decoded as the value that it holds. -/
theorem decodeText_of_read (decode : Json → Decoded α) {text : String}
    (h : Json.read text.toList = (value, [])) : decodeText decode text = decode value := by
  rw [decodeText, h]
  show (decode value >>= fun decoded => .ok decoded) = decode value
  cases decode value <;> rfl

/-- A written value is decoded as it is. -/
theorem decodeText_write (decode : Json → Decoded α) (h : value.isReadable = true) :
    decodeText decode (String.ofList value.write) = decode value := by
  have hr := Json.read_write (Json.isWhole_of_isReadable h)
  rw [← String.toList_ofList (l := value.write)] at hr
  exact decodeText_of_read decode hr

/-- What a text decodes to is decoded from the value that it holds, which nothing follows. -/
theorem decodeText_eq_ok_iff {decode : Json → Decoded α} {text : String} :
    decodeText decode text = .ok a ↔
      ∃ value, Json.read text.toList = (value, []) ∧ decode value = .ok a := by
  constructor
  · intro h
    obtain ⟨b, hd, hb⟩ := Decoded.bind_eq_ok.1 h
    split at hb
    · rename_i hrest
      cases hb
      exact ⟨_, Prod.ext rfl (List.isEmpty_iff.1 hrest), hd⟩
    · cases hb
  · rintro ⟨value, hr, hd⟩
    rwa [decodeText_of_read decode hr]

theorem decodeText_eq_ok {decode : Json → Decoded α} (h : decodeText decode text = .ok a) :
    decode (Json.read text.toList).1 = .ok a := by
  obtain ⟨value, hr, hd⟩ := decodeText_eq_ok_iff.1 h
  rwa [hr]

end Eligibility
