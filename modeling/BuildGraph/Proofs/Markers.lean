import BuildGraph.Description.Decode

/-!
# Texts and markers as values

What a text and a marker are read as.  The bytes of a text are read as the text
(`Script.Value.decode_toUTF8`), and a marker, whatever its identity, stands for the fragment of its
name (`Description.fragmentsOf_markerAs`).  The table of markers has one under every name
(`Script.Value.exists_get_keywordTable`), also under a name that is no keyword.
-/

namespace BuildGraph

open Script (Identity Value Wanted)

namespace Script.Value

/-! ## Texts -/

theorem toUTF8_inj {s t : String} : s.toUTF8 = t.toUTF8 ↔ s = t := by
  rw [String.toUTF8_eq_toByteArray, String.toUTF8_eq_toByteArray, String.toByteArray_inj]

/-- The bytes of a text are read as the text. -/
theorem decode_toUTF8 (wanted : Wanted) (s : String) : decode wanted s.toUTF8 = .ok s := by
  have hutf : String.fromUTF8? s.toUTF8 = some s := by
    rw [String.fromUTF8?, String.toUTF8_eq_toByteArray, dif_pos s.isValidUTF8]
    rfl
  rw [decode, hutf]

theorem characters_toUTF8 (s : String) : characters s.toUTF8 = .ok s := decode_toUTF8 _ s

theorem asText_ofString (s : String) : (ofString s).asText = .ok s := decode_toUTF8 _ s

/-! ## Markers -/

theorem lookup_text (items : List Value) (fields : List (Key × Value)) (bytes : ByteArray) :
    lookup items fields (.text bytes) = findField fields (.text bytes) := rfl

theorem get_markerAs (identity : Identity) (name : String) :
    (markerAs identity name).get markerField = ofString name := by
  simp [markerAs, get, lookup, findField]

/-- A marker stands for the fragment of its name. -/
theorem fragment?_markerAs (identity : Identity) (name : String) :
    fragment? (markerAs identity name) = .ok (some (.ofName name)) := by
  change ((markerAs identity name).get markerField).asText.map _ = _
  rw [get_markerAs, asText_ofString]
  rfl

/-! ## Fields under names -/

theorem findField_named (fields : List (String × Value)) (name : String) :
    findField (fields.map fun f => (.text f.1.toUTF8, f.2)) (.text name.toUTF8)
      = match fields.find? (·.1 == name) with
        | none => .nil
        | some f => f.2 := by
  have hsame (f : String × Value) :
      ((Key.text f.1.toUTF8 : Key) == .text name.toUTF8) = (f.1 == name) := by
    rw [Bool.eq_iff_iff, beq_iff_eq, beq_iff_eq, Key.text.injEq, toUTF8_inj]
  rw [findField, List.find?_map]
  simp only [Function.comp_def, hsame]
  cases fields.find? (·.1 == name) <;> rfl

/-! ## The table of markers -/

theorem findField_keywords (name : String) :
    findField (Keyword.all.map fun k => (.text k.name.toUTF8, keywordMarker k))
        (.text name.toUTF8)
      = match Keyword.ofName? name with
        | none => .nil
        | some k => keywordMarker k := by
  have hnamed := findField_named (Keyword.all.map fun k => (k.name, keywordMarker k)) name
  rw [List.map_map, List.find?_map] at hnamed
  rw [Keyword.ofName?]
  refine hnamed.trans ?_
  simp only [Function.comp_def]
  cases Keyword.all.find? (·.name == name) <;> rfl

/-- Under every name lies a marker of that name. -/
theorem exists_get_keywordTable (name : String) :
    ∃ identity, keywordTable.get name = markerAs identity name := by
  have hget : keywordTable.get name
      = match Keyword.ofName? name with
        | none => marker name
        | some k => keywordMarker k := by
    rw [keywordTable, get, lookup_text, findField_keywords]
    cases Keyword.ofName? name <;> rfl
  cases hname : Keyword.ofName? name with
  | none => exact ⟨.made 0, by rw [hget, hname]; rfl⟩
  | some k =>
      obtain rfl := Keyword.name_of_ofName? hname
      exact ⟨_, by rw [hget, hname]; rfl⟩

end Script.Value

/-! ## Fragments -/

namespace Description

variable (place : String)

theorem fragmentsOf_ofString (s : String) :
    fragmentsOf place (.ofString s) = .ok [.literal s] := by
  rw [Value.ofString, fragmentsOf, Value.characters_toUTF8]
  rfl

theorem fragmentsOf_markerAs (identity : Identity) (name : String) :
    fragmentsOf place (.markerAs identity name) = .ok [.ofName name] := by
  have hfragment := Value.fragment?_markerAs identity name
  rw [Value.markerAs] at hfragment ⊢
  rw [fragmentsOf, hfragment]
  rfl

theorem template_ofString (s : String) : template place (.ofString s) = .ok (.literal s) := by
  rw [Value.ofString, template, Value.characters_toUTF8]
  rfl

end Description

end BuildGraph
