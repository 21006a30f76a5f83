/-!
# UTF-8

Files hold bytes and names hold text. `utf8` gives the bytes of a text and `ofUtf8?` the text of
bytes; bytes that are not well-formed UTF-8 have no text.
-/

namespace TypeLint.Text

/-- The bytes of a text. -/
def utf8 (s : String) : List UInt8 :=
  s.toList.flatMap String.utf8EncodeChar

/-- The text whose bytes are given. -/
def ofUtf8? (bytes : List UInt8) : Option String :=
  String.fromUTF8? bytes.toByteArray

theorem toByteArray_utf8 (s : String) : (utf8 s).toByteArray = s.toByteArray := by
  rw [← String.ofList_toList (s := s), String.toByteArray_ofList]
  simp [utf8, List.utf8Encode]

/-- Bytes are read as the text that they encode. -/
theorem ofUtf8?_eq_some_iff {bytes : List UInt8} {s : String} :
    ofUtf8? bytes = some s ↔ bytes = utf8 s := by
  unfold ofUtf8? String.fromUTF8?
  constructor
  · intro h
    split at h
    · simp only [Option.some.injEq] at h
      have := congrArg (fun t => t.toByteArray.data.toList) h
      rw [← toByteArray_utf8 s] at this
      simpa [String.fromUTF8] using this
    · simp at h
  · rintro rfl
    have valid : (utf8 s).toByteArray.IsValidUTF8 := toByteArray_utf8 s ▸ s.isValidUTF8
    rw [dif_pos valid]
    congr 1
    rw [← String.toByteArray_inj]
    exact toByteArray_utf8 s

/-- The bytes of a text are read back. -/
@[simp] theorem ofUtf8?_utf8 (s : String) : ofUtf8? (utf8 s) = some s :=
  ofUtf8?_eq_some_iff.2 rfl

/-- The bytes of a text are those of its parts. -/
theorem utf8_ofList_append (s t : List Char) :
    utf8 (String.ofList (s ++ t)) = utf8 (String.ofList s) ++ utf8 (String.ofList t) := by
  simp [utf8]

end TypeLint.Text
