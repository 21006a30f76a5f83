import TypeLint.Proofs.Tag.Entry
import TypeLint.Proofs.Text.Utf8
import TypeLint.Tag.Bytes

/-!
# Scanning bytes is scanning characters

The scan of bytes finds what the scan of characters finds, and none of its accesses is a fault. All
that it looks for is ASCII, so a run of key bytes is a run of key characters, and behind a backslash
it may go on within a character, where nothing looks like a quote or a backslash.

## Main statements

- `slice_encode` — cutting bytes where characters end
- `closingIndex_isBody` — the body of a literal is passed over as a whole
- `nextEntry_encode` — one step
- `nextEntry_of_reaches` — all steps of a scan
-/

namespace TypeLint.Tag.Bytes

open Text

@[simp] theorem encode_nil : encode [] = [] :=
  rfl

theorem encode_cons (c : Char) (text : List Char) :
    encode (c :: text) = String.utf8EncodeChar c ++ encode text :=
  rfl

@[simp] theorem encode_append (xs ys : List Char) : encode (xs ++ ys) = encode xs ++ encode ys :=
  List.flatMap_append

/-- An ASCII character is encoded as its code. -/
theorem encode_cons_ascii {a : Char} (ha : a.toNat < 128) (text : List Char) :
    encode (a :: text) = a.toUInt8 :: encode text := by
  rw [encode_cons, utf8EncodeChar_ascii ha, List.singleton_append]

@[simp] theorem encode_eq_nil_iff {text : List Char} : encode text = [] ↔ text = [] := by
  cases text with
  | nil => simp
  | cons c text => simp [encode_cons, String.utf8EncodeChar_ne_nil]

/-- An ASCII character at the head of the bytes is the first one of the text. -/
theorem eq_cons_of_encode {a : Char} {text : List Char} {bytes : List UInt8} (ha : a.toNat < 128)
    (h : encode text = a.toUInt8 :: bytes) : ∃ rest, text = a :: rest ∧ encode rest = bytes := by
  cases text with
  | nil => simp at h
  | cons c rest =>
    obtain ⟨b, more, hbytes, -⟩ := exists_utf8EncodeChar_eq_cons c
    have hfirst : b = a.toUInt8 := by
      rw [encode_cons, hbytes, List.cons_append] at h
      exact (List.cons.inj h).1
    obtain rfl : c = a := (toUInt8_mem_utf8EncodeChar_iff ha).1 (by rw [hbytes, hfirst]; simp)
    rw [encode_cons_ascii ha] at h
    exact ⟨rest, rfl, (List.cons.inj h).2⟩

/-! ## Classes of bytes -/

theorem beq_toUInt8 {a : Char} (ha : a.toNat < 128) (c : Char) (b : UInt8)
    (hb : b ∈ String.utf8EncodeChar c) : (b == a.toUInt8) = (c == a) := by
  rw [Bool.eq_iff_iff, beq_iff_eq, beq_iff_eq]
  constructor
  · rintro rfl
    exact (toUInt8_mem_utf8EncodeChar_iff ha).1 hb
  · rintro rfl
    rwa [utf8EncodeChar_ascii ha, List.mem_singleton] at hb

/-- The bytes of a character are beyond the space if it is. -/
theorem space_lt_iff (c : Char) (b : UInt8) (hb : b ∈ String.utf8EncodeChar c) :
    ' '.toUInt8 < b ↔ ' ' < c := by
  show ' '.toUInt8 < b ↔ ' '.toNat < c.toNat
  rw [UInt8.lt_iff_toNat_lt, toNat_toUInt8 (by decide)]
  by_cases hc : c.toNat < 128
  · rw [utf8EncodeChar_ascii hc, List.mem_singleton] at hb
    rw [hb, toNat_toUInt8 hc]
  · have hbyte := le_toNat_of_mem_utf8EncodeChar (Nat.le_of_not_lt hc) hb
    have hspace : ' '.toNat = 32 := rfl
    omega

/-- A byte may stand in a key when its character may. -/
theorem isKeyByte_eq (c : Char) (b : UInt8) (hb : b ∈ String.utf8EncodeChar c) :
    isKeyByte b = isKeyChar c := by
  have hdelete : (0x7f : UInt8) = '\x7f'.toUInt8 := by decide
  simp only [isKeyByte, isKeyChar, hdelete, bne]
  rw [beq_toUInt8 (by decide) c b hb, beq_toUInt8 (by decide) c b hb,
    beq_toUInt8 (by decide) c b hb, decide_eq_decide.2 (space_lt_iff c b hb)]

/-- Spaces are dropped from bytes as from characters. -/
theorem dropWhile_space_encode (text : List Char) :
    (encode text).dropWhile (· == ' '.toUInt8) = encode (text.dropWhile (· == ' ')) :=
  dropWhile_flatMap_utf8EncodeChar (beq_toUInt8 (by decide)) text

/-- A key is taken off bytes as off characters. -/
theorem takeWhile_isKeyByte_encode (text : List Char) :
    (encode text).takeWhile isKeyByte = encode (text.takeWhile isKeyChar) :=
  takeWhile_flatMap_utf8EncodeChar isKeyByte_eq text

theorem dropWhile_isKeyByte_encode (text : List Char) :
    (encode text).dropWhile isKeyByte = encode (text.dropWhile isKeyChar) :=
  dropWhile_flatMap_utf8EncodeChar isKeyByte_eq text

/-! ## Accesses -/

section Drop

variable {bytes run rest : List UInt8} {b : UInt8} {i : Nat}

theorem drop_add_length (hdrop : bytes.drop i = run ++ rest) :
    bytes.drop (i + run.length) = rest := by
  rw [← List.drop_drop, hdrop, List.drop_left]

theorem drop_succ (hdrop : bytes.drop i = b :: rest) : bytes.drop (i + 1) = rest := by
  rw [← List.drop_drop, hdrop, List.drop_one, List.tail_cons]

theorem lt_length_of_drop (hdrop : bytes.drop i = b :: rest) : i < bytes.length := by
  have hlen := congrArg List.length hdrop
  rw [List.length_drop, List.length_cons] at hlen
  omega

/-- There is no fault where a byte is left. -/
theorem readAt_of_drop (hdrop : bytes.drop i = b :: rest) : readAt bytes i = .ok b := by
  have hget : bytes[i]? = some b := by rw [← List.head?_drop, hdrop, List.head?_cons]
  simp only [readAt, hget]

end Drop

/-- A character starts, or the bytes end, where the bytes of whole characters end. -/
theorem isBoundary_encode (xs ys : List Char) :
    isBoundary (encode xs ++ encode ys) (encode xs).length = true := by
  unfold isBoundary
  rw [List.getElem?_append_right (Nat.le_refl _), Nat.sub_self]
  cases ys with
  | nil => simp
  | cons c ys =>
    obtain ⟨b, more, hbytes, hfirst, -⟩ := exists_utf8EncodeChar_eq_cons c
    simpa [encode_cons, hbytes] using hfirst

/-- Bytes can be cut where characters end. -/
theorem slice_encode {text : List Char} (xs ys zs : List Char) {first last : Nat}
    (htext : text = xs ++ ys ++ zs) (hfirst : first = (encode xs).length)
    (hlast : last = first + (encode ys).length) :
    slice (encode text) first last = .ok (encode ys) := by
  subst htext hfirst hlast
  have hstart : isBoundary (encode (xs ++ ys ++ zs)) (encode xs).length := by
    rw [List.append_assoc, encode_append]
    exact isBoundary_encode xs (ys ++ zs)
  have hend : isBoundary (encode (xs ++ ys ++ zs)) ((encode xs).length + (encode ys).length) := by
    rw [← List.length_append, ← encode_append, encode_append (xs ++ ys)]
    exact isBoundary_encode (xs ++ ys) zs
  unfold slice
  rw [if_neg, if_pos (by rw [hstart, hend]; rfl)]
  · simp
  · simp only [encode_append, List.length_append]
    omega

theorem length_encode_literal (body : List Char) :
    (encode ('"' :: body ++ ['"'])).length = (encode body).length + 2 := by
  rw [List.cons_append, encode_cons_ascii (by decide), encode_append, List.length_cons,
    List.length_append]
  rfl

/-- Bytes are cut at both ends of a literal, and at the end of what follows it. -/
theorem slice_literal {tag key body rest : List Char}
    (htag : tag = key ++ ':' :: '"' :: (body ++ '"' :: rest)) :
    slice (encode tag) ((encode key).length + 1)
        ((encode key).length + 2 + (encode body).length + 1) =
      .ok (encode ('"' :: body ++ ['"'])) ∧
    slice (encode tag) ((encode key).length + 2 + (encode body).length + 1) (encode tag).length =
      .ok (encode rest) := by
  have hparts : tag = key ++ [':'] ++ ('"' :: body ++ ['"']) ++ rest := by
    rw [htag]
    simp
  have hliteral := length_encode_literal body
  have hcolon : (encode (key ++ [':'])).length = (encode key).length + 1 := by
    rw [encode_append, List.length_append]
    rfl
  have hfront : (encode (key ++ [':'] ++ ('"' :: body ++ ['"']))).length =
      (encode key).length + 2 + (encode body).length + 1 := by
    rw [encode_append, List.length_append, hcolon, hliteral]
    omega
  constructor
  · exact slice_encode _ _ _ hparts hcolon.symm (by omega)
  · refine slice_encode _ _ [] (by rw [List.append_nil]; exact hparts) hfront.symm ?_
    rw [hparts, encode_append, List.length_append, hfront]

/-! ## The closing quote -/

section Closing

variable {bytes run rest : List UInt8} {i : Nat}

theorem closingIndex_end (hlen : bytes.length ≤ i) : closingIndex bytes i = .ok i := by
  rw [closingIndex, if_neg (Nat.not_lt.2 hlen)]

theorem closingIndex_quote (hdrop : bytes.drop i = '"'.toUInt8 :: rest) :
    closingIndex bytes i = .ok i := by
  rw [closingIndex, if_pos (lt_length_of_drop hdrop), readAt_of_drop hdrop]
  exact if_pos rfl

theorem closingIndex_backslash (hdrop : bytes.drop i = '\\'.toUInt8 :: rest) :
    closingIndex bytes i = closingIndex bytes (i + 2) := by
  rw [closingIndex, if_pos (lt_length_of_drop hdrop), readAt_of_drop hdrop]
  dsimp only
  rw [if_neg (by decide), if_pos rfl]

/-- Bytes that are neither quotes nor backslashes are passed over. -/
theorem closingIndex_run (hrun : ∀ b ∈ run, b ≠ '"'.toUInt8 ∧ b ≠ '\\'.toUInt8)
    (hdrop : bytes.drop i = run ++ rest) :
    closingIndex bytes i = closingIndex bytes (i + run.length) := by
  induction run generalizing i with
  | nil => rfl
  | cons b run ih =>
    obtain ⟨⟨hquote, hslash⟩, hrun⟩ := List.forall_mem_cons.1 hrun
    rw [closingIndex, if_pos (lt_length_of_drop hdrop), readAt_of_drop hdrop]
    dsimp only
    rw [if_neg hquote, if_neg hslash, ih hrun (drop_succ hdrop), List.length_cons,
      Nat.add_right_comm, Nat.add_assoc]

/-- The body of a literal is passed over. A backslash takes only the first byte of the character
    after it along, and the others are above ASCII. -/
theorem closingIndex_isBody {body : List Char} (hbody : IsBody body)
    (hdrop : bytes.drop i = encode body ++ rest) :
    closingIndex bytes i = closingIndex bytes (i + (encode body).length) := by
  induction hbody generalizing i with
  | nil => rfl
  | @plain c body hquote hslash _ ih =>
    rw [encode_cons, List.append_assoc] at hdrop
    have hrun : ∀ b ∈ String.utf8EncodeChar c, b ≠ '"'.toUInt8 ∧ b ≠ '\\'.toUInt8 := by
      intro b hb
      constructor
      · rintro rfl
        exact hquote ((toUInt8_mem_utf8EncodeChar_iff (by decide)).1 hb)
      · rintro rfl
        exact hslash ((toUInt8_mem_utf8EncodeChar_iff (by decide)).1 hb)
    rw [closingIndex_run hrun hdrop, ih (drop_add_length hdrop), encode_cons, List.length_append,
      Nat.add_assoc]
  | @pair c body _ ih =>
    obtain ⟨b, more, hbytes, -, hmore⟩ := exists_utf8EncodeChar_eq_cons c
    rw [encode_cons_ascii (by decide), encode_cons, hbytes] at hdrop ⊢
    have hrun : ∀ b ∈ more, b ≠ '"'.toUInt8 ∧ b ≠ '\\'.toUInt8 := by
      intro b hb
      constructor
      · rintro rfl
        exact absurd (hmore _ hb) (by decide)
      · rintro rfl
        exact absurd (hmore _ hb) (by decide)
    have hnext : bytes.drop (i + 2) = more ++ (encode body ++ rest) := by
      rw [← List.append_assoc]
      exact drop_succ (drop_succ hdrop)
    rw [closingIndex_backslash hdrop, closingIndex_run hrun hnext, ih (drop_add_length hnext)]
    congr 1
    simp only [List.length_cons, List.length_append]
    omega

/-- The search on bytes stops where the one on characters does. -/
theorem closingIndex_of_closing {text body after : List Char}
    (hclosing : closing text = some (body, after)) (hdrop : bytes.drop i = encode text) :
    closingIndex bytes i = .ok (i + (encode body).length) := by
  obtain ⟨hbody, rfl⟩ := closing_eq_some_iff.1 hclosing
  rw [encode_append] at hdrop
  rw [closingIndex_isBody hbody hdrop]
  apply closingIndex_quote
  rw [drop_add_length hdrop, encode_cons_ascii (by decide)]

/-- Without a closing quote the search ends at the end of the bytes, or one byte behind it. -/
theorem closingIndex_of_closing_eq_none {text : List Char} (hclosing : closing text = none)
    (hdrop : bytes.drop i = encode text) :
    ∃ j, closingIndex bytes i = .ok j ∧ bytes.length ≤ j := by
  have hlen := congrArg List.length hdrop
  rw [List.length_drop] at hlen
  rcases isBody_of_closing_eq_none hclosing with hbody | ⟨body, hbody, rfl⟩
  · rw [← List.append_nil (encode text)] at hdrop
    refine ⟨i + (encode text).length, ?_, by omega⟩
    rw [closingIndex_isBody hbody hdrop, closingIndex_end (by omega)]
  · rw [encode_append, encode_cons_ascii (by decide), encode_nil] at hdrop hlen
    rw [List.length_append, List.length_singleton] at hlen
    refine ⟨i + (encode body).length + 2, ?_, by omega⟩
    rw [closingIndex_isBody hbody hdrop, closingIndex_backslash (drop_add_length hdrop),
      closingIndex_end (by omega)]

end Closing

/-! ## One step -/

/-- There is no entry without a key in front of a colon and a quote. -/
theorem nextEntry_eq_none {bytes tag : List UInt8}
    (htag : bytes.dropWhile (· == ' '.toUInt8) = tag)
    (hclosed : tag.takeWhile isKeyByte = [] ∨
      ∀ rest, tag.dropWhile isKeyByte ≠ ':'.toUInt8 :: '"'.toUInt8 :: rest) :
    nextEntry bytes = .ok (none, []) := by
  have hafter := drop_length_takeWhile (p := isKeyByte) tag
  unfold nextEntry
  dsimp only
  rw [htag]
  generalize hn : (tag.takeWhile isKeyByte).length = n at hafter
  by_cases hshort : n = 0 ∨ tag.length ≤ n + 1
  · rw [if_pos hshort]
    rfl
  · rw [if_neg hshort]
    have hlen := congrArg List.length hafter
    rw [List.length_drop] at hlen
    -- There are two bytes behind the key, but not the two of an entry.
    match hbytes : tag.dropWhile isKeyByte with
    | [] | [_] =>
      rw [hbytes] at hlen
      simp only [List.length_nil, List.length_singleton] at hlen
      omega
    | a :: b :: rest =>
      rw [hbytes] at hafter
      refine bind_eq_ok_iff.2 ⟨a, readAt_of_drop hafter, ?_⟩
      by_cases hcolon : a = ':'.toUInt8
      · rw [if_neg (not_not_intro hcolon)]
        refine bind_eq_ok_iff.2 ⟨b, readAt_of_drop (drop_succ hafter), ?_⟩
        rw [if_pos]
        · rfl
        · rintro rfl
          rcases hclosed with hkey | hopened
          · rw [hkey] at hn
            exact hshort (.inl hn.symm)
          · exact hopened rest (hcolon ▸ hbytes)
      · rw [if_pos hcolon]
        rfl

/-- Behind a key, a colon and a quote, the closing quote decides. -/
theorem nextEntry_of_opened {bytes tag key rest : List UInt8} {i : Nat}
    (htag : bytes.dropWhile (· == ' '.toUInt8) = tag) (hkey : tag.takeWhile isKeyByte = key)
    (hne : key ≠ []) (hafter : tag.dropWhile isKeyByte = ':'.toUInt8 :: '"'.toUInt8 :: rest)
    (hslice : slice tag 0 key.length = .ok key)
    (hclosing : closingIndex tag (key.length + 2) = .ok i) :
    nextEntry bytes = if tag.length ≤ i then .ok (none, []) else do
      let literal ← slice tag (key.length + 1) (i + 1)
      let rest ← slice tag (i + 1) tag.length
      return (some (key, literal), rest) := by
  have hcolon := drop_length_takeWhile (p := isKeyByte) tag
  rw [hkey, hafter] at hcolon
  have hquote := drop_succ hcolon
  have hlong := lt_length_of_drop hquote
  have hpos := List.length_pos_iff.2 hne
  unfold nextEntry
  dsimp only
  rw [htag, hkey, if_neg (by omega), readAt_of_drop hcolon, readAt_of_drop hquote, hslice, hclosing]
  rfl

/-- Where a key stands in front of a colon and a quote, scanning bytes does the same. -/
theorem nextEntry_of_scan_opened {text key tail : List Char} (hne : key ≠ [])
    (hkey : (text.dropWhile (· == ' ')).takeWhile isKeyChar = key)
    (hafter : (text.dropWhile (· == ' ')).dropWhile isKeyChar = ':' :: '"' :: tail) :
    nextEntry (encode text) = .ok (encodeStep ((closing tail).map fun (body, rest) =>
      (⟨key, '"' :: body ++ ['"']⟩, rest))) := by
  have htag := dropWhile_space_encode text
  generalize text.dropWhile (· == ' ') = tag at htag hkey hafter
  have hwhole : tag = key ++ ':' :: '"' :: tail := by
    rw [← hkey, ← hafter, List.takeWhile_append_dropWhile]
  have hkeyBytes := takeWhile_isKeyByte_encode tag
  have hafterBytes := dropWhile_isKeyByte_encode tag
  rw [hkey] at hkeyBytes
  rw [hafter, encode_cons_ascii (by decide), encode_cons_ascii (by decide)] at hafterBytes
  have hslice : slice (encode tag) 0 (encode key).length = .ok (encode key) :=
    slice_encode [] key _ hwhole rfl (Nat.zero_add _).symm
  have hdrop : (encode tag).drop ((encode key).length + 2) = encode tail := by
    rw [hwhole, encode_append, encode_cons_ascii (by decide), encode_cons_ascii (by decide)]
    exact drop_succ (drop_succ List.drop_left)
  have hopened {i : Nat} (hclosing : closingIndex (encode tag) ((encode key).length + 2) = .ok i) :=
    nextEntry_of_opened htag hkeyBytes (mt encode_eq_nil_iff.1 hne) hafterBytes hslice hclosing
  cases hclosing : closing tail with
  | none =>
    obtain ⟨j, hj, hlen⟩ := closingIndex_of_closing_eq_none hclosing hdrop
    rw [hopened hj, if_pos hlen]
    rfl
  | some split =>
    obtain ⟨body, rest⟩ := split
    have hclosed := closing_eq_append hclosing
    obtain ⟨hliteral, hrest⟩ := slice_literal (hclosed ▸ hwhole)
    -- The last cut is in range, so the closing quote is.
    have hlen := (slice_eq_ok hrest).1
    rw [hopened (closingIndex_of_closing hclosing hdrop), if_neg (by omega), hliteral]
    refine bind_eq_ok_iff.2 ⟨_, rfl, ?_⟩
    rw [hrest]
    rfl

/-- A step on the bytes of a text finds and leaves what a scan of its characters does, and no access
    in it is a fault. -/
theorem nextEntry_encode (text : List Char) :
    nextEntry (encode text) = .ok (encodeStep (Entry.scan text)) := by
  by_cases hclosed : (text.dropWhile (· == ' ')).takeWhile isKeyChar = [] ∨
      ∀ tail, (text.dropWhile (· == ' ')).dropWhile isKeyChar ≠ ':' :: '"' :: tail
  · rw [Entry.scan_eq_none hclosed]
    refine nextEntry_eq_none (dropWhile_space_encode text) ?_
    rw [takeWhile_isKeyByte_encode, dropWhile_isKeyByte_encode, encode_eq_nil_iff]
    refine hclosed.imp id fun hnot rest hbytes => ?_
    obtain ⟨after, hcolon, hbytes⟩ := eq_cons_of_encode (by decide) hbytes
    obtain ⟨tail, rfl, -⟩ := eq_cons_of_encode (by decide) hbytes
    exact hnot tail hcolon
  · obtain ⟨hne, hopened⟩ := not_or.1 hclosed
    obtain ⟨tail, hafter⟩ := not_forall_not.1 hopened
    rw [Entry.scan_of_opened hne hafter, nextEntry_of_scan_opened hne rfl hafter]

/-! ## All steps -/

theorem entries_of_none {bytes rest : List UInt8} (hnext : nextEntry bytes = .ok (none, rest)) :
    entries bytes = .ok [] := by
  rw [entries]
  split
  · simp_all
  · rfl
  · simp_all

theorem entries_of_some {bytes rest : List UInt8} {entry : List UInt8 × List UInt8}
    (hnext : nextEntry bytes = .ok (some entry, rest)) :
    entries bytes = (entries rest).map (entry :: ·) := by
  rw [entries]
  split
  · simp_all
  · simp_all
  · simp_all

/-- The entries in the bytes of a text are those of the text. -/
theorem entries_encode (text : List Char) :
    entries (encode text) = .ok ((Tag.entries text).map encodeEntry) := by
  fun_induction Tag.entries text with
  | case1 text hscan =>
    have hnext := nextEntry_encode text
    rw [hscan] at hnext
    rw [entries_of_none hnext]
    rfl
  | case2 text e rest hscan ih =>
    have hnext := nextEntry_encode text
    rw [hscan] at hnext
    rw [entries_of_some hnext, ih]
    rfl

/-- Each entry takes four bytes at least. -/
theorem length_entries {bytes : List UInt8} {es : List (List UInt8 × List UInt8)}
    (h : entries bytes = .ok es) : 4 * es.length ≤ bytes.length := by
  fun_induction entries bytes generalizing es with
  | case1 => simp at h
  | case2 =>
    obtain rfl := Except.ok.inj h
    simp
  | case3 bytes entry rest hnext ih =>
    cases hrest : entries rest with
    | error fault =>
      rw [hrest] at h
      simp [Except.map] at h
    | ok es =>
      rw [hrest] at h
      obtain rfl := Except.ok.inj h
      have hshorter := (nextEntry_some hnext).2
      have hle := ih hrest
      rw [List.length_cons]
      omega

/-- What a scan of the bytes of a text leaves are bytes of a text. -/
theorem exists_encode_of_reaches (text : List Char) {rest : List UInt8}
    (hreaches : Reaches (encode text) rest) : ∃ left, rest = encode left := by
  induction hreaches with
  | refl => exact ⟨text, rfl⟩
  | @step rest left found _ hnext ih =>
    obtain ⟨before, rfl⟩ := ih
    rw [nextEntry_encode] at hnext
    cases hscan : Entry.scan before with
    | none =>
      rw [hscan] at hnext
      exact ⟨[], (congrArg Prod.snd (Except.ok.inj hnext)).symm⟩
    | some split =>
      rw [hscan] at hnext
      exact ⟨split.2, (congrArg Prod.snd (Except.ok.inj hnext)).symm⟩

theorem nextEntry_nil : nextEntry [] = .ok (none, []) :=
  nextEntry_encode []

/-- No step brings bytes back. -/
theorem eq_nil_of_reaches {rest : List UInt8} (hreaches : Reaches [] rest) : rest = [] := by
  induction hreaches with
  | refl => rfl
  | step _ hnext ih =>
    rw [ih, nextEntry_nil] at hnext
    exact (congrArg Prod.snd (Except.ok.inj hnext)).symm

/-- Scanning the bytes of a text finds the entries of the text and comes to an end. Every step that
    it can come to reads and cuts only where it may, does what a scan of characters does, and either
    leaves the end of what was there, shorter by four bytes at least, or is followed by steps that
    find nothing. -/
theorem nextEntry_of_reaches (raw : String) :
    entries (utf8 raw) = .ok ((Tag.entries raw.toList).map encodeEntry) ∧
    4 * (Tag.entries raw.toList).length ≤ (utf8 raw).length ∧
    ∀ rest, Reaches (utf8 raw) rest →
      (∃ text : String, rest = utf8 text ∧
        nextEntry rest = .ok (encodeStep (Entry.scan text.toList))) ∧
      (∀ entry left, nextEntry rest = .ok (some entry, left) →
        left <:+ rest ∧ left.length + 4 ≤ rest.length) ∧
      ∀ left, nextEntry rest = .ok (none, left) →
        ∀ later, Reaches left later → nextEntry later = .ok (none, []) := by
  have hentries : entries (utf8 raw) = _ := entries_encode raw.toList
  have hcount := length_entries hentries
  rw [List.length_map] at hcount
  refine ⟨hentries, hcount, fun rest hreaches => ⟨?_, fun _ _ => nextEntry_some, ?_⟩⟩
  · obtain ⟨text, rfl⟩ := exists_encode_of_reaches raw.toList hreaches
    refine ⟨String.ofList text, (utf8_ofList text).symm, ?_⟩
    rw [String.toList_ofList, nextEntry_encode]
  · intro left hnext later hlater
    obtain ⟨text, rfl⟩ := exists_encode_of_reaches raw.toList hreaches
    rw [nextEntry_encode] at hnext
    cases hscan : Entry.scan text with
    | none =>
      rw [hscan] at hnext
      obtain rfl : [] = left := congrArg Prod.snd (Except.ok.inj hnext)
      rw [eq_nil_of_reaches hlater, nextEntry_nil]
    | some split =>
      rw [hscan] at hnext
      exact absurd (congrArg Prod.fst (Except.ok.inj hnext)) (by simp [encodeStep])

/-- A backslash in front of a character of two bytes, and one that ends the tag. -/
theorem nextEntry_of_reaches_cut_escape :
    let raw := "ñ:\"\\é\\\"\" b:\"\\"
    let rest := " b:\"\\"
    nextEntry (utf8 raw) = .ok (some (utf8 "ñ", utf8 "\"\\é\\\"\""), utf8 rest) ∧
      Reaches (utf8 raw) (utf8 rest) ∧
      nextEntry (utf8 rest) = .ok (none, []) ∧
      ∀ later, Reaches [] later → nextEntry later = .ok (none, []) := by
  intro raw rest
  have hnext : nextEntry (utf8 raw) =
      .ok (some (utf8 "ñ", utf8 "\"\\é\\\"\""), utf8 rest) :=
    (nextEntry_encode raw.toList).trans (by decide)
  have hlast : nextEntry (utf8 rest) = .ok (none, []) :=
    (nextEntry_encode rest.toList).trans (by decide)
  have hreaches : Reaches (utf8 raw) (utf8 rest) := .step .refl hnext
  exact ⟨hnext, hreaches, hlast, ((nextEntry_of_reaches raw).2.2 _ hreaches).2.2 [] hlast⟩

end TypeLint.Tag.Bytes
