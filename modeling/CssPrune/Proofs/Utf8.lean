import CssPrune.Text.Utf8
import Mathlib.Tactic.ByContra
import Mathlib.Tactic.Lemma

/-!
# Decoding

Bytes are decoded to the text that they encode (`decode_eq_ok_iff`), and refused with the byte at
the offset up to which they are UTF-8. There always is such a byte, for a character that is cut off
by the end of the bytes has its first byte in front of the end (`decode_eq_error_iff`).

The decoder goes along the characters. What it has passed is a text in encoded form, and where it
cannot go on, no text goes further, since the next character of a text would be read there.
-/

namespace CssPrune.Text

/-- The bytes are UTF-8 up to an offset, where `byte` stands, and up to no later one. -/
structure StopsAt (bytes : ByteArray) (offset : Nat) (byte : UInt8) : Prop where
  next : bytes[offset]? = some byte
  valid : (bytes.extract 0 offset).IsValidUTF8
  longest : ∀ later ≤ bytes.size, (bytes.extract 0 later).IsValidUTF8 → later ≤ offset

/-! ## Encoded texts -/

/-- An empty text has no bytes. -/
lemma encode_nil : encode [] = ByteArray.empty := by simp [encode]

/-- A text is encoded character by character. -/
lemma encode_cons (c : Char) (rest : Text) :
    encode (c :: rest) = [c].utf8Encode ++ encode rest := by
  rw [encode, encode, String.toUTF8, String.toUTF8, String.toByteArray_ofList,
    String.toByteArray_ofList, List.utf8Encode_cons]

/-- Texts that are encoded alike are the same. -/
lemma encode_inj {first second : Text} (h : encode first = encode second) : first = second := by
  have htexts := String.toByteArray_inj.1 h
  simpa using congrArg String.toList htexts

/-- Bytes are valid UTF-8 if they encode a text. -/
lemma isValidUTF8_iff {bytes : ByteArray} : bytes.IsValidUTF8 ↔ ∃ text, bytes = encode text := by
  constructor
  · rintro ⟨text, rfl⟩
    exact ⟨text, by simp [encode]⟩
  · rintro ⟨text, rfl⟩
    exact ⟨text, by simp [encode]⟩

/-- A character that is decoded at the front of some bytes is encoded there. -/
lemma exists_of_utf8DecodeChar? {bytes : ByteArray} {c : Char}
    (h : bytes.utf8DecodeChar? 0 = some c) : ∃ rest, bytes = [c].utf8Encode ++ rest := by
  obtain ⟨rest, hrest⟩ := ByteArray.exists_of_utf8DecodeChar?_eq_some h
  exact ⟨rest, by rw [List.utf8Encode_singleton, ← hrest]⟩

/-- Behind as many bytes as the front has, the back is decoded. -/
lemma utf8DecodeChar?_append (front back : ByteArray) :
    (front ++ back).utf8DecodeChar? front.size = back.utf8DecodeChar? 0 := by
  rw [ByteArray.utf8DecodeChar?_eq_utf8DecodeChar?_extract,
    ByteArray.extract_append_eq_right rfl ByteArray.size_append]

/-- Where a longer text goes on, a character is read. -/
lemma isSome_utf8DecodeChar?_of_longer {front text : Text} {back rest : ByteArray}
    (h : encode front ++ back = encode text ++ rest)
    (hsize : (encode front).size < (encode text).size) :
    (back.utf8DecodeChar? 0).isSome = true := by
  induction front generalizing text with
  | nil =>
    cases text with
    | nil => simp at hsize
    | cons c text =>
      rw [encode_nil, ByteArray.empty_append, encode_cons, ByteArray.append_assoc] at h
      rw [h, List.utf8DecodeChar?_utf8Encode_singleton_append]
      rfl
  | cons a front ih =>
    cases text with
    | nil => simp [encode_nil] at hsize
    | cons b text =>
      rw [encode_cons, encode_cons, ByteArray.append_assoc, ByteArray.append_assoc] at h
      have hchar := congrArg (·.utf8DecodeChar? 0) h
      simp only [List.utf8DecodeChar?_utf8Encode_singleton_append, Option.some.injEq] at hchar
      subst hchar
      rw [encode_cons, encode_cons, ByteArray.size_append, ByteArray.size_append] at hsize
      exact ih ((ByteArray.append_right_inj _).1 h) (by omega)

/-! ## Where bytes stop being a text -/

section StopsAt

variable {bytes : ByteArray} {offset : Nat} {byte : UInt8}

/-- Bytes that stop being a text have a byte where they do. -/
lemma StopsAt.exists_getElem (h : StopsAt bytes offset byte) :
    ∃ hlt : offset < bytes.size, bytes[offset] = byte :=
  getElem?_eq_some_iff.1 h.next

/-- Bytes that stop being a text encode none. -/
lemma StopsAt.not_isText (h : StopsAt bytes offset byte) (text : Text) : bytes ≠ encode text := by
  rintro rfl
  obtain ⟨hlt, -⟩ := h.exists_getElem
  have hvalid : ((encode text).extract 0 (encode text).size).IsValidUTF8 := by
    rw [ByteArray.extract_zero_size]
    exact isValidUTF8_iff.2 ⟨text, rfl⟩
  exact absurd hlt (Nat.not_lt_of_ge (h.longest _ (Nat.le_refl _) hvalid))

/-- Bytes stop being a text at one byte. -/
lemma StopsAt.unique (h : StopsAt bytes offset byte) {other : Nat} {last : UInt8}
    (hother : StopsAt bytes other last) : byte = last := by
  obtain ⟨hlt, -⟩ := h.exists_getElem
  obtain ⟨hlast, -⟩ := hother.exists_getElem
  obtain rfl : offset = other :=
    Nat.le_antisymm (hother.longest _ (Nat.le_of_lt hlt) h.valid)
      (h.longest _ (Nat.le_of_lt hlast) hother.valid)
  exact Option.some.inj (h.next.symm.trans hother.next)

/-- A single byte of the ASCII range is valid UTF-8. -/
lemma isValidUTF8_singleton (h : byte < 0x80) : ([byte].toByteArray).IsValidUTF8 := by
  have hval : (Char.ofUInt8 byte).val = byte.toUInt32 := rfl
  have hsize : (Char.ofUInt8 byte).utf8Size = 1 := by
    rw [Char.utf8Size_eq_one_iff, hval]
    simp only [UInt8.lt_iff_toNat_lt, UInt32.le_iff_toNat_le] at *
    simp at *
    omega
  refine ⟨[Char.ofUInt8 byte], ?_⟩
  rw [List.utf8Encode_singleton, String.utf8EncodeChar_eq_singleton hsize, hval]
  simp

/-- A byte below `0x80` is a character, so no text stops at it. -/
lemma StopsAt.le_byte (h : StopsAt bytes offset byte) : 0x80 ≤ byte := by
  obtain ⟨hlt, rfl⟩ := h.exists_getElem
  by_contra hsmall
  have hsplit := ByteArray.extract_eq_extract_append_extract
    (a := bytes) (i := 0) (k := offset + 1) offset (by omega) (by omega)
  rw [ByteArray.extract_add_one hlt] at hsplit
  have hvalid : (bytes.extract 0 (offset + 1)).IsValidUTF8 := by
    rw [hsplit]
    exact h.valid.append (isValidUTF8_singleton (UInt8.not_le.1 hsmall))
  have := h.longest _ hlt hvalid
  omega

/-- Behind a text, bytes at which no character is read end what is UTF-8. -/
lemma stopsAt_of_undecoded {text : Text} {rest : ByteArray} (hpos : 0 < rest.size)
    (hchar : rest.utf8DecodeChar? 0 = none) :
    StopsAt (encode text ++ rest) (encode text).size rest[0] := by
  constructor
  · rw [getElem?_eq_some_iff]
    exact ⟨by rw [ByteArray.size_append]; omega, by simp [ByteArray.getElem_append_right]⟩
  · rw [ByteArray.extract_append_eq_left rfl]
    exact isValidUTF8_iff.2 ⟨text, rfl⟩
  · intro later hle hvalid
    obtain ⟨longer, hlonger⟩ := isValidUTF8_iff.1 hvalid
    by_contra hlt
    have hsize := congrArg ByteArray.size hlonger
    rw [ByteArray.size_extract] at hsize
    have hsplit := ByteArray.extract_eq_extract_append_extract
      (a := encode text ++ rest) (i := 0) (k := (encode text ++ rest).size) later (by omega) hle
    rw [ByteArray.extract_zero_size, hlonger] at hsplit
    have hsome := isSome_utf8DecodeChar?_of_longer hsplit (by omega)
    rw [hchar] at hsome
    cases hsome

end StopsAt

/-! ## The decoder -/

/-- Behind the bytes that it has passed, the decoder goes through the text that it finds there, to
the end or to a place where no character is read. -/
lemma decodeFrom_append (front back : ByteArray) (done : Text) :
    ∃ text rest, back = encode text ++ rest ∧
      ((rest = ByteArray.empty ∧
          decodeFrom (front ++ back) front.size done = .ok (done.reverse ++ text)) ∨
        ∃ h : 0 < rest.size, rest.utf8DecodeChar? 0 = none ∧
          decodeFrom (front ++ back) front.size done = .error rest[0]) := by
  induction hn : back.size using Nat.strongRecOn generalizing front back done with
  | _ n ih =>
    rw [decodeFrom]
    by_cases hback : front.size < (front ++ back).size
    · have hpos : 0 < back.size := by
        rw [ByteArray.size_append] at hback
        omega
      rw [dif_pos hback, utf8DecodeChar?_append]
      cases hchar : back.utf8DecodeChar? 0 with
      | none =>
        refine ⟨[], back, by simp [encode_nil], Or.inr ⟨hpos, hchar, ?_⟩⟩
        simp [ByteArray.getElem_append_right]
      | some c =>
        obtain ⟨behind, rfl⟩ := exists_of_utf8DecodeChar? hchar
        have hsize : ([c].utf8Encode).size = c.utf8Size := by simp [List.utf8Encode_singleton]
        have hlt : behind.size < n := by
          have := c.utf8Size_pos
          rw [← hn, ByteArray.size_append, hsize]
          omega
        obtain ⟨text, rest, rfl, hends⟩ := ih _ hlt (front ++ [c].utf8Encode) _ (c :: done) rfl
        refine ⟨c :: text, rest, by rw [encode_cons, ByteArray.append_assoc], ?_⟩
        rw [ByteArray.append_assoc, ByteArray.size_append, hsize] at hends
        simpa using hends
    · have hempty : back = ByteArray.empty := by
        rw [← ByteArray.size_eq_zero_iff]
        rw [ByteArray.size_append] at hback
        omega
      rw [dif_neg hback]
      exact ⟨[], ByteArray.empty, by rw [hempty, encode_nil, ByteArray.append_empty],
        Or.inl ⟨rfl, by rw [List.append_nil]⟩⟩

/-- Bytes are a text, or the decoder stops where they stop being one. -/
lemma decode_cases (bytes : ByteArray) :
    (∃ text, bytes = encode text ∧ decode bytes = .ok text) ∨
      ∃ offset byte, StopsAt bytes offset byte ∧ decode bytes = .error byte := by
  obtain ⟨text, rest, hbytes, hends⟩ := decodeFrom_append ByteArray.empty bytes []
  rw [ByteArray.empty_append] at hends
  rcases hends with ⟨rfl, hok⟩ | ⟨hpos, hchar, herror⟩
  · rw [ByteArray.append_empty] at hbytes
    exact Or.inl ⟨text, hbytes, hok⟩
  · rw [hbytes] at herror ⊢
    exact Or.inr ⟨_, _, stopsAt_of_undecoded hpos hchar, herror⟩

/-- Decoding succeeds with a text exactly if the bytes encode it. -/
lemma decode_eq_ok_iff {bytes : ByteArray} {text : Text} :
    decode bytes = .ok text ↔ bytes = encode text := by
  rcases decode_cases bytes with ⟨other, rfl, hok⟩ | ⟨offset, byte, hstops, herror⟩
  · rw [hok, Except.ok.injEq]
    exact ⟨congrArg encode, encode_inj⟩
  · rw [herror]
    exact ⟨nofun, fun h => absurd h (hstops.not_isText text)⟩

/-- Decoding fails with a byte exactly if the bytes stop being a text there. -/
lemma decode_eq_error_iff {bytes : ByteArray} {byte : UInt8} :
    decode bytes = .error byte ↔ ∃ offset, StopsAt bytes offset byte := by
  rcases decode_cases bytes with ⟨text, rfl, hok⟩ | ⟨offset, last, hstops, herror⟩
  · rw [hok]
    refine ⟨nofun, ?_⟩
    rintro ⟨_, hstops⟩
    exact absurd rfl (hstops.not_isText text)
  · rw [herror, Except.error.injEq]
    constructor
    · rintro rfl
      exact ⟨offset, hstops⟩
    · rintro ⟨_, hother⟩
      exact hstops.unique hother

end CssPrune.Text
