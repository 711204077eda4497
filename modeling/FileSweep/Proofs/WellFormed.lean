import FileSweep.Proofs.ByteText

/-!
# Well-formed bytes

Bytes are well-formed if they are some characters in UTF-8, one after the other; this is what the
standard library calls valid (`Utf8.IsWellFormed`).  Read as pieces, they are exactly these
characters (`Utf8.pieces_toBytes_ofChars`), so both readings give them back, and a name that was
read from such bytes is a name without stray bytes.

The reader finds the characters because it knows their bounds.  The first byte of a character opens
one, and the bytes behind it keep within the bounds that the first one sets (`Utf8.taken_char`).
What such bytes lead to is written with them (`Utf8.Unfinished.Sound`), and no two characters are
written alike.
-/

namespace FileSweep

namespace Utf8

/-- Whether bytes are characters in UTF-8. -/
def IsWellFormed (bytes : List UInt8) : Prop := bytes.toByteArray.IsValidUTF8

instance (bytes : List UInt8) : Decidable (IsWellFormed bytes) :=
  inferInstanceAs (Decidable (ByteArray.IsValidUTF8 _))

end Utf8

theorem Text.toBytes_ofChars_cons (c : Char) (cs : List Char) :
    (ofChars (c :: cs)).toBytes = String.utf8EncodeChar c ++ (ofChars cs).toBytes := rfl

theorem Text.toBytes_ofChars (cs : List Char) :
    (ofChars cs).toBytes = cs.flatMap String.utf8EncodeChar := by
  induction cs with
  | nil => rfl
  | cons c cs ih => rw [toBytes_ofChars_cons, ih, List.flatMap_cons]

namespace Utf8

/-- Well-formed bytes are what texts of characters are written as. -/
theorem isWellFormed_iff {bytes : List UInt8} :
    IsWellFormed bytes ↔ ∃ cs, (Text.ofChars cs).toBytes = bytes := by
  constructor
  · rintro ⟨cs, h⟩
    exact ⟨cs, (Text.toBytes_ofChars cs).trans (List.toByteArray_inj.mp h).symm⟩
  · rintro ⟨cs, rfl⟩
    exact ⟨cs, congrArg List.toByteArray (Text.toBytes_ofChars cs)⟩

/-! ## Characters -/

/-- The bytes of the character with a code point, with one case for each number of bytes. -/
inductive Spelled (n : Nat) : List UInt8 → Prop
  | one (h : n < 0x80) : Spelled n [UInt8.ofNat n]
  | two (h : 0x80 ≤ n ∧ n < 0x800) :
    Spelled n [UInt8.ofNat (n / 64 + 0xC0), UInt8.ofNat (n % 64 + 0x80)]
  | three (h : 0x800 ≤ n ∧ n < 0x10000) (hsurrogate : n < 0xD800 ∨ 0xDFFF < n) :
    Spelled n [UInt8.ofNat (n / 4096 + 0xE0), UInt8.ofNat (n / 64 % 64 + 0x80),
      UInt8.ofNat (n % 64 + 0x80)]
  | four (h : 0x10000 ≤ n ∧ n < 0x110000) :
    Spelled n [UInt8.ofNat (n / 262144 + 0xF0), UInt8.ofNat (n / 4096 % 64 + 0x80),
      UInt8.ofNat (n / 64 % 64 + 0x80), UInt8.ofNat (n % 64 + 0x80)]

theorem spelled_char (c : Char) : Spelled c.toNat (String.utf8EncodeChar c) := by
  have hc : c.toNat < 0xD800 ∨ 0xDFFF < c.toNat ∧ c.toNat < 0x110000 := c.valid
  have hval : c.val.toNat = c.toNat := rfl
  unfold String.utf8EncodeChar
  rw [hval]
  generalize c.toNat = n at hc
  by_cases hone : n ≤ 0x7F
  · rw [if_pos hone]
    exact .one (by omega)
  by_cases htwo : n ≤ 0x7FF
  · have hfirst : n / 64 % 32 = n / 64 := by omega
    rw [if_neg hone, if_pos htwo, hfirst]
    exact .two (by omega)
  by_cases hthree : n ≤ 0xFFFF
  · have hfirst : n / 4096 % 16 = n / 4096 := by omega
    rw [if_neg hone, if_neg htwo, if_pos hthree, hfirst]
    exact .three (by omega) (by omega)
  · have hfirst : n / 262144 % 8 = n / 262144 := by omega
    rw [if_neg hone, if_neg htwo, if_neg hthree, hfirst]
    exact .four (by omega)

/-- Whether a reader takes bytes for one character: a byte that is one by itself, or a first byte
with bytes that complete what it opens. -/
inductive Taken : List UInt8 → Prop
  | one {b : UInt8} (hb : b.toNat < 0x80) : Taken [b]
  | more {b : UInt8} {u : Unfinished} {bytes : List UInt8} (h : opening b = .more u)
    (hbytes : Completes u.missing u.low u.high bytes) : Taken (b :: bytes)

section Taken

variable {b x y z : UInt8} (hx : 0x80 ≤ x.toNat ∧ x.toNat ≤ 0xBF)
include hx

theorem taken_two (hb : 0xC2 ≤ b.toNat ∧ b.toNat ≤ 0xDF) : Taken [b, x] := by
  have hopening : opening b = .more ⟨[b], b.toNat - 0xC0, 1, 0x80, 0xBF⟩ := by
    unfold opening
    dsimp only
    rw [if_neg (by omega), if_neg (by omega), if_pos (by omega)]
  exact .more hopening (.cons hx .nil)

variable (hy : 0x80 ≤ y.toNat ∧ y.toNat ≤ 0xBF)
include hy

theorem taken_three (hb : 0xE0 ≤ b.toNat ∧ b.toNat ≤ 0xEF)
    (hshort : b.toNat = 0xE0 → 0xA0 ≤ x.toNat) (hsurrogate : b.toNat = 0xED → x.toNat ≤ 0x9F) :
    Taken [b, x, y] := by
  have hrest : Completes 1 0x80 0xBF [y] := .cons hy .nil
  by_cases hE0 : b.toNat = 0xE0
  · have hopening : opening b = .more ⟨[b], 0, 2, 0xA0, 0xBF⟩ := by simp [opening, hE0]
    exact .more hopening (.cons ⟨hshort hE0, hx.2⟩ hrest)
  by_cases hED : b.toNat = 0xED
  · have hopening : opening b = .more ⟨[b], 0xD, 2, 0x80, 0x9F⟩ := by simp [opening, hED]
    exact .more hopening (.cons ⟨hx.1, hsurrogate hED⟩ hrest)
  · have hopening : opening b = .more ⟨[b], b.toNat - 0xE0, 2, 0x80, 0xBF⟩ := by
      unfold opening
      dsimp only
      rw [if_neg (by omega), if_neg (by omega), if_neg (by omega), if_neg hE0, if_neg hED,
        if_pos (by omega)]
    exact .more hopening (.cons hx hrest)

theorem taken_four (hz : 0x80 ≤ z.toNat ∧ z.toNat ≤ 0xBF)
    (hb : 0xF0 ≤ b.toNat ∧ b.toNat ≤ 0xF4) (hshort : b.toNat = 0xF0 → 0x90 ≤ x.toNat)
    (hlarge : b.toNat = 0xF4 → x.toNat ≤ 0x8F) : Taken [b, x, y, z] := by
  have hrest : Completes 2 0x80 0xBF [y, z] := .cons hy (.cons hz .nil)
  by_cases hF0 : b.toNat = 0xF0
  · have hopening : opening b = .more ⟨[b], 0, 3, 0x90, 0xBF⟩ := by simp [opening, hF0]
    exact .more hopening (.cons ⟨hshort hF0, hx.2⟩ hrest)
  by_cases hF4 : b.toNat = 0xF4
  · have hopening : opening b = .more ⟨[b], 4, 3, 0x80, 0x8F⟩ := by simp [opening, hF4]
    exact .more hopening (.cons ⟨hx.1, hlarge hF4⟩ hrest)
  · have hopening : opening b = .more ⟨[b], b.toNat - 0xF0, 3, 0x80, 0xBF⟩ := by
      unfold opening
      dsimp only
      rw [if_neg (by omega), if_neg (by omega), if_neg (by omega), if_neg (by omega),
        if_neg (by omega), if_neg (by omega), if_neg hF0, if_pos (by omega)]
    exact .more hopening (.cons hx hrest)

end Taken

/-- **Every character is taken for one.** -/
theorem taken_char (c : Char) : Taken (String.utf8EncodeChar c) := by
  have hspelled := spelled_char c
  generalize String.utf8EncodeChar c = bytes at hspelled
  cases hspelled with
  | one h =>
    refine .one ?_
    rw [UInt8.toNat_ofNat']
    omega
  | two h => apply taken_two <;> simp only [UInt8.toNat_ofNat'] <;> omega
  | three h hsurrogate => apply taken_three <;> simp only [UInt8.toNat_ofNat'] <;> omega
  | four h => apply taken_four <;> simp only [UInt8.toNat_ofNat'] <;> omega

theorem encode_inj {c d : Char} (h : String.utf8EncodeChar c = String.utf8EncodeChar d) :
    c = d := by
  have hc := @ByteArray.utf8DecodeChar?_utf8EncodeChar_append .empty c
  rw [h, ByteArray.utf8DecodeChar?_utf8EncodeChar_append] at hc
  exact (Option.some.inj hc).symm

/-! ## The reader on characters -/

namespace Reader

section Open

variable {done : List Piece} {u : Unfinished} {b : UInt8}

theorem read_last (hb : u.low ≤ b.toNat ∧ b.toNat ≤ u.high) (hlast : u.missing ≤ 1) :
    read ⟨done, some u⟩ b =
      ⟨.good (Char.ofNat (u.value * 64 + (b.toNat - 0x80))) :: done, none⟩ := by
  simp [read, hb, hlast]

theorem read_more (hb : u.low ≤ b.toNat ∧ b.toNat ≤ u.high) (hmore : ¬ u.missing ≤ 1) :
    read ⟨done, some u⟩ b =
      ⟨done, some ⟨u.seen ++ [b], u.value * 64 + (b.toNat - 0x80), u.missing - 1, 0x80, 0xBF⟩⟩ := by
  simp [read, hb, hmore]

theorem read_refused (hb : ¬ (u.low ≤ b.toNat ∧ b.toNat ≤ u.high)) :
    read ⟨done, some u⟩ b = start (.bad u.seen :: done) b := by
  simp [read, hb]

end Open

/-- Bytes that complete an open character make it a piece. -/
theorem foldl_read_of_completes {u : Unfinished} {bytes : List UInt8} (hpos : 0 < u.missing)
    (h : Completes u.missing u.low u.high bytes) (done : List Piece) :
    bytes.foldl read ⟨done, some u⟩ =
      ⟨.good (Char.ofNat (extend u.value bytes)) :: done, none⟩ := by
  induction bytes generalizing u with
  | nil =>
    obtain ⟨seen, value, missing, low, high⟩ := u
    cases h
    exact absurd hpos (Nat.lt_irrefl 0)
  | cons b bytes ih =>
    obtain ⟨seen, value, missing, low, high⟩ := u
    cases h with
    | @cons missing _ _ _ _ hb hbytes =>
      rw [List.foldl_cons, extend_cons]
      by_cases hlast : missing = 0
      · -- no byte is missing any more, and so none is left
        subst hlast
        cases hbytes
        exact read_last hb (Nat.le_refl 1)
      · have hmore : ¬ missing + 1 ≤ 1 := by omega
        rw [read_more hb hmore]
        exact ih (Nat.pos_of_ne_zero hlast) hbytes

/-- What is taken for one character is read as the character that is written so. -/
theorem foldl_read_of_taken {bytes : List UInt8} (h : Taken bytes) (done : List Piece) :
    ∃ c, String.utf8EncodeChar c = bytes ∧
      bytes.foldl read ⟨done, none⟩ = ⟨.good c :: done, none⟩ := by
  cases h with
  | @one b hb =>
    refine ⟨Char.ofNat b.toNat, encode_one hb, ?_⟩
    have hopening : opening b = .whole (Char.ofNat b.toNat) := by
      unfold opening
      exact if_pos hb
    simp [read, start, hopening]
  | @more b u bytes ho hbytes =>
    have hsound := Unfinished.sound_of_opening ho
    have hseen := Unfinished.seen_of_opening ho
    refine ⟨Char.ofNat (extend u.value bytes), ?_, ?_⟩
    · rw [hsound.encode bytes hbytes, hseen]
      rfl
    · have hfirst : read ⟨done, none⟩ b = ⟨done, some u⟩ := by simp [read, start, ho]
      rw [List.foldl_cons, hfirst, foldl_read_of_completes hsound.missing hbytes]

theorem foldl_read_char (c : Char) (done : List Piece) :
    (String.utf8EncodeChar c).foldl read ⟨done, none⟩ = ⟨.good c :: done, none⟩ := by
  obtain ⟨d, hd, hread⟩ := foldl_read_of_taken (taken_char c) done
  rw [hread, encode_inj hd]

/-- **Characters are read one by one**, and nothing stays open behind them. -/
theorem foldl_read_chars (cs : List Char) (done : List Piece) :
    (Text.ofChars cs).toBytes.foldl read ⟨done, none⟩ =
      ⟨(cs.map Piece.good).reverse ++ done, none⟩ := by
  induction cs generalizing done with
  | nil => rfl
  | cons c cs ih =>
    rw [Text.toBytes_ofChars_cons, List.foldl_append, foldl_read_char, ih]
    simp

end Reader

/-- **Well-formed bytes are the characters that they were made of.** -/
theorem pieces_toBytes_ofChars (cs : List Char) :
    pieces (Text.ofChars cs).toBytes = cs.map Piece.good := by
  unfold pieces Reader.empty
  rw [Reader.foldl_read_chars]
  simp [Reader.close]

end Utf8

/-! ## Names -/

namespace Text

/-- Whether a text was read from well-formed bytes. -/
def IsWellFormed (t : Text) : Prop := ∃ bytes, Utf8.IsWellFormed bytes ∧ ofBytes bytes = t

theorem ofBytes_toBytes_ofChars (cs : List Char) : ofBytes (ofChars cs).toBytes = ofChars cs := by
  unfold ofBytes
  rw [Utf8.pieces_toBytes_ofChars, List.flatMap_map]
  simp [Utf8.Piece.symbols, ofChars, ← List.map_eq_flatMap]

/-- Such a text consists of characters only. -/
theorem isWellFormed_iff {t : Text} : t.IsWellFormed ↔ ∃ cs, ofChars cs = t := by
  constructor
  · rintro ⟨bytes, hbytes, rfl⟩
    obtain ⟨cs, rfl⟩ := Utf8.isWellFormed_iff.mp hbytes
    exact ⟨cs, (ofBytes_toBytes_ofChars cs).symm⟩
  · rintro ⟨cs, rfl⟩
    exact ⟨_, Utf8.isWellFormed_iff.mpr ⟨cs, rfl⟩, ofBytes_toBytes_ofChars cs⟩

theorem isWellFormed_ofString (s : String) : IsWellFormed s := isWellFormed_iff.mpr ⟨s.toList, rfl⟩

/-- A name read from well-formed bytes is read from what it is written as. -/
theorem IsWellFormed.ofBytes_toBytes {t : Text} (h : t.IsWellFormed) : ofBytes t.toBytes = t := by
  obtain ⟨cs, rfl⟩ := isWellFormed_iff.mp h
  exact ofBytes_toBytes_ofChars cs

end Text

end FileSweep
