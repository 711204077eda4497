import FileSweep.Proofs.Decoding
import FileSweep.Proofs.Strays
import FileSweep.Scan

/-!
# Captured output as it is shown

A test may put out any bytes, and a report shows them as characters.  What is shown can always be
printed, and it is what the test put out if that was well-formed; otherwise every ill-formed stretch
has become one U+FFFD, and nothing else has changed.  In particular nothing that stands behind such
a stretch is lost: bytes can be read in two parts wherever the first part is well-formed, or the
second part begins with a byte that begins a character (`Utf8.pieces_append`).

The reason is that an open character waits only for bytes that go on with one
(`Utf8.Reader.Waits`), so no other byte is read together with what is open in front of it.
-/

namespace FileSweep

namespace Utf8

/-- Whether a byte is one of ASCII. -/
def isAscii (b : UInt8) : Bool := b.toNat < 0x80

/-- Whether a byte goes on with a character. -/
def IsTail (b : UInt8) : Prop := 0x80 ≤ b.toNat ∧ b.toNat ≤ 0xBF

theorem not_isTail_of_isAscii {b : UInt8} (h : isAscii b = true) : ¬ IsTail b := by
  intro htail
  have hlt : b.toNat < 0x80 := of_decide_eq_true h
  exact Nat.not_lt.mpr htail.1 hlt

/-! ## What an open character waits for -/

namespace Reader

/-- Whether the reader waits only for bytes that go on with a character. -/
def Waits (r : Reader) : Prop := ∀ u ∈ r.unfinished, 0x80 ≤ u.low ∧ u.high ≤ 0xBF

theorem waits_empty : empty.Waits := by
  rintro u ⟨⟩

theorem waits_start (done : List Piece) (b : UInt8) : (start done b).Waits := by
  intro u hu
  unfold start at hu
  cases ho : opening b with
  | whole c => simp [ho] at hu
  | illFormed => simp [ho] at hu
  | more v =>
    rw [ho] at hu
    obtain rfl := Option.some.inj hu
    exact ⟨(Unfinished.sound_of_opening ho).low, (Unfinished.bounds_of_opening ho).2⟩

theorem Waits.read {r : Reader} (h : r.Waits) (b : UInt8) : (r.read b).Waits := by
  obtain ⟨pieces, unfinished⟩ := r
  rcases unfinished with _ | u
  · exact waits_start pieces b
  by_cases hb : u.low ≤ b.toNat ∧ b.toNat ≤ u.high
  · by_cases hlast : u.missing ≤ 1
    · rw [read_last hb hlast]
      rintro v ⟨⟩
    · rw [read_more hb hlast]
      rintro v ⟨rfl⟩
      exact ⟨Nat.le_refl _, Nat.le_refl _⟩
  · rw [read_refused hb]
    exact waits_start _ b

theorem Waits.foldl_read {r : Reader} (h : r.Waits) (bytes : List UInt8) :
    (bytes.foldl Reader.read r).Waits := by
  induction bytes generalizing r with
  | nil => exact h
  | cons b bytes ih => exact ih (h.read b)

end Reader

/-! ## Reading in two parts -/

/-- Whether bytes can be read in two parts: the first one is well-formed, or the second one does
not begin with a byte that goes on with a character. -/
def Parted (a c : List UInt8) : Prop := IsWellFormed a ∨ ∀ b ∈ c.head?, ¬ IsTail b

theorem Parted.of_isAscii {a c : List UInt8} {b : UInt8} (hb : isAscii b = true) :
    Parted a (b :: c) := by
  refine .inr ?_
  rintro _ ⟨rfl⟩
  exact not_isTail_of_isAscii hb

/-- Bytes that can be read in two parts are read so. -/
theorem pieces_append {a c : List UInt8} (h : Parted a c) :
    pieces (a ++ c) = pieces a ++ pieces c := by
  apply pieces_append_of_refused
  intro b hb
  rcases h with ha | hc
  · -- behind whole characters nothing is open
    obtain ⟨cs, rfl⟩ := isWellFormed_iff.mp ha
    unfold Reader.empty
    rw [Reader.foldl_read_chars]
    rintro u ⟨⟩
  · intro u hu hfits
    have hwaits : (a.foldl Reader.read .empty).Waits := Reader.waits_empty.foldl_read a
    have hbounds := hwaits u hu
    exact hc b hb ⟨by omega, by omega⟩

/-- A character begins with a byte that does not go on with one. -/
theorem Taken.exists_first {bytes : List UInt8} (h : Taken bytes) :
    ∃ b rest, bytes = b :: rest ∧ ¬ IsTail b := by
  unfold IsTail
  cases h with
  | @one b hb => exact ⟨b, [], rfl, by omega⟩
  | @more b u rest ho _ =>
    have hopens := opens_opening b
    rw [ho] at hopens
    refine ⟨b, rest, rfl, ?_⟩
    cases hopens <;> omega

theorem Parted.of_isWellFormed (a : List UInt8) {c : List UInt8} (h : IsWellFormed c) :
    Parted a c := by
  obtain ⟨cs, rfl⟩ := isWellFormed_iff.mp h
  refine .inr ?_
  rcases cs with _ | ⟨c, cs⟩
  · rintro b ⟨⟩
  obtain ⟨b, rest, hc, hb⟩ := (taken_char c).exists_first
  rw [Text.toBytes_ofChars_cons, hc]
  rintro _ ⟨rfl⟩
  exact hb

/-! ## Bytes of ASCII -/

/-- The bytes of U+FFFD. -/
theorem encode_replacement : String.utf8EncodeChar (Char.ofNat 0xFFFD) = [0xEF, 0xBF, 0xBD] := by
  decide

/-- A piece is shown with the bytes of ASCII that it has. -/
theorem Piece.Sound.filter_shown {p : Piece} (h : p.Sound) :
    (String.utf8EncodeChar p.shown).filter isAscii = p.bytes.filter isAscii := by
  rcases p with c | bytes
  · rfl
  · have hnone : bytes.filter isAscii = [] := by
      rw [List.filter_eq_nil_iff]
      intro b hb hascii
      have hhigh : 0x80 ≤ b.toNat := h b hb
      exact Nat.not_lt.mpr hhigh (of_decide_eq_true hascii)
    rw [Piece.shown, encode_replacement, Piece.bytes, hnone]
    decide

end Utf8

/-! ## What is shown -/

section Shown

open Utf8

theorem shownOutput_append {a c : List UInt8} (h : Parted a c) :
    shownOutput (a ++ c) = shownOutput a ++ shownOutput c := by
  simp [shownOutput, lossy, pieces_append h, Text.ofChars]

/-- Characters are shown as they are. -/
theorem shownOutput_toBytes_ofChars (cs : List Char) :
    shownOutput (Text.ofChars cs).toBytes = Text.ofChars cs := by
  simp [shownOutput, lossy, pieces_toBytes_ofChars, Function.comp_def, Piece.shown]

theorem isWellFormed_shownOutput (bytes : List UInt8) :
    IsWellFormed (shownOutput bytes).toBytes :=
  isWellFormed_iff.mpr ⟨lossy bytes, rfl⟩

theorem toBytes_shownOutput_eq_iff {bytes : List UInt8} :
    (shownOutput bytes).toBytes = bytes ↔ IsWellFormed bytes := by
  constructor
  · intro h
    exact h ▸ isWellFormed_shownOutput bytes
  · intro h
    obtain ⟨cs, rfl⟩ := isWellFormed_iff.mp h
    rw [shownOutput_toBytes_ofChars]

/-- A byte of ASCII is a character by itself, whatever stands before and behind it. -/
theorem shownOutput_append_ascii (a c : List UInt8) {b : UInt8} (hb : isAscii b = true) :
    shownOutput (a ++ b :: c) =
      shownOutput a ++ .char (Char.ofNat b.toNat) :: shownOutput c := by
  have hbyte : (Text.ofChars [Char.ofNat b.toNat]).toBytes = [b] := by
    rw [Text.toBytes_ofChars, List.flatMap_singleton, encode_one (of_decide_eq_true hb)]
  have hone : shownOutput [b] = [.char (Char.ofNat b.toNat)] := by
    rw [← hbyte, shownOutput_toBytes_ofChars]
    rfl
  have hwhole : Parted [b] c := .inl (isWellFormed_iff.mpr ⟨_, hbyte⟩)
  calc shownOutput (a ++ b :: c)
      = shownOutput a ++ shownOutput ([b] ++ c) := shownOutput_append (.of_isAscii hb)
    _ = shownOutput a ++ (shownOutput [b] ++ shownOutput c) := by rw [shownOutput_append hwhole]
    _ = shownOutput a ++ .char (Char.ofNat b.toNat) :: shownOutput c := by
      rw [hone, List.singleton_append]

/-- **Every line is shown by itself.** -/
theorem shownOutput_lines (lines : List (List UInt8)) :
    shownOutput ([10].intercalate lines) = Text.join "\n" (lines.map shownOutput) := by
  induction lines with
  | nil => rfl
  | cons line lines ih =>
    rcases lines with _ | ⟨next, lines⟩
    · simp [List.intercalate]
    · have hbytes : [10].intercalate (line :: next :: lines) =
          line ++ 10 :: [10].intercalate (next :: lines) := by
        simp [List.intercalate]
      rw [hbytes, shownOutput_append_ascii line _ rfl, ih]
      simp only [List.map_cons, Text.join_cons_cons, List.append_assoc]
      rfl

/-- **No byte of ASCII is lost or added, and none gets out of its place.** -/
theorem filter_toBytes_shownOutput (bytes : List UInt8) :
    (shownOutput bytes).toBytes.filter isAscii = bytes.filter isAscii := by
  have hspells := spells_pieces bytes
  have hshown : (shownOutput bytes).toBytes =
      (pieces bytes).flatMap fun p => String.utf8EncodeChar p.shown := by
    rw [shownOutput, Text.toBytes_ofChars, lossy, List.flatMap_map]
  calc (shownOutput bytes).toBytes.filter isAscii
      = (pieces bytes).flatMap fun p => (String.utf8EncodeChar p.shown).filter isAscii := by
        rw [hshown, List.filter_flatMap]
    _ = (pieces bytes).flatMap fun p => p.bytes.filter isAscii :=
        List.flatMap_congr fun p hp => (hspells.sound p hp).filter_shown
    _ = bytes.filter isAscii := by rw [← List.filter_flatMap, hspells.bytes_eq]

/-- **Captured output is shown faithfully.**  What is shown has no surrogates, can be printed even
where only characters can be, and comes out as well-formed bytes; these are the bytes that were
captured just if those were well-formed.  Output is shown in two parts where the first one is
well-formed or the second one begins with a byte of ASCII or is well-formed, and so are its lines;
the bytes of ASCII in it stay as they are; and to show once more what was shown changes nothing. -/
theorem output_shown_faithfully :
    (∀ bytes, (∀ a ∈ shownOutput bytes, a.code < 0xD800 ∨ 0xDFFF < a.code) ∧
      (∀ position, Text.printFault? position (shownOutput bytes) = none) ∧
      IsWellFormed (shownOutput bytes).toBytes) ∧
    (∀ bytes, (shownOutput bytes).toBytes = bytes ↔ IsWellFormed bytes) ∧
    (∀ a c, (IsWellFormed a ∨ (∃ b ∈ c.head?, isAscii b = true) ∨ IsWellFormed c) →
      shownOutput (a ++ c) = shownOutput a ++ shownOutput c) ∧
    (∀ lines, shownOutput ([10].intercalate lines) = Text.join "\n" (lines.map shownOutput)) ∧
    (∀ bytes, (shownOutput bytes).toBytes.filter isAscii = bytes.filter isAscii) ∧
    ∀ bytes, shownOutput (shownOutput bytes).toBytes = shownOutput bytes := by
  refine ⟨?_, fun bytes => toBytes_shownOutput_eq_iff, ?_, shownOutput_lines,
    filter_toBytes_shownOutput, ?_⟩
  · intro bytes
    refine ⟨?_, ?_, isWellFormed_shownOutput bytes⟩
    · intro a ha
      obtain ⟨c, -, rfl⟩ := List.mem_map.mp ha
      have hc : c.toNat < 0xD800 ∨ 0xDFFF < c.toNat ∧ c.toNat < 0x110000 := c.valid
      exact hc.imp id And.left
    · exact Text.printFault?_of_not_hasStray (Text.hasStray_ofChars _)
  · intro a c h
    apply shownOutput_append
    rcases h with ha | ⟨b, hb, hascii⟩ | hc
    · exact .inl ha
    · obtain ⟨c, rfl⟩ := List.head?_eq_some_iff.mp hb
      exact .of_isAscii hascii
    · exact .of_isWellFormed a hc
  · intro bytes
    exact shownOutput_toBytes_ofChars (lossy bytes)

/-- Two characters are cut off, one before a quote and one at the end; neither has taken the quote,
the line break or the letter with it. -/
theorem cut_characters_shown :
    let a : List UInt8 := [0x61, 0xF0, 0x9F, 0x98]
    let c : List UInt8 := [0x27, 0x0A, 0x62, 0xE2, 0x82]
    ¬ IsWellFormed a ∧ ¬ IsWellFormed c ∧
      (IsWellFormed a ∨ (∃ b ∈ c.head?, isAscii b = true) ∨ IsWellFormed c) ∧
      shownOutput (a ++ c) = shownOutput a ++ shownOutput c ∧
      shownOutput a = "a\uFFFD" ∧ shownOutput c = "'\nb\uFFFD" := by
  intro a c
  have h : IsWellFormed a ∨ (∃ b ∈ c.head?, isAscii b = true) ∨ IsWellFormed c :=
    .inr (.inl ⟨0x27, rfl, rfl⟩)
  exact ⟨by decide, by decide, h, output_shown_faithfully.2.2.1 a c h, by decide, by decide⟩

end Shown

end FileSweep
