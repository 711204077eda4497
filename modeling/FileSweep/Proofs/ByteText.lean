import Mathlib.Data.List.Basic
import FileSweep.Text.Utf8

/-!
# Bytes that are read and written

Reading bytes as a text loses nothing: whatever the bytes are, writing the text gives them back
(`Text.toBytes_ofBytes`).  The reader is followed byte by byte.  What it has finished and what it
holds of an open character are together all that it has read (`Utf8.Reader.Holds`); and of an open
character it knows at every time that whichever bytes complete it, the character they lead to is
written as the bytes seen and those that follow (`Utf8.Unfinished.Sound`).  So bits have to be
reckoned with at first bytes only (`Utf8.Unfinished.sound_of_opening`).

A byte of ASCII is written for no symbol but its own character (`Symbol.eq_of_mem_toBytes`), so
neither a slash nor a dot can come from other bytes than its own.

An output that takes code points one by one, and a surrogate for a byte outside of all characters,
takes every text, and what it gives are the bytes of the text (`Utf8.printed?_codes`).
-/

namespace FileSweep

namespace Utf8

/-! ## Characters from their bytes -/

/-- The payload bits with those of further bytes behind them. -/
def extend (value : Nat) (bytes : List UInt8) : Nat :=
  bytes.foldl (fun value b => value * 64 + (b.toNat - 0x80)) value

theorem extend_cons (value : Nat) (b : UInt8) (bytes : List UInt8) :
    extend value (b :: bytes) = extend (value * 64 + (b.toNat - 0x80)) bytes :=
  List.foldl_cons

theorem val_charOfNat {n : Nat} (h : n.isValidChar) : (Char.ofNat n).val.toNat = n :=
  toNat_charOfNat h

theorem encode_one {a : UInt8} (ha : a.toNat < 0x80) :
    String.utf8EncodeChar (Char.ofNat a.toNat) = [a] := by
  have hvalid : a.toNat.isValidChar := .inl (by omega)
  unfold String.utf8EncodeChar
  rw [val_charOfNat hvalid, if_pos (by omega), UInt8.ofNat_toNat]

section Several

variable {a b c d : UInt8} (hb : 0x80 ≤ b.toNat ∧ b.toNat ≤ 0xBF)
include hb

theorem encode_two (ha : 0xC2 ≤ a.toNat ∧ a.toNat ≤ 0xDF) :
    String.utf8EncodeChar (Char.ofNat (extend (a.toNat - 0xC0) [b])) = [a, b] := by
  generalize hn : extend (a.toNat - 0xC0) [b] = n
  simp only [extend, List.foldl_cons, List.foldl_nil] at hn
  have hvalid : n.isValidChar := .inl (by omega)
  unfold String.utf8EncodeChar
  rw [val_charOfNat hvalid, if_neg (by omega), if_pos (by omega)]
  simp only [List.cons.injEq, ← UInt8.toNat_inj, UInt8.toNat_ofNat', and_true]
  omega

variable (hc : 0x80 ≤ c.toNat ∧ c.toNat ≤ 0xBF)
include hc

theorem encode_three (ha : 0xE0 ≤ a.toNat ∧ a.toNat ≤ 0xEF)
    (hshort : a.toNat = 0xE0 → 0xA0 ≤ b.toNat) (hsurrogate : a.toNat = 0xED → b.toNat ≤ 0x9F) :
    String.utf8EncodeChar (Char.ofNat (extend (a.toNat - 0xE0) [b, c])) = [a, b, c] := by
  generalize hn : extend (a.toNat - 0xE0) [b, c] = n
  simp only [extend, List.foldl_cons, List.foldl_nil] at hn
  have hvalid : n.isValidChar := by
    unfold Nat.isValidChar
    omega
  unfold String.utf8EncodeChar
  rw [val_charOfNat hvalid, if_neg (by omega), if_neg (by omega), if_pos (by omega)]
  simp only [List.cons.injEq, ← UInt8.toNat_inj, UInt8.toNat_ofNat', and_true]
  omega

variable (hd : 0x80 ≤ d.toNat ∧ d.toNat ≤ 0xBF)
include hd

theorem encode_four (ha : 0xF0 ≤ a.toNat ∧ a.toNat ≤ 0xF4)
    (hshort : a.toNat = 0xF0 → 0x90 ≤ b.toNat) (hlarge : a.toNat = 0xF4 → b.toNat ≤ 0x8F) :
    String.utf8EncodeChar (Char.ofNat (extend (a.toNat - 0xF0) [b, c, d])) = [a, b, c, d] := by
  generalize hn : extend (a.toNat - 0xF0) [b, c, d] = n
  simp only [extend, List.foldl_cons, List.foldl_nil] at hn
  have hvalid : n.isValidChar := by
    unfold Nat.isValidChar
    omega
  unfold String.utf8EncodeChar
  rw [val_charOfNat hvalid, if_neg (by omega), if_neg (by omega), if_neg (by omega)]
  simp only [List.cons.injEq, ← UInt8.toNat_inj, UInt8.toNat_ofNat', and_true]
  omega

end Several

/-! ## First bytes -/

/-- The bytes that can complete a character: so many, the first one within bounds. -/
inductive Completes : (missing low high : Nat) → List UInt8 → Prop
  | nil {low high : Nat} : Completes 0 low high []
  | cons {missing low high : Nat} {b : UInt8} {bytes : List UInt8}
    (hb : low ≤ b.toNat ∧ b.toNat ≤ high) (h : Completes missing 0x80 0xBF bytes) :
    Completes (missing + 1) low high (b :: bytes)

/-- What a first byte announces, with one case for each length of a character.  The bounds are
those of the byte after it. -/
inductive Opens (b : UInt8) : Opening → Prop
  | one (hb : b.toNat < 0x80) : Opens b (.whole (Char.ofNat b.toNat))
  | two (hb : 0xC2 ≤ b.toNat ∧ b.toNat ≤ 0xDF) :
    Opens b (.more ⟨[b], b.toNat - 0xC0, 1, 0x80, 0xBF⟩)
  | three {low high : Nat} (hb : 0xE0 ≤ b.toNat ∧ b.toNat ≤ 0xEF)
    (hbounds : 0x80 ≤ low ∧ high ≤ 0xBF) (hshort : b.toNat = 0xE0 → 0xA0 ≤ low)
    (hsurrogate : b.toNat = 0xED → high ≤ 0x9F) :
    Opens b (.more ⟨[b], b.toNat - 0xE0, 2, low, high⟩)
  | four {low high : Nat} (hb : 0xF0 ≤ b.toNat ∧ b.toNat ≤ 0xF4)
    (hbounds : 0x80 ≤ low ∧ high ≤ 0xBF) (hshort : b.toNat = 0xF0 → 0x90 ≤ low)
    (hlarge : b.toNat = 0xF4 → high ≤ 0x8F) :
    Opens b (.more ⟨[b], b.toNat - 0xF0, 3, low, high⟩)
  | illFormed (hb : 0x80 ≤ b.toNat) : Opens b .illFormed

theorem opens_opening (b : UInt8) : Opens b (opening b) := by
  unfold opening
  dsimp only
  split
  · exact .one ‹_›
  split
  · exact .illFormed (by omega)
  split
  · exact .two (by omega)
  split
  next hb =>
    have hopens : Opens b (.more ⟨[b], b.toNat - 0xE0, 2, 0xA0, 0xBF⟩) :=
      .three (by omega) (by omega) (by omega) (by omega)
    simpa [hb] using hopens
  split
  next hb =>
    have hopens : Opens b (.more ⟨[b], b.toNat - 0xE0, 2, 0x80, 0x9F⟩) :=
      .three (by omega) (by omega) (by omega) (by omega)
    simpa [hb] using hopens
  split
  · exact .three (by omega) (by omega) (by omega) (by omega)
  split
  next hb =>
    have hopens : Opens b (.more ⟨[b], b.toNat - 0xF0, 3, 0x90, 0xBF⟩) :=
      .four (by omega) (by omega) (by omega) (by omega)
    simpa [hb] using hopens
  split
  · exact .four (by omega) (by omega) (by omega) (by omega)
  split
  next hb =>
    have hopens : Opens b (.more ⟨[b], b.toNat - 0xF0, 3, 0x80, 0x8F⟩) :=
      .four (by omega) (by omega) (by omega) (by omega)
    simpa [hb] using hopens
  · exact .illFormed (by omega)

/-! ## Open characters -/

namespace Unfinished

variable {u : Unfinished} {b : UInt8}

/-- What is known of an open character: bytes are missing, neither those seen nor the next one are
bytes of ASCII, and whatever completes it, the character is written as the bytes seen and those
behind them. -/
structure Sound (u : Unfinished) : Prop where
  missing : 0 < u.missing
  seen : ∀ b ∈ u.seen, 0x80 ≤ b.toNat
  low : 0x80 ≤ u.low
  encode : ∀ bytes, Completes u.missing u.low u.high bytes →
    String.utf8EncodeChar (Char.ofNat (extend u.value bytes)) = u.seen ++ bytes

theorem seen_of_opening (h : opening b = .more u) : u.seen = [b] := by
  have hopens := opens_opening b
  rw [h] at hopens
  cases hopens <;> rfl

theorem sound_of_opening (h : opening b = .more u) : u.Sound := by
  have hopens := opens_opening b
  rw [h] at hopens
  cases hopens with
  | two hb =>
    refine ⟨by simp, by simpa using by omega, by simp, ?_⟩
    rintro _ (_ | ⟨hc, _ | _⟩)
    exact encode_two hc hb
  | three hb hbounds hshort hsurrogate =>
    refine ⟨by simp, by simpa using by omega, hbounds.1, ?_⟩
    rintro _ (_ | ⟨hc, _ | ⟨hd, _ | _⟩⟩)
    dsimp only at hc
    exact encode_three (by omega) hd hb (by omega) (by omega)
  | four hb hbounds hshort hlarge =>
    refine ⟨by simp, by simpa using by omega, hbounds.1, ?_⟩
    rintro _ (_ | ⟨hc, _ | ⟨hd, _ | ⟨he, _ | _⟩⟩⟩)
    dsimp only at hc
    exact encode_four (by omega) hd he hb (by omega) (by omega)

section Next

variable (h : u.Sound) (hb : u.low ≤ b.toNat ∧ b.toNat ≤ u.high)
include h hb

/-- The last missing byte makes the character that is written so. -/
theorem Sound.last (hmissing : u.missing ≤ 1) :
    String.utf8EncodeChar (Char.ofNat (u.value * 64 + (b.toNat - 0x80))) = u.seen ++ [b] := by
  have hone : u.missing = 0 + 1 := Nat.le_antisymm hmissing h.missing
  exact h.encode [b] (hone ▸ .cons hb .nil)

/-- An open character stays sound with one more byte, if further ones are missing. -/
theorem Sound.more (hmissing : 1 < u.missing) :
    Sound ⟨u.seen ++ [b], u.value * 64 + (b.toNat - 0x80), u.missing - 1, 0x80, 0xBF⟩ where
  missing := Nat.sub_pos_of_lt hmissing
  seen := by
    have hlow := h.low
    simpa [or_imp, forall_and] using ⟨h.seen, by omega⟩
  low := Nat.le_refl _
  encode bytes hbytes := by
    have hcons : Completes (u.missing - 1 + 1) u.low u.high (b :: bytes) := .cons hb hbytes
    rw [Nat.sub_add_cancel h.missing] at hcons
    rw [List.append_assoc, List.singleton_append, ← h.encode _ hcons, extend_cons]

end Next

end Unfinished

/-! ## Pieces and the reader -/

/-- The bytes of a piece. -/
def Piece.bytes : Piece → List UInt8
  | .good c => String.utf8EncodeChar c
  | .bad bytes => bytes

/-- Whether none of the bytes that are kept for themselves is one of ASCII. -/
def Piece.Sound : Piece → Prop
  | .good _ => True
  | .bad bytes => ∀ b ∈ bytes, 0x80 ≤ b.toNat

theorem toBytes_stray {b : UInt8} (hb : 0x80 ≤ b.toNat) : (stray b).toBytes = [b] := by
  have hlt := b.toNat_lt
  simp only [stray, Symbol.toBytes, Fin.ofNat, List.cons.injEq, and_true, ← UInt8.toNat_inj,
    UInt8.toNat_ofNat']
  omega

/-- The symbols of a piece are written as its bytes. -/
theorem Piece.Sound.toBytes_symbols {p : Piece} (h : p.Sound) :
    Text.toBytes p.symbols = p.bytes := by
  cases p with
  | good c => simp [symbols, bytes, Text.toBytes, Symbol.toBytes]
  | bad bytes =>
    induction bytes with
    | nil => rfl
    | cons b bytes ih =>
      obtain ⟨hb, hbytes⟩ := List.forall_mem_cons.mp h
      have hrest := ih hbytes
      simp only [symbols, Text.toBytes, List.map_cons, List.flatMap_cons, Piece.bytes] at hrest ⊢
      rw [hrest, toBytes_stray hb]
      rfl

/-- Whether pieces are those of the given bytes, and can be kept as symbols. -/
structure Spells (ps : List Piece) (bytes : List UInt8) : Prop where
  bytes_eq : ps.flatMap Piece.bytes = bytes
  sound : ∀ p ∈ ps, p.Sound

namespace Spells

variable {ps : List Piece} {p q : Piece} {bytes : List UInt8} {b : UInt8}

theorem nil : Spells [] [] := ⟨rfl, nofun⟩

/-- A byte is a piece of its own. -/
theorem concat (h : Spells ps bytes) (hp : p.Sound) (hb : p.bytes = [b]) :
    Spells (ps ++ [p]) (bytes ++ [b]) where
  bytes_eq := by simp [h.bytes_eq, hb]
  sound := by simpa [or_imp, forall_and] using ⟨h.sound, hp⟩

/-- A byte goes into the last piece. -/
theorem extend_last (h : Spells (ps ++ [p]) bytes) (hq : q.Sound) (hb : q.bytes = p.bytes ++ [b]) :
    Spells (ps ++ [q]) (bytes ++ [b]) where
  bytes_eq := by simp [← h.bytes_eq, hb]
  sound := by
    have hsound := h.sound
    simp only [List.mem_append, List.mem_singleton, or_imp, forall_and, forall_eq] at hsound ⊢
    exact ⟨hsound.1, hq⟩

theorem toBytes_symbols (h : Spells ps bytes) :
    Text.toBytes (ps.flatMap Piece.symbols) = bytes := by
  rw [Text.toBytes, List.flatMap_assoc, ← h.bytes_eq]
  exact List.flatMap_congr fun p hp => (h.sound p hp).toBytes_symbols

end Spells

namespace Reader

theorem close_done (p : Piece) (done : List Piece) :
    close ⟨p :: done, none⟩ = done.reverse ++ [p] := List.reverse_cons

theorem close_open (done : List Piece) (u : Unfinished) :
    close ⟨done, some u⟩ = done.reverse ++ [.bad u.seen] := List.reverse_cons

/-- Whether a reader has read just these bytes, and what is open in it is sound. -/
structure Holds (r : Reader) (bytes : List UInt8) : Prop where
  spells : Spells r.close bytes
  unfinished : ∀ u ∈ r.unfinished, u.Sound

theorem holds_empty : empty.Holds [] := ⟨.nil, nofun⟩

theorem holds_done {p : Piece} {done : List Piece} {bytes : List UInt8}
    (h : Spells (done.reverse ++ [p]) bytes) : Holds ⟨p :: done, none⟩ bytes :=
  ⟨close_done p done ▸ h, nofun⟩

theorem holds_open {u : Unfinished} {done : List Piece} {bytes : List UInt8} (hu : u.Sound)
    (h : Spells (done.reverse ++ [.bad u.seen]) bytes) : Holds ⟨done, some u⟩ bytes :=
  ⟨close_open done u ▸ h, fun _ hv => Option.some.inj hv ▸ hu⟩

/-- A first byte is read behind the pieces that are done. -/
theorem holds_start {done : List Piece} {bytes : List UInt8} (h : Spells done.reverse bytes)
    (b : UInt8) : (start done b).Holds (bytes ++ [b]) := by
  have hopens := opens_opening b
  unfold start
  cases ho : opening b with
  | whole c =>
    rw [ho] at hopens
    cases hopens with
    | one hb => exact holds_done (h.concat trivial (encode_one hb))
  | more u =>
    have hu := Unfinished.sound_of_opening ho
    exact holds_open hu (h.concat hu.seen (Unfinished.seen_of_opening ho))
  | illFormed =>
    rw [ho] at hopens
    cases hopens with
    | illFormed hb => exact holds_done (h.concat (by simpa [Piece.Sound] using hb) rfl)

/-- **Nothing is lost with a byte**, whatever state it finds the reader in. -/
theorem holds_read {r : Reader} {bytes : List UInt8} (h : r.Holds bytes) (b : UInt8) :
    (r.read b).Holds (bytes ++ [b]) := by
  obtain ⟨done, unfinished⟩ := r
  obtain ⟨hspells, hunfinished⟩ := h
  unfold read
  cases unfinished with
  | none => exact holds_start hspells b
  | some u =>
    have hu : u.Sound := hunfinished u rfl
    have hopen := hspells
    rw [close_open] at hopen
    dsimp only
    split
    next hb =>
      split
      next hmissing =>
        have hlast := hu.last hb hmissing
        generalize Char.ofNat _ = c at hlast ⊢
        exact holds_done (hopen.extend_last trivial hlast)
      next hmissing =>
        have hmore := hu.more hb (Nat.lt_of_not_le hmissing)
        exact holds_open hmore (hopen.extend_last hmore.seen rfl)
    -- the byte does not fit, so what was open is a bad piece and the byte is a first one
    next => exact holds_start hspells b

theorem holds_foldl {r : Reader} {bytes : List UInt8} (h : r.Holds bytes) (more : List UInt8) :
    (more.foldl read r).Holds (bytes ++ more) := by
  induction more generalizing r bytes with
  | nil => simpa using h
  | cons b more ih => simpa using ih (holds_read h b)

end Reader

theorem spells_pieces (bytes : List UInt8) : Spells (pieces bytes) bytes :=
  (Reader.holds_foldl Reader.holds_empty bytes).spells

end Utf8

/-- **What was read is written as it was.** -/
theorem Text.toBytes_ofBytes (bytes : List UInt8) : (Text.ofBytes bytes).toBytes = bytes :=
  (Utf8.spells_pieces bytes).toBytes_symbols

/-! ## Bytes of ASCII -/

/-- **A byte of ASCII is written for its own character only.** -/
theorem Symbol.eq_of_mem_toBytes {a : Symbol} {b : UInt8} (hb : b.toNat < 0x80)
    (h : b ∈ a.toBytes) : a = .char (Char.ofNat b.toNat) := by
  cases a with
  | stray low =>
    have hbyte := congrArg UInt8.toNat (List.mem_singleton.mp h)
    rw [UInt8.toNat_ofNat'] at hbyte
    omega
  | char c =>
    unfold toBytes String.utf8EncodeChar at h
    dsimp only at h
    split at h
    next hone =>
      have hbyte := congrArg UInt8.toNat (List.mem_singleton.mp h)
      rw [UInt8.toNat_ofNat', Nat.mod_eq_of_lt (by omega)] at hbyte
      rw [hbyte]
      exact congrArg Symbol.char (Char.ofNat_toNat c).symm
    next =>
      -- all bytes of a longer character have the bit 0x80
      have hhigh : 0x80 ≤ b.toNat := by
        repeat' split at h
        all_goals
          simp only [List.mem_cons, List.not_mem_nil, or_false, ← UInt8.toNat_inj,
            UInt8.toNat_ofNat'] at h
          omega
      omega

theorem Symbol.toBytes_ne_nil (a : Symbol) : a.toBytes ≠ [] := by
  cases a with
  | char c => exact String.utf8EncodeChar_ne_nil
  | stray low => exact List.cons_ne_nil _ _

namespace Text

variable {t : Text} {b : UInt8}

@[simp] theorem toBytes_nil : toBytes [] = [] := rfl

@[simp] theorem toBytes_cons (a : Symbol) (t : Text) : toBytes (a :: t) = a.toBytes ++ toBytes t :=
  List.flatMap_cons

@[simp] theorem toBytes_append (s t : Text) : toBytes (s ++ t) = toBytes s ++ toBytes t :=
  List.flatMap_append

theorem toBytes_eq_nil_iff : t.toBytes = [] ↔ t = [] := by
  cases t with
  | nil => simp
  | cons a t => simp [Symbol.toBytes_ne_nil]

/-- A text is written as one byte of ASCII only if it is that character. -/
theorem eq_of_toBytes_eq_singleton (hb : b.toNat < 0x80) (h : t.toBytes = [b]) :
    t = [.char (Char.ofNat b.toNat)] := by
  cases t with
  | nil => cases h
  | cons a t =>
    rw [toBytes_cons, List.append_eq_singleton_iff] at h
    rcases h with ⟨hnil, -⟩ | ⟨ha, ht⟩
    · exact absurd hnil a.toBytes_ne_nil
    · have hsymbol : a = .char (Char.ofNat b.toNat) :=
        Symbol.eq_of_mem_toBytes hb (ha ▸ List.mem_singleton_self b)
      rw [hsymbol, toBytes_eq_nil_iff.mp ht]

/-- A text has a character of ASCII if its bytes have the byte. -/
theorem mem_of_mem_toBytes (hb : b.toNat < 0x80) (h : b ∈ t.toBytes) :
    .char (Char.ofNat b.toNat) ∈ t := by
  obtain ⟨a, ha, hmem⟩ := List.mem_flatMap.mp h
  exact Symbol.eq_of_mem_toBytes hb hmem ▸ ha

end Text

/-! ## Printing where strays are allowed -/

namespace Utf8

/-- What a code point is printed as, where a byte that belongs to no character may be given by the
surrogate for it.  Other surrogates cannot be printed. -/
def escaped? (n : Nat) : Option (List UInt8) :=
  if n.isValidChar then some (String.utf8EncodeChar (Char.ofNat n))
  else if 0xDC80 ≤ n ∧ n ≤ 0xDCFF then some [UInt8.ofNat (n - 0xDC00)]
  else none

/-- What code points are printed as, if each of them can be printed. -/
def printed? : (codes : List Nat) → Option (List UInt8)
  | [] => some []
  | n :: codes => do
    let bytes ← escaped? n
    let more ← printed? codes
    return bytes ++ more

theorem escaped?_code (a : Symbol) : escaped? a.code = some a.toBytes := by
  cases a with
  | char c =>
    have hcode : (Symbol.char c).code = c.toNat := rfl
    have hvalid : c.toNat.isValidChar := c.valid
    rw [hcode, escaped?, if_pos hvalid, Char.ofNat_toNat]
    rfl
  | stray low =>
    have hlow := low.isLt
    have hinvalid : ¬ Nat.isValidChar (0xDC80 + low.val) := by
      unfold Nat.isValidChar
      omega
    have hbyte : 0xDC80 + low.val - 0xDC00 = 0x80 + low.val := by omega
    have hcode : (Symbol.stray low).code = 0xDC80 + low.val := rfl
    rw [hcode, escaped?, if_neg hinvalid, if_pos (by omega), hbyte]
    rfl

/-- **Every text can be printed**, as the bytes that it is written as. -/
theorem printed?_codes (t : Text) : printed? (t.map Symbol.code) = some t.toBytes := by
  induction t with
  | nil => rfl
  | cons a t ih =>
    rw [List.map_cons, printed?, escaped?_code, ih]
    rfl

end Utf8

end FileSweep
