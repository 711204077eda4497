import FileSweep.Proofs.WellFormed

/-!
# Decoding with replacement

What bytes decode to can be told without a reader (`Utf8.Decodes`).  A character that stands in
front is decoded to itself.  Where none stands, one U+FFFD replaces the longest beginning of a
character, or a single byte if not even that begins one (`Utf8.IsMaximalSubpart`).  Then the same
is done with the bytes behind.  There is only one way to do so (`Utf8.Decodes.unique`), and
captured output is shown in this way (`Utf8.isDecoder_lossy`).

That the reader finds the same stretches has one reason: a byte that does not fit an open
character finds the reader as if nothing were open, except for what it has finished before, and
that has no part in what comes (`Utf8.Reader.foldl_read_after`).  So bytes can be read in two parts
wherever the second part does not go on with what is open behind the first
(`Utf8.pieces_append_of_refused`).
-/

namespace FileSweep

namespace Utf8

/-! ## What bytes decode to -/

/-- Whether bytes begin a character, or are one. -/
def BeginsChar (bytes : List UInt8) : Prop := ∃ c, bytes <+: String.utf8EncodeChar c

/-- Whether the bytes `bad`, with `rest` behind them, are replaced as one stretch: no character
stands there, and they are the longest beginning of one, or a byte that begins none. -/
structure IsMaximalSubpart (bad rest : List UInt8) : Prop where
  illFormed : ∀ c, ¬ String.utf8EncodeChar c <+: bad ++ rest
  begins : bad.length = 1 ∨ bad ≠ [] ∧ BeginsChar bad
  longest : ∀ more, more ≠ [] → more <+: rest → ¬ BeginsChar (bad ++ more)

/-- What stands in front of `rest`, with the character that it is decoded to. -/
inductive Front (rest : List UInt8) : (front : List UInt8) → Char → Prop
  | char (c : Char) : Front rest (String.utf8EncodeChar c) c
  | replaced {bad : List UInt8} (h : IsMaximalSubpart bad rest) :
    Front rest bad (Char.ofNat 0xFFFD)

/-- What bytes decode to, if U+FFFD replaces what is not well-formed. -/
inductive Decodes : List UInt8 → List Char → Prop
  | nil : Decodes [] []
  | cons {front rest : List UInt8} {c : Char} {cs : List Char} (hfront : Front rest front c)
    (h : Decodes rest cs) : Decodes (front ++ rest) (c :: cs)

/-- Whether a function gives what bytes decode to, for all bytes. -/
def IsDecoder (decode : List UInt8 → List Char) : Prop :=
  ∀ bytes cs, decode bytes = cs ↔ Decodes bytes cs

/-! ## What was finished before -/

namespace Reader

/-- The reader with further pieces in front of its own. -/
def after (r : Reader) (done : List Piece) : Reader := ⟨r.pieces ++ done, r.unfinished⟩

theorem close_after (r : Reader) (done : List Piece) :
    (r.after done).close = done.reverse ++ r.close := by
  obtain ⟨pieces, unfinished⟩ := r
  rcases unfinished with _ | u
  · exact List.reverse_append
  · simp [after, close]

theorem start_after (done done' : List Piece) (b : UInt8) :
    start (done ++ done') b = (start done b).after done' := by
  unfold start
  rcases opening b <;> rfl

/-- **A byte is read in the same way whatever was finished before.** -/
theorem read_after (r : Reader) (done : List Piece) (b : UInt8) :
    (r.after done).read b = (r.read b).after done := by
  obtain ⟨pieces, unfinished⟩ := r
  rcases unfinished with _ | u
  · exact start_after pieces done b
  by_cases hb : u.low ≤ b.toNat ∧ b.toNat ≤ u.high
  · by_cases hlast : u.missing ≤ 1
    · rw [read_last hb hlast]
      exact read_last hb hlast
    · rw [read_more hb hlast]
      exact read_more hb hlast
  · rw [read_refused hb, ← start_after]
    exact read_refused hb

theorem foldl_read_after (r : Reader) (done : List Piece) (bytes : List UInt8) :
    bytes.foldl read (r.after done) = (bytes.foldl read r).after done := by
  induction bytes generalizing r with
  | nil => rfl
  | cons b bytes ih => rw [List.foldl_cons, read_after, ih, List.foldl_cons]

/-- A byte for which nothing is open starts anew, behind all that was read. -/
theorem read_of_refused {r : Reader} {b : UInt8}
    (h : ∀ u ∈ r.unfinished, ¬ (u.low ≤ b.toNat ∧ b.toNat ≤ u.high)) :
    r.read b = (empty.read b).after r.close.reverse := by
  obtain ⟨pieces, unfinished⟩ := r
  rcases unfinished with _ | u
  · have hclose : close ⟨pieces, none⟩ = pieces.reverse := rfl
    rw [hclose, List.reverse_reverse]
    exact start_after [] pieces b
  · have hclose : close ⟨pieces, some u⟩ = (.bad u.seen :: pieces).reverse := rfl
    rw [hclose, List.reverse_reverse, read_refused (h u rfl)]
    exact start_after [] (.bad u.seen :: pieces) b

end Reader

/-- **Bytes are read in two parts as they are read in one**, if the second part does not go on with
what is open behind the first. -/
theorem pieces_append_of_refused {a z : List UInt8}
    (h : ∀ b ∈ z.head?, ∀ u ∈ (a.foldl Reader.read .empty).unfinished,
      ¬ (u.low ≤ b.toNat ∧ b.toNat ≤ u.high)) :
    pieces (a ++ z) = pieces a ++ pieces z := by
  rcases z with _ | ⟨b, z⟩
  · simp [pieces, Reader.close, Reader.empty]
  unfold pieces
  rw [List.foldl_append, List.foldl_cons, Reader.read_of_refused (h b rfl),
    Reader.foldl_read_after, Reader.close_after, List.reverse_reverse, List.foldl_cons]

/-- A piece behind which nothing is open stands in front of those behind it. -/
theorem pieces_append_of_done {a : List UInt8} {p : Piece}
    (h : a.foldl Reader.read .empty = ⟨[p], none⟩) (z : List UInt8) :
    pieces (a ++ z) = p :: pieces z := by
  have happend : pieces (a ++ z) = pieces a ++ pieces z := by
    apply pieces_append_of_refused
    rw [h]
    rintro b - u ⟨⟩
  rw [happend, pieces, h]
  rfl

theorem pieces_char_append (c : Char) (z : List UInt8) :
    pieces (String.utf8EncodeChar c ++ z) = .good c :: pieces z :=
  pieces_append_of_done (Reader.foldl_read_char c []) z

/-- A byte that neither is nor begins a character is a bad piece. -/
theorem pieces_cons_of_illFormed {b : UInt8} (h : opening b = .illFormed) (z : List UInt8) :
    pieces (b :: z) = .bad [b] :: pieces z := by
  have hfirst : [b].foldl Reader.read .empty = ⟨[.bad [b]], none⟩ := by
    simp [Reader.read, Reader.empty, Reader.start, h]
  exact pieces_append_of_done hfirst z

/-! ## There is one way to decode -/

namespace IsMaximalSubpart

variable {bad bad' rest rest' : List UInt8}

theorem length_pos (h : IsMaximalSubpart bad rest) : 0 < bad.length := by
  rcases h.begins with hone | ⟨hne, -⟩
  · omega
  · exact List.length_pos_of_ne_nil hne

theorem length_le (h : IsMaximalSubpart bad rest) (h' : IsMaximalSubpart bad' rest')
    (heq : bad ++ rest = bad' ++ rest') : bad'.length ≤ bad.length := by
  by_contra hlt
  rw [Nat.not_le] at hlt
  have hpos := h.length_pos
  have hprefix : bad <+: bad' :=
    List.prefix_of_prefix_length_le ⟨rest, heq⟩ (List.prefix_append bad' rest') (Nat.le_of_lt hlt)
  obtain ⟨more, rfl⟩ := hprefix
  have hrest : rest = more ++ rest' := by
    rw [List.append_assoc] at heq
    exact List.append_cancel_left heq
  have hmore : more ≠ [] := by
    rintro rfl
    simp at hlt
  -- a longer stretch has more than one byte, so it begins a character
  rcases h'.begins with hone | ⟨-, hbegins⟩
  · omega
  · exact h.longest more hmore ⟨rest', hrest.symm⟩ hbegins

end IsMaximalSubpart

namespace Front

variable {front front' rest rest' : List UInt8} {c c' : Char}

theorem ne_nil (h : Front rest front c) : front ≠ [] := by
  cases h with
  | char => exact String.utf8EncodeChar_ne_nil
  | replaced h => exact List.ne_nil_of_length_pos h.length_pos

/-- What stands in front is determined by the bytes. -/
theorem unique (h : Front rest front c) (h' : Front rest' front' c')
    (heq : front ++ rest = front' ++ rest') : c = c' ∧ rest = rest' := by
  cases h with
  | char =>
    cases h' with
    | char =>
      have hpieces := congrArg pieces heq
      rw [pieces_char_append, pieces_char_append] at hpieces
      obtain rfl : c = c' := by
        injection hpieces with hgood
        injection hgood
      exact ⟨rfl, List.append_cancel_left heq⟩
    | replaced hbad => exact absurd ⟨rest, heq⟩ (hbad.illFormed c)
  | replaced hbad =>
    cases h' with
    | char => exact absurd ⟨rest', heq.symm⟩ (hbad.illFormed c')
    | replaced hbad' =>
      have hlength : front.length = front'.length :=
        Nat.le_antisymm (hbad'.length_le hbad heq.symm) (hbad.length_le hbad' heq)
      exact ⟨rfl, (List.append_inj heq hlength).2⟩

end Front

/-- **Bytes decode to one list of characters only.** -/
theorem Decodes.unique {bytes : List UInt8} {cs ds : List Char} (h : Decodes bytes cs)
    (h' : Decodes bytes ds) : cs = ds := by
  induction h generalizing ds with
  | nil =>
    generalize hbytes : ([] : List UInt8) = bytes at h'
    cases h' with
    | nil => rfl
    | cons hfront => exact absurd hbytes.symm (List.append_ne_nil_of_left_ne_nil hfront.ne_nil _)
  | @cons front rest c cs hfront h ih =>
    generalize hbytes : front ++ rest = bytes at h'
    cases h' with
    | nil => exact absurd hbytes (List.append_ne_nil_of_left_ne_nil hfront.ne_nil _)
    | cons hfront' h' =>
      obtain ⟨rfl, rfl⟩ := hfront.unique hfront' hbytes
      rw [ih h']

/-! ## The reader decodes -/

/-- Bytes that are read as one bad piece, whatever is behind them in place of the rest, are a
maximal subpart. -/
theorem IsMaximalSubpart.of_pieces {bad rest : List UInt8}
    (hbegins : bad.length = 1 ∨ bad ≠ [] ∧ BeginsChar bad)
    (h : ∀ z : List UInt8, z.head? = rest.head? → pieces (bad ++ z) = .bad bad :: pieces z) :
    IsMaximalSubpart bad rest where
  illFormed c := by
    rintro ⟨z, hz⟩
    have hbad := h rest rfl
    rw [← hz, pieces_char_append] at hbad
    cases hbad
  begins := hbegins
  longest more hne := by
    rintro ⟨rest, rfl⟩ ⟨c, z, hz⟩
    have hhead : (more ++ z).head? = (more ++ rest).head? := by
      obtain ⟨b, more, rfl⟩ := List.exists_cons_of_ne_nil hne
      rfl
    have hbad := h (more ++ z) hhead
    rw [← List.append_assoc, hz, ← List.append_nil (String.utf8EncodeChar c),
      pieces_char_append] at hbad
    cases hbad

theorem completes_replicate (n : Nat) : Completes n 0x80 0xBF (List.replicate n 0x80) := by
  induction n with
  | zero => exact .nil
  | succ n ih => exact .cons (by decide) ih

namespace Unfinished

/-- Whether a character is open in a reader that has read no more than the bytes of it. -/
structure Reached (u : Unfinished) : Prop where
  read : u.seen.foldl Reader.read .empty = ⟨[], some u⟩
  sound : u.Sound
  bounds : u.low ≤ u.high ∧ u.high ≤ 0xBF

variable {u : Unfinished} {b : UInt8}

theorem bounds_of_opening (h : opening b = .more u) : u.low ≤ u.high ∧ u.high ≤ 0xBF := by
  unfold opening at h
  dsimp only at h
  repeat' split at h
  all_goals cases h
  all_goals simp

theorem reached_of_opening (h : opening b = .more u) : u.Reached where
  read := by
    rw [seen_of_opening h]
    simp [Reader.read, Reader.empty, Reader.start, h]
  sound := sound_of_opening h
  bounds := bounds_of_opening h

namespace Reached

variable (h : u.Reached)
include h

theorem more (hb : u.low ≤ b.toNat ∧ b.toNat ≤ u.high) (hmore : ¬ u.missing ≤ 1) :
    Reached ⟨u.seen ++ [b], u.value * 64 + (b.toNat - 0x80), u.missing - 1, 0x80, 0xBF⟩ where
  read := by
    rw [List.foldl_append, h.read]
    exact Reader.read_more hb hmore
  sound := h.sound.more hb (Nat.not_le.mp hmore)
  bounds := by simp

/-- Something completes an open character. -/
theorem beginsChar : BeginsChar u.seen := by
  obtain ⟨hle, hhigh⟩ := h.bounds
  have hfirst : u.low ≤ (UInt8.ofNat u.low).toNat ∧ (UInt8.ofNat u.low).toNat ≤ u.high := by
    rw [UInt8.toNat_ofNat']
    omega
  have hcompletes : Completes (u.missing - 1 + 1) u.low u.high
      (UInt8.ofNat u.low :: List.replicate (u.missing - 1) 0x80) :=
    .cons hfirst (completes_replicate _)
  rw [Nat.sub_add_cancel h.sound.missing] at hcompletes
  exact ⟨_, _, (h.sound.encode _ hcompletes).symm⟩

theorem seen_ne_nil : u.seen ≠ [] := by
  intro hnil
  have hread := h.read
  rw [hnil] at hread
  cases hread

/-- An open character is a bad piece if what is behind it does not fit. -/
theorem pieces_append {z : List UInt8}
    (hz : ∀ b ∈ z.head?, ¬ (u.low ≤ b.toNat ∧ b.toNat ≤ u.high)) :
    pieces (u.seen ++ z) = .bad u.seen :: pieces z := by
  have happend : pieces (u.seen ++ z) = pieces u.seen ++ pieces z := by
    apply pieces_append_of_refused
    rw [h.read]
    rintro b hb _ ⟨rfl⟩
    exact hz b hb
  rw [happend, pieces, h.read]
  rfl

theorem isMaximalSubpart {rest : List UInt8}
    (hrest : ∀ b ∈ rest.head?, ¬ (u.low ≤ b.toNat ∧ b.toNat ≤ u.high)) :
    IsMaximalSubpart u.seen rest := by
  refine .of_pieces (.inr ⟨h.seen_ne_nil, h.beginsChar⟩) fun z hz => h.pieces_append ?_
  rwa [hz]

end Reached

end Unfinished

/-! ### From the last byte to the first -/

section Lossy

variable {rest : List UInt8} (h : Decodes rest (lossy rest))
include h

theorem decodes_char_append (c : Char) :
    Decodes (String.utf8EncodeChar c ++ rest) (lossy (String.utf8EncodeChar c ++ rest)) := by
  rw [lossy, pieces_char_append, List.map_cons]
  exact .cons (.char c) h

theorem decodes_bad_append {bad : List UInt8} (hbad : IsMaximalSubpart bad rest)
    (hpieces : pieces (bad ++ rest) = .bad bad :: pieces rest) :
    Decodes (bad ++ rest) (lossy (bad ++ rest)) := by
  rw [lossy, hpieces, List.map_cons]
  exact .cons (.replaced hbad) h

end Lossy

section OneByte

variable {bytes : List UInt8} (b : UInt8)
  (hopen : ∀ u : Unfinished, u.Reached → Decodes (u.seen ++ bytes) (lossy (u.seen ++ bytes)))
  (hclosed : Decodes bytes (lossy bytes))
include hopen hclosed

/-- One byte more in front, with nothing open. -/
theorem decodes_cons : Decodes (b :: bytes) (lossy (b :: bytes)) := by
  have hopens := opens_opening b
  cases ho : opening b with
  | whole c =>
    rw [ho] at hopens
    cases hopens with
    | one hb =>
      have hchar := decodes_char_append hclosed (Char.ofNat b.toNat)
      rwa [encode_one hb] at hchar
  | illFormed =>
    have hbad : IsMaximalSubpart [b] bytes :=
      .of_pieces (.inl rfl) fun z _ => pieces_cons_of_illFormed ho z
    exact decodes_bad_append hclosed hbad (pieces_cons_of_illFormed ho bytes)
  | more u =>
    have hrest := hopen u (Unfinished.reached_of_opening ho)
    rwa [Unfinished.seen_of_opening ho] at hrest

/-- One byte more in front, behind an open character. -/
theorem decodes_seen_append_cons {u : Unfinished} (hu : u.Reached) :
    Decodes (u.seen ++ b :: bytes) (lossy (u.seen ++ b :: bytes)) := by
  by_cases hb : u.low ≤ b.toNat ∧ b.toNat ≤ u.high
  · by_cases hlast : u.missing ≤ 1
    · have hchar := decodes_char_append hclosed (Char.ofNat (u.value * 64 + (b.toNat - 0x80)))
      rwa [hu.sound.last hb hlast, List.append_assoc, List.singleton_append] at hchar
    · have hmore := hopen _ (hu.more hb hlast)
      rwa [List.append_assoc, List.singleton_append] at hmore
  · have hrefused : ∀ a ∈ (b :: bytes).head?, ¬ (u.low ≤ a.toNat ∧ a.toNat ≤ u.high) := by
      rintro _ ⟨rfl⟩
      exact hb
    have hcons := decodes_cons b hopen hclosed
    exact decodes_bad_append hcons (hu.isMaximalSubpart hrefused) (hu.pieces_append hrefused)

end OneByte

/-- What the reader shows is what bytes decode to, also if a character is open in front of them. -/
theorem decodes_read (bytes : List UInt8) :
    (∀ u : Unfinished, u.Reached → Decodes (u.seen ++ bytes) (lossy (u.seen ++ bytes))) ∧
      Decodes bytes (lossy bytes) := by
  -- both at once: a byte may open a character, and one that is open may refuse it
  induction bytes with
  | nil =>
    refine ⟨fun u hu => ?_, .nil⟩
    have hnone : ∀ b ∈ ([] : List UInt8).head?, ¬ (u.low ≤ b.toNat ∧ b.toNat ≤ u.high) := by
      rintro b ⟨⟩
    exact decodes_bad_append .nil (hu.isMaximalSubpart hnone) (hu.pieces_append hnone)
  | cons b bytes ih =>
    obtain ⟨hopen, hclosed⟩ := ih
    exact ⟨fun u hu => decodes_seen_append_cons b hopen hclosed hu, decodes_cons b hopen hclosed⟩

/-- **Captured output is shown as what its bytes decode to.** -/
theorem isDecoder_lossy : IsDecoder lossy := by
  intro bytes cs
  constructor
  · rintro rfl
    exact (decodes_read bytes).2
  · intro h
    exact (decodes_read bytes).2.unique h

/-- The first byte of a surrogate begins a character, but not together with the next one. -/
example : Decodes [0xED, 0xA0, 0x80, 0x0A] ['\uFFFD', '\uFFFD', '\uFFFD', '\n'] :=
  (isDecoder_lossy _ _).mp (by decide)

end Utf8

end FileSweep
