import FileSweep.Text.Blank
import FileSweep.Text.LowerCase

/-!
# Lower-casing, symbol by symbol

The lower-case form of a text is no sum of the forms of its symbols: a sigma looks at its
neighbours, and U+0130 becomes longer.  What has to be known of it can be said of one symbol
between any neighbours all the same.

* Whatever lower-casing gives is left alone by it (`Symbol.isLower_of_mem_lower`), since no image
  of a letter is a letter with a lower-case form.  So a text is lowered once and for all
  (`Text.lower_lower`).
* The dot, the slash and the blanks, by which extensions and names are marked off, stay what they
  are, and nothing else becomes one of them (`Symbol.eq_of_isMark_of_mem_lower`).
* A sigma cannot tell the case of an ASCII letter beside it, and passes over a dot in front
  (`Text.lower_map_foldAscii`, `Text.lower_dot_cons`).

The first two rest on the table of letters, which is checked run by run and not letter by letter:
the letters of a run and their images lie in spans, and spans are compared by their ends.
-/

namespace FileSweep

/-! ## The table of letters -/

namespace CaseRun

/-- Whether all letters of the run, and so all images, lie at even distances. -/
def sparse (r : CaseRun) : Bool := r.step == 2 || r.first == r.last

/-- Whether no image of the run is a letter of the ascending runs.  Images and letters lie
apart, or they alternate. -/
def clears (r : CaseRun) : List CaseRun → Bool
  | [] => true
  | r' :: more =>
    r.image + (r.last - r.first) < r'.first ||
      (r'.last < r.image || r.sparse && r'.sparse && (r.image + r'.first) % 2 == 1) &&
        clears r more

/-- Whether no image of the run lies in the span. -/
def imagesAvoid (r : CaseRun) (span : Nat × Nat) : Bool :=
  r.image + (r.last - r.first) < span.1 || span.2 < r.image

/-- Whether no letter of the run lies in the span. -/
def lettersAvoid (r : CaseRun) (span : Nat × Nat) : Bool :=
  r.last < span.1 || span.2 < r.first

variable {r : CaseRun} {runs : List CaseRun} {n : Nat} {span : Nat × Nat}

theorem holds_iff : r.holds n = true ↔ (r.first ≤ n ∧ n ≤ r.last) ∧ (n - r.first) % r.step = 0 := by
  simp [holds]

/-- A code point stays as it is, or it is a letter of one of the runs. -/
theorem lowerWith_cases (runs : List CaseRun) (n : Nat) :
    lowerWith runs n = n ∨ ∃ r ∈ runs, r.holds n = true ∧ lowerWith runs n = r.apply n := by
  induction runs with
  | nil => exact .inl rfl
  | cons r more ih =>
    unfold lowerWith
    split
    · exact .inl rfl
    · split
      · rename_i hholds
        exact .inr ⟨r, List.mem_cons_self, hholds, rfl⟩
      · exact ih.imp_right fun ⟨r', hr', h⟩ => ⟨r', List.mem_cons_of_mem r hr', h⟩

/-- Where letters and images of two runs alternate, no image is a letter. -/
theorem not_holds_apply_of_sparse {r' : CaseRun} (hn : r.holds n = true) (hr : r.sparse = true)
    (hr' : r'.sparse = true) (hodd : (r.image + r'.first) % 2 = 1) :
    r'.holds (r.apply n) = false := by
  obtain ⟨⟨hfirst, hlast⟩, hstep⟩ := holds_iff.mp hn
  have heven : (n - r.first) % 2 = 0 := by
    rcases (by simpa [sparse] using hr : r.step = 2 ∨ r.first = r.last) with h | h
    · rwa [h] at hstep
    · omega
  rw [Bool.eq_false_iff, Ne, holds_iff, apply]
  rintro ⟨⟨hfirst', hlast'⟩, hstep'⟩
  rcases (by simpa [sparse] using hr' : r'.step = 2 ∨ r'.first = r'.last) with h | h
  · rw [h] at hstep'
    omega
  · omega

/-- An image that is no letter of the runs is left alone by them. -/
theorem lowerWith_apply_of_clears (hn : r.holds n = true) (h : r.clears runs = true) :
    lowerWith runs (r.apply n) = r.apply n := by
  obtain ⟨⟨hfirst, hlast⟩, -⟩ := holds_iff.mp hn
  have himage : r.image ≤ r.apply n ∧ r.apply n ≤ r.image + (r.last - r.first) := by
    unfold apply
    omega
  induction runs with
  | nil => rfl
  | cons r' more ih =>
    unfold lowerWith
    split
    · rfl
    · rename_i hbehind
      simp only [clears, Bool.or_eq_true, Bool.and_eq_true, decide_eq_true_eq] at h
      have hrest := h.resolve_left (by omega)
      have hnot : r'.holds (r.apply n) = false := by
        rcases hrest.1 with hapart | ⟨⟨hr, hr'⟩, hodd⟩
        · rw [Bool.eq_false_iff, Ne, holds_iff]
          omega
        · exact not_holds_apply_of_sparse hn hr hr' (by simpa using hodd)
      rw [if_neg (by simp [hnot])]
      exact ih hrest.2

theorem not_mem_of_imagesAvoid (hn : r.holds n = true) (h : r.imagesAvoid span = true) :
    ¬ (span.1 ≤ r.apply n ∧ r.apply n ≤ span.2) := by
  obtain ⟨⟨hfirst, hlast⟩, -⟩ := holds_iff.mp hn
  simp only [imagesAvoid, Bool.or_eq_true, decide_eq_true_eq] at h
  unfold apply
  omega

theorem not_mem_of_lettersAvoid (hn : r.holds n = true) (h : r.lettersAvoid span = true) :
    ¬ (span.1 ≤ n ∧ n ≤ span.2) := by
  obtain ⟨⟨hfirst, hlast⟩, -⟩ := holds_iff.mp hn
  simp only [lettersAvoid, Bool.or_eq_true, decide_eq_true_eq] at h
  omega

/-! ### What the table does not touch -/

/-- No image of the table is a letter of it. -/
theorem clears_table : ∀ r ∈ table, r.clears table = true := by decide +kernel

/-- The code points that are no images: the two letters outside of the table, the surrogates, and
what is beyond all characters. -/
theorem imagesAvoid_table :
    ∀ r ∈ table, ∀ span ∈ [(0x130, 0x130), (0x3A3, 0x3A3), (0xD800, 0xDFFF)],
      r.imagesAvoid span = true := by
  decide +kernel

theorem image_lt_of_mem_table : ∀ r ∈ table, r.image + (r.last - r.first) < 0x110000 := by
  decide +kernel

/-- The spans of the dot, the slash, and the blanks. -/
def markSpans : List (Nat × Nat) := (0x2E, 0x2F) :: blankSpans

/-- None of them is a letter or an image. -/
theorem avoid_marks :
    ∀ r ∈ table, ∀ span ∈ markSpans, r.imagesAvoid span = true ∧ r.lettersAvoid span = true := by
  decide +kernel

/-- Code points are lowered once and for all. -/
theorem lowerWith_table_lowerWith (n : Nat) :
    lowerWith table (lowerWith table n) = lowerWith table n := by
  rcases lowerWith_cases table n with h | ⟨r, hr, hn, h⟩
  · rw [h, h]
  · rw [h, lowerWith_apply_of_clears hn (clears_table r hr)]

/-- What is no image comes from itself at most. -/
theorem eq_of_lowerWith_mem {m : Nat} {span : Nat × Nat}
    (hspan : ∀ r ∈ table, r.imagesAvoid span = true) (hm : span.1 ≤ m ∧ m ≤ span.2) {n : Nat}
    (h : lowerWith table n = m) : n = m := by
  rcases lowerWith_cases table n with hn | ⟨r, hr, hn, happly⟩
  · exact hn.symm.trans h
  · rw [← h, happly] at hm
    exact absurd hm (not_mem_of_imagesAvoid hn (hspan r hr))

/-- The form of a character is a character. -/
theorem isValidChar_lowerWith {n : Nat} (h : n.isValidChar) :
    (lowerWith table n).isValidChar := by
  rcases lowerWith_cases table n with hn | ⟨r, hr, hn, happly⟩
  · rwa [hn]
  · have hsurrogate := not_mem_of_imagesAvoid hn (imagesAvoid_table r hr (0xD800, 0xDFFF) (by simp))
    have hlast := image_lt_of_mem_table r hr
    obtain ⟨⟨hfirst, hletter⟩, -⟩ := holds_iff.mp hn
    rw [happly]
    unfold apply at hsurrogate ⊢
    dsimp only at hsurrogate
    unfold Nat.isValidChar
    omega

end CaseRun

/-! ## Characters -/

theorem toNat_lowerChar (c : Char) :
    (lowerChar c).toNat = CaseRun.lowerWith CaseRun.table c.toNat :=
  toNat_charOfNat (CaseRun.isValidChar_lowerWith c.valid)

/-- A character within ascending spans lies in one of them. -/
theorem Span.exists_of_cover {spans : List (Nat × Nat)} {n : Nat}
    (h : Span.cover spans n = true) : ∃ span ∈ spans, span.1 ≤ n ∧ n ≤ span.2 := by
  induction spans with
  | nil => cases h
  | cons span more ih =>
    simp only [cover, Bool.and_eq_true, Bool.or_eq_true, decide_eq_true_eq] at h
    obtain ⟨hfirst, hlast | hmore⟩ := h
    · exact ⟨span, List.mem_cons_self, hfirst, hlast⟩
    · obtain ⟨s, hs, hn⟩ := ih hmore
      exact ⟨s, List.mem_cons_of_mem span hs, hn⟩

namespace Symbol

/-! ## Lower-case symbols -/

/-- Whether lower-casing leaves the symbol alone, whatever its neighbours are. -/
def IsLower (a : Symbol) : Prop := ∀ before after, a.lower before after = [a]

/-- All characters but two are lowered by themselves. -/
theorem lower_char {c : Char} (before : Bool) (after : Text) (hsigma : c.toNat ≠ 0x3A3)
    (hlong : c.toNat ≠ 0x130) : (Symbol.char c).lower before after = [.char (lowerChar c)] := by
  simp only [lower, hsigma, hlong, if_false]

theorem isLower_char {c : Char} (hsigma : c.toNat ≠ 0x3A3) (hlong : c.toNat ≠ 0x130)
    (h : lowerChar c = c) : (Symbol.char c).IsLower := by
  intro before after
  rw [lower_char before after hsigma hlong, h]

/-- All that the form of a character can hold: one of the two small sigmas, an `i` and the mark
that U+0130 leaves, or the one character that the table gives. -/
theorem char_mem_lower {before : Bool} {after : Text} {c : Char} {a : Symbol}
    (h : a ∈ (Symbol.char c).lower before after) :
    a ∈ [0x3C2, 0x3C3, 0x69, 0x307].map (fun n => Symbol.char (Char.ofNat n)) ∨
      c.toNat ≠ 0x3A3 ∧ c.toNat ≠ 0x130 ∧ a = .char (lowerChar c) := by
  simp only [lower] at h
  split at h
  · refine .inl ?_
    rw [List.mem_singleton.mp h]
    split <;> decide
  · rename_i hsigma
    split at h
    · refine .inl ?_
      rcases List.mem_cons.mp h with rfl | h
      · decide
      · rw [List.mem_singleton.mp h]
        decide
    · rename_i hlong
      exact .inr ⟨hsigma, hlong, List.mem_singleton.mp h⟩

/-- **What lower-casing gives is lower-case.** -/
theorem isLower_of_mem_lower {before : Bool} {after : Text} {a b : Symbol}
    (h : a ∈ b.lower before after) : a.IsLower := by
  cases b with
  | stray low =>
    rw [List.mem_singleton.mp h]
    exact fun _ _ => rfl
  | char c =>
    rcases char_mem_lower h with h | ⟨hsigma, hlong, rfl⟩
    · obtain ⟨n, hn, rfl⟩ := List.mem_map.mp h
      have hspecial : ∀ n ∈ [0x3C2, 0x3C3, 0x69, 0x307],
          (Char.ofNat n).toNat ≠ 0x3A3 ∧ (Char.ofNat n).toNat ≠ 0x130 ∧
            lowerChar (Char.ofNat n) = Char.ofNat n := by decide
      obtain ⟨hsigma, hlong, hsame⟩ := hspecial n hn
      exact isLower_char hsigma hlong hsame
    · have havoid := fun span hspan r hr => CaseRun.imagesAvoid_table r hr span hspan
      have hsigma' := fun h => hsigma
        (CaseRun.eq_of_lowerWith_mem (havoid (0x3A3, 0x3A3) (by simp)) (by simp) h)
      have hlong' := fun h => hlong
        (CaseRun.eq_of_lowerWith_mem (havoid (0x130, 0x130) (by simp)) (by simp) h)
      rw [← toNat_lowerChar] at hsigma' hlong'
      refine isLower_char hsigma' hlong' ?_
      rw [← Char.toNat_inj, toNat_lowerChar, toNat_lowerChar, CaseRun.lowerWith_table_lowerWith]

/-! ## Marks -/

/-- Whether a symbol marks off parts of a name or of a text around it: a dot, a slash, or a
blank. -/
def IsMark (a : Symbol) : Prop := a = .char '.' ∨ a = .char '/' ∨ a.isBlank = true

instance (a : Symbol) : Decidable a.IsMark := inferInstanceAs (Decidable (_ ∨ _ ∨ _))

theorem isMark_dot : (Symbol.char '.').IsMark := .inl rfl

theorem isMark_slash : (Symbol.char '/').IsMark := .inr (.inl rfl)

theorem isMark_of_isBlank {a : Symbol} (h : a.isBlank = true) : a.IsMark := .inr (.inr h)

theorem not_isMark_stray (low : Fin 128) : ¬ (Symbol.stray low).IsMark := by
  simp [IsMark, isBlank]

theorem IsMark.exists_span {c : Char} (h : (Symbol.char c).IsMark) :
    ∃ span ∈ CaseRun.markSpans, span.1 ≤ c.toNat ∧ c.toNat ≤ span.2 := by
  rcases h with h | h | h
  · obtain rfl : c = '.' := by simpa using h
    exact ⟨_, List.mem_cons_self, by decide⟩
  · obtain rfl : c = '/' := by simpa using h
    exact ⟨_, List.mem_cons_self, by decide⟩
  · obtain ⟨span, hspan, hc⟩ := Span.exists_of_cover h
    exact ⟨span, List.mem_cons_of_mem _ hspan, hc⟩

/-- A mark is lower-case. -/
theorem IsMark.isLower {a : Symbol} (h : a.IsMark) : a.IsLower := by
  cases a with
  | stray low => exact absurd h (not_isMark_stray low)
  | char c =>
    obtain ⟨span, hspan, hc⟩ := h.exists_span
    have hapart : ∀ s ∈ CaseRun.markSpans, ¬ (s.1 ≤ 0x3A3 ∧ 0x3A3 ≤ s.2) ∧
        ¬ (s.1 ≤ 0x130 ∧ 0x130 ≤ s.2) := by decide
    refine isLower_char ?_ ?_ ?_
    · rintro h
      exact (hapart span hspan).1 (h ▸ hc)
    · rintro h
      exact (hapart span hspan).2 (h ▸ hc)
    · rw [← Char.toNat_inj, toNat_lowerChar]
      refine (CaseRun.lowerWith_cases CaseRun.table c.toNat).resolve_right ?_
      rintro ⟨r, hr, hn, -⟩
      exact CaseRun.not_mem_of_lettersAvoid hn (CaseRun.avoid_marks r hr span hspan).2 hc

/-- **Nothing else is lowered to a mark.** -/
theorem eq_of_isMark_of_mem_lower {before : Bool} {after : Text} {a b : Symbol} (ha : a.IsMark)
    (h : a ∈ b.lower before after) : b = a := by
  cases b with
  | stray low => exact (List.mem_singleton.mp h).symm
  | char c =>
    rcases char_mem_lower h with h | ⟨-, -, rfl⟩
    · obtain ⟨n, hn, rfl⟩ := List.mem_map.mp h
      have hspecial : ∀ n ∈ [0x3C2, 0x3C3, 0x69, 0x307],
          ¬ (Symbol.char (Char.ofNat n)).IsMark := by decide
      exact absurd ha (hspecial n hn)
    · obtain ⟨span, hspan, hc⟩ := ha.exists_span
      have havoid := fun r hr => (CaseRun.avoid_marks r hr span hspan).1
      have hsame := CaseRun.eq_of_lowerWith_mem havoid hc (toNat_lowerChar c).symm
      rw [Char.toNat_inj.mp hsame.symm]

/-- A form depends on what follows only by the case of its beginning. -/
theorem lower_congr (before : Bool) (a : Symbol) {after after' : Text}
    (h : after.startsCased = after'.startsCased) :
    a.lower before after = a.lower before after' := by
  cases a with
  | stray low => rfl
  | char c => simp only [lower, h]

/-- Whether a form begins with a mark. -/
theorem head?_lower_iff {before : Bool} {after : Text} {a b : Symbol} (ha : a.IsMark) :
    (b.lower before after).head? = some a ↔ b = a := by
  constructor
  · exact fun h => eq_of_isMark_of_mem_lower ha (List.mem_of_head? h)
  · rintro rfl
    rw [ha.isLower before after]
    rfl

/-- Whether a form ends with a mark. -/
theorem getLast?_lower_iff {before : Bool} {after : Text} {a b : Symbol} (ha : a.IsMark) :
    (b.lower before after).getLast? = some a ↔ b = a := by
  constructor
  · exact fun h => eq_of_isMark_of_mem_lower ha (List.mem_of_getLast? h)
  · rintro rfl
    rw [ha.isLower before after]
    rfl

theorem lower_ne_nil (before : Bool) (after : Text) (a : Symbol) : a.lower before after ≠ [] := by
  cases a with
  | stray low => simp [lower]
  | char c =>
    simp only [lower]
    split
    · simp
    · split <;> simp

end Symbol

namespace Text

/-! ## Texts -/

theorem exists_mem_lower {before : Bool} {t : Text} {a : Symbol} (h : a ∈ lowerFrom before t) :
    ∃ b ∈ t, ∃ before' after, a ∈ b.lower before' after := by
  induction t generalizing before with
  | nil => cases h
  | cons b t ih =>
    rcases List.mem_append.mp h with h | h
    · exact ⟨b, List.mem_cons_self, before, t, h⟩
    · obtain ⟨c, hc, hlower⟩ := ih h
      exact ⟨c, List.mem_cons_of_mem b hc, hlower⟩

theorem lowerFrom_eq_self {before : Bool} {t : Text} (h : ∀ a ∈ t, a.IsLower) :
    lowerFrom before t = t := by
  induction t generalizing before with
  | nil => rfl
  | cons a t ih =>
    obtain ⟨ha, ht⟩ := List.forall_mem_cons.mp h
    rw [lowerFrom, ha before t, ih ht]
    rfl

/-- All symbols of a lowered text are lower-case. -/
theorem isLower_of_mem_lower {t : Text} {a : Symbol} (h : a ∈ t.lower) : a.IsLower := by
  obtain ⟨b, -, before, after, hlower⟩ := exists_mem_lower h
  exact Symbol.isLower_of_mem_lower hlower

/-- **A text is lowered once and for all.** -/
theorem lower_lower (t : Text) : t.lower.lower = t.lower :=
  lowerFrom_eq_self fun _ => isLower_of_mem_lower

theorem mem_lowerFrom_of_isLower {before : Bool} {t : Text} {a : Symbol} (ha : a.IsLower)
    (h : a ∈ t) : a ∈ lowerFrom before t := by
  induction t generalizing before with
  | nil => cases h
  | cons b t ih =>
    rw [lowerFrom]
    rcases List.mem_cons.mp h with rfl | h
    · rw [ha before t]
      exact List.mem_cons_self
    · exact List.mem_append_right _ (ih h)

/-- Lower-casing neither brings nor takes marks. -/
theorem mem_lower_iff_of_isMark {t : Text} {a : Symbol} (ha : a.IsMark) : a ∈ t.lower ↔ a ∈ t := by
  constructor
  · intro h
    obtain ⟨b, hb, before, after, hlower⟩ := exists_mem_lower h
    exact Symbol.eq_of_isMark_of_mem_lower ha hlower ▸ hb
  · exact mem_lowerFrom_of_isLower ha.isLower

/-! ## The ends of a text -/

@[simp] theorem lower_nil : lower [] = [] := rfl

theorem lowerFrom_eq_nil_iff {before : Bool} {t : Text} : lowerFrom before t = [] ↔ t = [] := by
  cases t with
  | nil => simp [lowerFrom]
  | cons a t => simp [lowerFrom, a.lower_ne_nil before t]

theorem lower_eq_nil_iff {t : Text} : t.lower = [] ↔ t = [] := lowerFrom_eq_nil_iff

/-- The form of a text ends with the form of its last symbol. -/
theorem exists_lowerFrom_concat (before : Bool) (t : Text) (a : Symbol) :
    ∃ before' front, lowerFrom before (t ++ [a]) = front ++ a.lower before' [] := by
  induction t generalizing before with
  | nil => exact ⟨before, [], by simp [lowerFrom]⟩
  | cons b t ih =>
    obtain ⟨before', front, h⟩ := ih (if b.isIgnored then before else b.isCased)
    exact ⟨before', b.lower before (t ++ [a]) ++ front, by simp [lowerFrom, h]⟩

/-- A text begins with a mark if and only if its form does. -/
theorem head?_lower_iff {t : Text} {a : Symbol} (ha : a.IsMark) :
    t.lower.head? = some a ↔ t.head? = some a := by
  cases t with
  | nil => simp
  | cons b t =>
    have hsome := List.head?_eq_some_head (b.lower_ne_nil false t)
    rw [lower, lowerFrom, List.head?_append, hsome, Option.some_or, ← hsome,
      Symbol.head?_lower_iff ha, List.head?_cons, Option.some.injEq]

/-- A text ends with a mark if and only if its form does. -/
theorem getLast?_lower_iff {t : Text} {a : Symbol} (ha : a.IsMark) :
    t.lower.getLast? = some a ↔ t.getLast? = some a := by
  rcases List.eq_nil_or_concat t with rfl | ⟨s, b, rfl⟩
  · simp
  · obtain ⟨before, front, h⟩ := exists_lowerFrom_concat false s b
    have hsome := List.getLast?_eq_some_getLast (b.lower_ne_nil before [])
    rw [List.concat_eq_append, lower, h, List.getLast?_append, hsome, Option.some_or, ← hsome,
      Symbol.getLast?_lower_iff ha, List.getLast?_concat, Option.some.injEq]

/-! ## What a sigma does not see -/

/-- A dot in front is passed over. -/
theorem lower_dot_cons (t : Text) : lower (.char '.' :: t) = .char '.' :: t.lower := by
  have hignored : (Symbol.char '.').isIgnored = true := by decide
  rw [lower, lowerFrom, Symbol.isMark_dot.isLower, hignored]
  rfl

end Text

/-- The symbol with an ASCII letter in lower case. -/
def Symbol.foldAscii : Symbol → Symbol
  | .char c => .char c.toLower
  | .stray low => .stray low

namespace Symbol

/-- Only the capital letters of ASCII are folded. -/
theorem foldAscii_cases (a : Symbol) :
    a.foldAscii = a ∨ ∃ n < 26, a = .char (Char.ofNat (0x41 + n)) ∧
      a.foldAscii = .char (Char.ofNat (0x61 + n)) := by
  cases a with
  | stray low => exact .inl rfl
  | char c =>
    by_cases h : c.val ≥ 'A'.val ∧ c.val ≤ 'Z'.val
    · have hlow : 0x41 ≤ c.toNat := UInt32.le_iff_toNat_le.mp h.1
      have hhigh : c.toNat ≤ 0x5A := UInt32.le_iff_toNat_le.mp h.2
      have hfold : ∀ n < 26, (Char.ofNat (0x41 + n)).toLower = Char.ofNat (0x61 + n) := by decide
      have hc : c = Char.ofNat (0x41 + (c.toNat - 0x41)) := by
        rw [Nat.add_sub_cancel' hlow, Char.ofNat_toNat]
      refine .inr ⟨c.toNat - 0x41, by omega, congrArg char hc, ?_⟩
      rw [foldAscii, ← hfold _ (by omega), ← hc]
    · have hsame : c.toLower = c := dif_neg h
      exact .inl (congrArg char hsame)

/-- The letters of ASCII are cased, in either case. -/
theorem ascii_letters : ∀ n < 26,
    (char (Char.ofNat (0x41 + n))).isIgnored = false ∧
      (char (Char.ofNat (0x61 + n))).isIgnored = false ∧
      (char (Char.ofNat (0x41 + n))).isCased = true ∧
      (char (Char.ofNat (0x61 + n))).isCased = true := by
  decide

/-- A capital letter of ASCII is lowered to the small one. -/
theorem ascii_lowerChar : ∀ n < 26,
    (Char.ofNat (0x41 + n)).toNat ≠ 0x3A3 ∧ (Char.ofNat (0x41 + n)).toNat ≠ 0x130 ∧
      lowerChar (Char.ofNat (0x41 + n)) = Char.ofNat (0x61 + n) := by
  decide

/-- What counts for neighbours is the same in either case. -/
theorem isIgnored_foldAscii (a : Symbol) : a.foldAscii.isIgnored = a.isIgnored := by
  rcases a.foldAscii_cases with h | ⟨n, hn, ha, hfold⟩
  · rw [h]
  · obtain ⟨hupper, hlower, -⟩ := ascii_letters n hn
    rw [hfold, ha, hupper, hlower]

theorem isCased_foldAscii (a : Symbol) : a.foldAscii.isCased = a.isCased := by
  rcases a.foldAscii_cases with h | ⟨n, hn, ha, hfold⟩
  · rw [h]
  · obtain ⟨-, -, hupper, hlower⟩ := ascii_letters n hn
    rw [hfold, ha, hupper, hlower]

theorem lower_foldAscii (before : Bool) (after : Text) (a : Symbol) :
    a.foldAscii.lower before after = a.lower before after := by
  rcases a.foldAscii_cases with h | ⟨n, hn, ha, hfold⟩
  · rw [h]
  · -- the folded letter is the form of the capital one, so it is lower-case
    obtain ⟨hsigma, hlong, hlower⟩ := ascii_lowerChar n hn
    have hform : a.lower before after = [a.foldAscii] := by
      rw [ha, lower_char before after hsigma hlong, hlower, ← ha, hfold]
    have hfolded : a.foldAscii.IsLower :=
      isLower_of_mem_lower (hform ▸ List.mem_singleton_self a.foldAscii)
    rw [hfolded before after, hform]

end Symbol

namespace Text

theorem startsCased_map_foldAscii (t : Text) :
    startsCased (t.map Symbol.foldAscii) = t.startsCased := by
  induction t with
  | nil => rfl
  | cons a t ih =>
    rw [List.map_cons, startsCased, startsCased, a.isIgnored_foldAscii, a.isCased_foldAscii, ih]

theorem lowerFrom_map_foldAscii (before : Bool) (t : Text) :
    lowerFrom before (t.map Symbol.foldAscii) = lowerFrom before t := by
  induction t generalizing before with
  | nil => rfl
  | cons a t ih =>
    have hafter := Symbol.lower_congr before a (startsCased_map_foldAscii t)
    rw [List.map_cons, lowerFrom, lowerFrom, ih, a.isIgnored_foldAscii, a.isCased_foldAscii,
      Symbol.lower_foldAscii, hafter]

/-- **The case of ASCII letters does not matter**, to these letters and to all others. -/
theorem lower_map_foldAscii (t : Text) : lower (t.map Symbol.foldAscii) = t.lower :=
  lowerFrom_map_foldAscii false t

end Text

end FileSweep
