import FileSweep.Proofs.Selection

/-!
# Names with a letter in the other case

A file is selected by the lower-case form of its extension, so it should not matter in which case
the letters of its name are written.  It does not, for all letters but one.

A letter and its lower-case form count the same as neighbours of a sigma: both are cased
(`Symbol.alike_of_lower`), as the tables of letters and of neighbours show.  So a letter that is
lowered by itself changes nothing around it, and the form of the whole text is the same if that of
the letter in its place is (`Text.lower_eq_iff`).  The letter for which it is not is a capital
sigma at the end of a word, which lowers to the final form there and to the other one by itself.
The extension of a file that ends with such a sigma is different from that with the small one
(`Path.FinalSigma`).
-/

namespace FileSweep

/-! ## Spans by their ends -/

namespace Span

/-- Whether one of the ascending spans holds all from `first` to `last`. -/
def covers : List (Nat × Nat) → Nat → Nat → Bool
  | [], _, _ => false
  | span :: more, first, last => span.1 ≤ first && (last ≤ span.2 || covers more first last)

/-- Whether the ascending spans of two lists lie apart.  Both lists are gone through once. -/
def apart : List (Nat × Nat) → List (Nat × Nat) → Bool
  | [], _ => true
  | span :: more, spans =>
    let above := spans.dropWhile fun s => s.2 < span.1
    (above.head?.all fun s => span.2 < s.1) && apart more above

variable {n : Nat}

theorem cover_of_covers {spans : List (Nat × Nat)} {first last : Nat}
    (h : covers spans first last = true) (hfirst : first ≤ n) (hlast : n ≤ last) :
    cover spans n = true := by
  induction spans with
  | nil => cases h
  | cons span more ih =>
    simp only [covers, cover, Bool.and_eq_true, Bool.or_eq_true, decide_eq_true_eq] at h ⊢
    refine ⟨by omega, ?_⟩
    rcases h.2 with hspan | hmore
    · exact .inl (by omega)
    · exact .inr (ih hmore)

/-- Spans that end below do not matter. -/
theorem cover_dropWhile {spans : List (Nat × Nat)} {bound : Nat} (hn : bound ≤ n)
    (h : cover (spans.dropWhile fun s => s.2 < bound) n = false) : cover spans n = false := by
  induction spans with
  | nil => rfl
  | cons span more ih =>
    by_cases hspan : span.2 < bound
    · rw [List.dropWhile_cons_of_pos (by simpa using hspan)] at h
      have hlast : ¬ n ≤ span.2 := by omega
      simp [cover, hlast, ih h]
    · rwa [List.dropWhile_cons_of_neg (by simpa using hspan)] at h

/-- Nothing lies in both of two lists of spans that lie apart. -/
theorem cover_eq_false_of_apart {spans spans' : List (Nat × Nat)}
    (h : apart spans spans' = true) (hn : cover spans n = true) : cover spans' n = false := by
  induction spans generalizing spans' with
  | nil => cases hn
  | cons span more ih =>
    simp only [apart, cover, Bool.and_eq_true, Bool.or_eq_true, decide_eq_true_eq] at h hn
    refine cover_dropWhile hn.1 ?_
    rcases hn.2 with hlast | hmore
    · cases habove : spans'.dropWhile fun s => s.2 < span.1 with
      | nil => rfl
      | cons s above =>
        have hs : span.2 < s.1 := by simpa [habove] using h.1
        have hfirst : ¬ s.1 ≤ n := by omega
        simp [cover, hfirst]
    · exact ih h.2 hmore

end Span

/-! ## Letters as neighbours -/

namespace CaseRun

/-- Whether all letters of the run and all their images are cased: by their ends, or else one by
one. -/
def isCased (r : CaseRun) : Bool :=
  Span.covers Neighbour.cased r.image (r.image + (r.last - r.first)) &&
    (Span.covers Neighbour.cased r.first r.last ||
      (List.range (r.last - r.first + 1)).all fun k =>
        k % r.step != 0 || Span.cover Neighbour.cased (r.first + k))

theorem isCased_table : ∀ r ∈ table, r.isCased = true := by decide +kernel

theorem cover_of_isCased {r : CaseRun} {n : Nat} (h : r.isCased = true) (hn : r.holds n = true) :
    Span.cover Neighbour.cased n = true ∧ Span.cover Neighbour.cased (r.apply n) = true := by
  obtain ⟨⟨hfirst, hlast⟩, hstep⟩ := holds_iff.mp hn
  simp only [isCased, Bool.and_eq_true, Bool.or_eq_true] at h
  constructor
  · rcases h.2 with hends | hall
    · exact Span.cover_of_covers hends hfirst hlast
    · have hletter := List.all_eq_true.mp hall (n - r.first) (List.mem_range.mpr (by omega))
      rw [Nat.add_sub_cancel' hfirst] at hletter
      simpa [hstep] using hletter
  · refine Span.cover_of_covers h.1 ?_ ?_
    · exact Nat.le_add_right _ _
    · unfold apply
      omega

end CaseRun

/-- No character is both cased and passed over. -/
theorem Neighbour.apart_cased_ignored :
    Span.apart Neighbour.cased Neighbour.ignored = true := by
  decide +kernel

namespace Symbol

/-- Whether a sigma takes two symbols for the same as neighbours. -/
def Alike (a b : Symbol) : Prop := a.isIgnored = b.isIgnored ∧ a.isCased = b.isCased

theorem Alike.refl (a : Symbol) : a.Alike a := ⟨rfl, rfl⟩

theorem alike_of_cover {c d : Char} (hc : Span.cover Neighbour.cased c.toNat = true)
    (hd : Span.cover Neighbour.cased d.toNat = true) : (char c).Alike (char d) := by
  have hignored := fun n hn =>
    Span.cover_eq_false_of_apart (n := n) Neighbour.apart_cased_ignored hn
  exact ⟨(hignored _ hc).trans (hignored _ hd).symm, hc.trans hd.symm⟩

/-- A letter is taken for the same as its lower-case form. -/
theorem alike_lowerChar (c : Char) : (char c).Alike (char (lowerChar c)) := by
  rcases CaseRun.lowerWith_cases CaseRun.table c.toNat with h | ⟨r, hr, hn, h⟩
  · have hsame : lowerChar c = c := by rw [← Char.toNat_inj, toNat_lowerChar, h]
    rw [hsame]
    exact .refl _
  · obtain ⟨hletter, himage⟩ := CaseRun.cover_of_isCased (CaseRun.isCased_table r hr) hn
    rw [← h, ← toNat_lowerChar] at himage
    exact alike_of_cover hletter himage

theorem lower_alone {a b : Symbol} (h : Text.lower [a] = [b]) : a.lower false [] = [b] := by
  simpa [Text.lower, Text.lowerFrom] using h

/-- What a symbol is lowered to by itself, if that is one symbol: the small sigma, or what it is
lowered to everywhere. -/
theorem lower_alone_cases {a b : Symbol} (h : Text.lower [a] = [b]) :
    a = .char 'Σ' ∧ b = .char 'σ' ∨
      a ≠ .char 'Σ' ∧ a.Alike b ∧ ∀ before after, a.lower before after = [b] := by
  have halone := lower_alone h
  cases a with
  | stray low =>
    obtain rfl : stray low = b := List.cons.inj halone |>.1
    exact .inr ⟨nofun, .refl _, fun _ _ => rfl⟩
  | char c =>
    by_cases hsigma : c.toNat = 0x3A3
    · obtain rfl : c = 'Σ' := Char.toNat_inj.mp hsigma
      exact .inl ⟨rfl, (List.cons.inj halone).1.symm⟩
    · have hlong : c.toNat ≠ 0x130 := by
        intro hlong
        simp [lower, hlong] at halone
      rw [lower_char false [] hsigma hlong] at halone
      obtain rfl : char (lowerChar c) = b := (List.cons.inj halone).1
      refine .inr ⟨?_, alike_lowerChar c, fun before after => lower_char before after hsigma hlong⟩
      rintro ⟨⟩
      exact hsigma (by decide)

/-- Only a dot is lowered to a dot. -/
theorem lower_alone_dot_iff {a b : Symbol} (h : Text.lower [a] = [b]) :
    b = .char '.' ↔ a = .char '.' := by
  have hhead : (a.lower false []).head? = some (.char '.') ↔ a = .char '.' :=
    head?_lower_iff isMark_dot
  rwa [lower_alone h, List.head?_cons, Option.some.injEq] at hhead

/-- A capital sigma becomes the final one at the end of a word. -/
theorem lower_sigma_eq_iff (before : Bool) (after : Text) :
    (char 'Σ').lower before after = [char 'σ'] ↔
      ¬ (before = true ∧ after.startsCased = false) := by
  have hsigma : (char 'Σ').lower before after =
      [char (Char.ofNat (if before && !after.startsCased then 0x3C2 else 0x3C3))] := rfl
  rw [hsigma]
  cases before <;> cases after.startsCased <;> decide

theorem alike_of_lower {a b : Symbol} (h : Text.lower [a] = [b]) : a.Alike b := by
  rcases lower_alone_cases h with ⟨rfl, rfl⟩ | ⟨-, halike, -⟩
  · exact alike_of_cover (by decide) (by decide)
  · exact halike

end Symbol

namespace Text

/-! ## A symbol in its place -/

/-- Whether the last symbol of the text that is not passed over is cased; `before` says it of what
stands in front. -/
def endsCased (before : Bool) : Text → Bool
  | [] => before
  | a :: t => endsCased (if a.isIgnored then before else a.isCased) t

theorem startsCased_congr {a b : Symbol} (h : a.Alike b) (s t : Text) :
    startsCased (s ++ a :: t) = startsCased (s ++ b :: t) := by
  induction s with
  | nil => rw [List.nil_append, List.nil_append, startsCased, startsCased, h.1, h.2]
  | cons c s ih => rw [List.cons_append, List.cons_append, startsCased, startsCased, ih]

/-- **Around a symbol**, the form of a text is the same for all symbols that are taken for the same
as neighbours. -/
theorem exists_lowerFrom_around (before : Bool) (s : Text) (a : Symbol) (t : Text) :
    ∃ front back, ∀ b, a.Alike b →
      lowerFrom before (s ++ b :: t) = front ++ (b.lower (endsCased before s) t ++ back) := by
  induction s generalizing before with
  | nil =>
    refine ⟨[], lowerFrom (if a.isIgnored then before else a.isCased) t, fun b hb => ?_⟩
    rw [List.nil_append, List.nil_append, lowerFrom, endsCased, hb.1, hb.2]
  | cons c s ih =>
    obtain ⟨front, back, h⟩ := ih (if c.isIgnored then before else c.isCased)
    refine ⟨c.lower before (s ++ a :: t) ++ front, back, fun b hb => ?_⟩
    rw [List.cons_append, lowerFrom, h b hb, endsCased,
      Symbol.lower_congr before c (startsCased_congr hb s t), List.append_assoc]

/-- Whether a symbol, with the given text in front of it and behind it, is a capital sigma at the
end of a word. -/
structure EndsWord (s : Text) (a : Symbol) (t : Text) : Prop where
  sigma : a = .char 'Σ'
  cased : endsCased false s = true
  uncased : t.startsCased = false

/-- **A symbol that is lowered by itself** changes the form of a text if and only if it is a
capital sigma at the end of a word. -/
theorem lower_eq_iff {a b : Symbol} (h : lower [a] = [b]) (s t : Text) :
    lower (s ++ a :: t) = lower (s ++ b :: t) ↔ ¬ EndsWord s a t := by
  obtain ⟨front, back, haround⟩ := exists_lowerFrom_around false s a t
  have hb : b.lower (endsCased false s) t = [b] :=
    isLower_of_mem_lower (t := [a]) (h ▸ List.mem_singleton_self b) _ _
  rw [lower, lower, haround a (.refl a), haround b (Symbol.alike_of_lower h),
    List.append_cancel_left_eq, List.append_cancel_right_eq, hb]
  rcases Symbol.lower_alone_cases h with ⟨rfl, rfl⟩ | ⟨hne, -, hform⟩
  · rw [Symbol.lower_sigma_eq_iff]
    exact not_congr ⟨fun hends => ⟨rfl, hends.1, hends.2⟩,
      fun hends => ⟨hends.cased, hends.uncased⟩⟩
  · exact ⟨fun _ hends => hne hends.sigma, fun _ => hform _ _⟩

/-! ## Texts without a capital sigma -/

/-- Such a text is lowered symbol by symbol. -/
theorem lowerFrom_eq_flatMap {t : Text} (h : .char 'Σ' ∉ t) (before : Bool) :
    lowerFrom before t = t.flatMap (Symbol.lower false []) := by
  induction t generalizing before with
  | nil => rfl
  | cons a t ih =>
    obtain ⟨ha, ht⟩ := not_or.mp (mt List.mem_cons.mpr h)
    have halone : a.lower before t = a.lower false [] := by
      cases a with
      | stray low => rfl
      | char c =>
        have hsigma : c.toNat ≠ 0x3A3 := fun hc =>
          ha (congrArg Symbol.char (Char.toNat_inj.mp hc).symm)
        simp [Symbol.lower, hsigma]
    rw [lowerFrom, List.flatMap_cons, halone, ih ht]

/-- The last dot leads the same before and after lowering. -/
theorem fromLast_lower {t : Text} (h : .char 'Σ' ∉ t) :
    fromLast '.' t.lower = (fromLast '.' t).lower := by
  by_cases hdot : .char '.' ∈ t
  · obtain ⟨front, rest, rfl, hrest⟩ := exists_last_of_mem hdot
    have hrest' : Symbol.char '.' ∉ lower rest :=
      mt (mem_lower_iff_of_isMark Symbol.isMark_dot).mp hrest
    have hsigma : .char 'Σ' ∉ rest := fun hmem => h (by simp [hmem])
    have hparts : lower (front ++ .char '.' :: rest) =
        front.flatMap (Symbol.lower false []) ++ .char '.' :: lower rest := by
      rw [lower, lowerFrom_eq_flatMap h, List.flatMap_append, List.flatMap_cons,
        Symbol.isMark_dot.isLower, lower, lowerFrom_eq_flatMap hsigma]
      rfl
    rw [hparts, fromLast_append_cons _ hrest', fromLast_append_cons _ hrest, lower_dot_cons]
  · have hdot' : .char '.' ∉ t.lower := mt (mem_lower_iff_of_isMark Symbol.isMark_dot).mp hdot
    rw [fromLast_of_notMem hdot, fromLast_of_notMem hdot', lower_nil]

/-! ## The last dot of two texts -/

variable {c : Char} {s t : Text}

theorem fromLast_append_of_mem (h : .char c ∈ t) (s : Text) :
    fromLast c (s ++ t) = fromLast c t := by
  obtain ⟨front, rest, rfl, hrest⟩ := exists_last_of_mem h
  rw [← List.append_assoc, fromLast_append_cons _ hrest, fromLast_append_cons _ hrest]

theorem fromLast_append_of_notMem (hs : .char c ∈ s) (ht : .char c ∉ t) :
    fromLast c (s ++ t) = fromLast c s ++ t := by
  obtain ⟨front, rest, rfl, hrest⟩ := exists_last_of_mem hs
  have hboth : .char c ∉ rest ++ t := fun h => (List.mem_append.mp h).elim hrest ht
  rw [List.append_assoc, List.cons_append, fromLast_append_cons _ hboth,
    fromLast_append_cons _ hrest]
  rfl

/-- The last symbol of a text stays when another one is replaced. -/
theorem getLast?_replaced {a last : Symbol} (h : (s ++ a :: t).getLast? = some last)
    (hne : last ≠ a) (b : Symbol) : (s ++ b :: t).getLast? = some last := by
  cases t with
  | nil =>
    rw [List.getLast?_concat] at h
    exact absurd (Option.some.inj h).symm hne
  | cons c t => simpa [List.getLast?_append, List.getLast?_cons_cons] using h

end Text

namespace Path

/-! ## Names -/

/-- Whether the symbol of a name that stands between the given texts is a capital sigma at the end
of a word of the extension. -/
structure FinalSigma (before : Text) (a : Symbol) (after : Text) : Prop where
  dotted : .char '.' ∈ before
  last_dot : .char '.' ∉ after
  ends : Text.EndsWord (before.fromLast '.') a after

variable {p q : Path} {before after : Text} {a b : Symbol}

/-- A name with such a sigma does not end with a dot. -/
theorem FinalSigma.last_ne_dot (h : FinalSigma before a after) {last : Symbol}
    (hlast : (before ++ a :: after).getLast? = some last) : last ≠ .char '.' := by
  rintro rfl
  by_cases ha : Symbol.char '.' = a
  · rw [h.ends.sigma] at ha
    exact absurd ha (by decide)
  · rw [List.getLast?_append, List.getLast?_eq_some_getLast (List.cons_ne_nil a after),
      Option.some_or] at hlast
    have hmem := List.getLast_mem (List.cons_ne_nil a after)
    rw [Option.some.inj hlast] at hmem
    exact (List.mem_cons.mp hmem).elim ha h.last_dot

/-- **A symbol of a name that is lowered by itself** changes the form of the extension if and only
if it is a capital sigma at the end of a word there. -/
theorem lower_extension_eq_iff (hp : p.name = before ++ a :: after)
    (hq : q.name = before ++ b :: after) (hb : Text.lower [a] = [b]) :
    p.extension.lower = q.extension.lower ↔ ¬ FinalSigma before a after := by
  unfold extension
  rw [hp, hq]
  by_cases hafter : .char '.' ∈ after
  · -- the extension lies behind the symbol
    have hbehind : ∀ x, Text.fromLast '.' (before ++ x :: after) = Text.fromLast '.' after := by
      intro x
      rw [List.append_cons, Text.fromLast_append_of_mem hafter]
    rw [hbehind, hbehind]
    exact ⟨fun _ hfinal => hfinal.last_dot hafter, fun _ => rfl⟩
  · by_cases ha : a = .char '.'
    · have hb' := (Symbol.lower_alone_dot_iff hb).mpr ha
      rw [ha, hb']
      exact ⟨fun _ hfinal => absurd hfinal.ends.sigma (by decide), fun _ => rfl⟩
    · have hbehind : ∀ x ≠ Symbol.char '.', .char '.' ∉ x :: after := fun x hx hmem =>
        (List.mem_cons.mp hmem).elim (fun h => hx h.symm) hafter
      have hb' : b ≠ .char '.' := mt (Symbol.lower_alone_dot_iff hb).mp ha
      by_cases hbefore : .char '.' ∈ before
      · rw [Text.fromLast_append_of_notMem hbefore (hbehind a ha),
          Text.fromLast_append_of_notMem hbefore (hbehind b hb'), Text.lower_eq_iff hb]
        exact not_congr ⟨fun hends => ⟨hbefore, hafter, hends⟩, fun hfinal => hfinal.ends⟩
      · have hnone : ∀ x ≠ Symbol.char '.', .char '.' ∉ before ++ x :: after := fun x hx hmem =>
          (List.mem_append.mp hmem).elim hbefore (hbehind x hx)
        rw [Text.fromLast_of_notMem (hnone a ha), Text.fromLast_of_notMem (hnone b hb')]
        exact ⟨fun _ hfinal => hbefore hfinal.dotted, fun _ => rfl⟩

/-- Names without a capital sigma and with the same lower-case form have extensions with the same
lower-case form. -/
theorem lower_extension_eq (hp : .char 'Σ' ∉ p.name) (hq : .char 'Σ' ∉ q.name)
    (h : p.name.lower = q.name.lower) : p.extension.lower = q.extension.lower := by
  rw [extension, extension, ← Text.fromLast_lower hp, ← Text.fromLast_lower hq, h]

end Path

namespace Settings

/-! ## Selection -/

theorem hasExtension_congr {p q : Path} (h : p.extension.lower = q.extension.lower)
    (regular : Bool) (e : Text) : q.hasExtension regular e = p.hasExtension regular e := by
  rw [Path.hasExtension, Path.hasExtension, h]

/-- Settings with the extension of a file select it, if it can be selected, and no file whose
extension has another form. -/
theorem exists_settings_apart {p q : Path} (h : p.extension.lower ≠ q.extension.lower)
    (hdot : .char '.' ∈ p.name) {a : Symbol} (hlast : p.name.getLast? = some a)
    (ha : a ≠ .char '.') (hblank : a.isBlank = false) :
    ∃ offers s, ofOffers offers = .ok s ∧ p.hasExtension true s.extension = true ∧
      q.hasExtension true s.extension = false := by
  have hform := Path.extensionForm?_extension hdot hlast ha hblank
  refine ⟨offer none p.extension, ⟨default.executable, p.extension.lower⟩, ?_, ?_, ?_⟩
  · rw [ofOffers_offer, hform]
    rfl
  · simp [Path.hasExtension, Text.lower_lower]
  · simpa [Path.hasExtension, Text.lower_lower] using Ne.symm h

/-- No settings select a file whose name ends with a blank. -/
theorem not_hasExtension_of_blank {p : Path} {e : Text} (he : e.IsExtensionForm) {last : Symbol}
    (hlast : p.name.getLast? = some last) (hblank : last.isBlank = true) (regular : Bool) :
    p.hasExtension regular e = false := by
  cases regular with
  | false => rfl
  | true =>
    refine Bool.eq_false_iff.mpr fun h => ?_
    obtain ⟨-, a, ha, -, hnot⟩ := Path.name_of_hasExtension he h
    obtain rfl := Option.some.inj (hlast.symm.trans ha)
    rw [hblank] at hnot
    cases hnot

/-- **Names without a capital sigma** are selected alike by all settings if they have the same
lower-case form. -/
theorem hasExtension_eq_of_lower_name {p q : Path} (hp : .char 'Σ' ∉ p.name)
    (hq : .char 'Σ' ∉ q.name) (h : p.name.lower = q.name.lower) (regular : Bool) (e : Text) :
    q.hasExtension regular e = p.hasExtension regular e :=
  hasExtension_congr (Path.lower_extension_eq hp hq h) regular e

/-- **Letter case matters only for a sigma at the end of a word.**  Let two names differ in one
symbol, which is in one of them what it is lowered to by itself in the other.  All settings select
both files alike, unless the symbol is a capital sigma at the end of a word of the extension; then
some settings do not, unless the name ends with a blank, so that none select either. -/
theorem recased_alike_iff (p q : Path) (before after : Text) (a b : Symbol)
    (hp : p.name = before ++ a :: after) (hq : q.name = before ++ b :: after)
    (hb : Text.lower [a] = [b]) :
    (∀ offers s, ofOffers offers = .ok s → ∀ regular,
      q.hasExtension regular s.extension = p.hasExtension regular s.extension) ↔
    ¬ (Path.FinalSigma before a after ∧ ∀ last ∈ p.name.getLast?, last.isBlank = false) := by
  have hforms := Path.lower_extension_eq_iff hp hq hb
  constructor
  · rintro halike ⟨hfinal, hblank⟩
    obtain ⟨last, hlast⟩ : ∃ last, p.name.getLast? = some last :=
      ⟨_, List.getLast?_eq_some_getLast (by simp [hp])⟩
    obtain ⟨offers, s, hs, hpe, hqe⟩ := exists_settings_apart
      (fun h => hforms.mp h hfinal) (by simp [hp, hfinal.dotted]) hlast
      (hfinal.last_ne_dot (hp ▸ hlast)) (hblank last hlast)
    rw [← halike offers s hs true, hqe] at hpe
    cases hpe
  · intro hnot offers s hs regular
    by_cases hfinal : Path.FinalSigma before a after
    · -- the names end with a blank, which is not the sigma
      obtain ⟨last, hlast, hblank⟩ : ∃ last ∈ p.name.getLast?, last.isBlank = true := by
        simpa [hfinal] using hnot
      have hne : last ≠ a := by
        rintro rfl
        rw [hfinal.ends.sigma] at hblank
        exact absurd hblank (by decide)
      have hqlast : q.name.getLast? = some last :=
        hq ▸ Text.getLast?_replaced (hp ▸ hlast) hne b
      have hform := isExtensionForm_of_ofOffers hs
      rw [not_hasExtension_of_blank hform hlast hblank,
        not_hasExtension_of_blank hform hqlast hblank]
    · exact hasExtension_congr (hforms.mpr hfinal) regular s.extension

/-- A sigma within a word of the extension may be in either case. -/
theorem sigma_in_word_alike :
    (Path.ofText "a.ΣX").name = ("a." : Text) ++ .char 'Σ' :: "X" ∧
      (Path.ofText "a.σX").name = ("a." : Text) ++ .char 'σ' :: "X" ∧
      Text.lower "Σ" = "σ" ∧
      ∀ offers s, ofOffers offers = .ok s → ∀ regular,
        (Path.ofText "a.σX").hasExtension regular s.extension =
          (Path.ofText "a.ΣX").hasExtension regular s.extension := by
  refine ⟨by decide, by decide, by decide, ?_⟩
  refine (recased_alike_iff (.ofText "a.ΣX") (.ofText "a.σX") "a." "X" (.char 'Σ') (.char 'σ')
    (by decide) (by decide) (by decide)).mpr fun h => ?_
  exact absurd h.1.ends.uncased (by decide)

/-- Two names that differ only in the case of a sigma at the end: some settings select one of the
files and not the other. -/
theorem final_sigma_apart :
    ofOffers (offer none ".ΑΣ") = .ok ⟨default.executable, ".ας"⟩ ∧ Text.lower "Σ" = "σ" ∧
      (Path.ofText "b.ΑΣ").hasExtension true ".ας" = true ∧
      (Path.ofText "b.Ασ").hasExtension true ".ας" = false := by
  have hform : Text.extensionForm? ".ΑΣ" = some ".ας" := by decide +kernel
  refine ⟨?_, by decide, by decide +kernel, by decide +kernel⟩
  rw [ofOffers_offer, hform]
  rfl

end Settings

end FileSweep
