import FileSweep.Disk
import FileSweep.Proofs.ExtensionForm
import FileSweep.Proofs.ScanCourse

/-!
# Which files can be selected

The extension of a path is what the last dot of its name leads, so nothing in it is a dot or a
slash but its first symbol.  Lower-casing brings neither; hence settings whose extension has a
dot or a slash further on select no file at all (`Path.not_hasExtension`), and a scan with them
tests nothing.  Any other extension is the name of a file that it selects.

Seen from the files: there are settings that select a given one, if its name has a dot, and ends
neither with a dot nor with a blank.  They need hold no more than the extension of the file.
-/

namespace FileSweep

/-! ## From the last symbol of a kind on -/

namespace Text

variable {c : Char} {t rest : Text}

theorem fromLast_of_notMem (h : .char c ∉ t) : fromLast c t = [] := by
  induction t with
  | nil => rfl
  | cons a t ih =>
    obtain ⟨ha, ht⟩ := not_or.mp (mt List.mem_cons.mpr h)
    rw [fromLast, ih ht]
    exact if_neg (Ne.symm ha)

theorem fromLast_append_cons (front : Text) (h : .char c ∉ rest) :
    fromLast c (front ++ .char c :: rest) = .char c :: rest := by
  induction front with
  | nil => simp [fromLast, fromLast_of_notMem h]
  | cons a front ih => simp [fromLast, ih]

theorem exists_last_of_mem (h : .char c ∈ t) :
    ∃ front rest, t = front ++ .char c :: rest ∧ .char c ∉ rest := by
  induction t with
  | nil => cases h
  | cons a t ih =>
    by_cases ht : .char c ∈ t
    · obtain ⟨front, rest, rfl, hrest⟩ := ih ht
      exact ⟨a :: front, rest, rfl, hrest⟩
    · obtain rfl := (List.mem_cons.mp h).resolve_right ht
      exact ⟨[], t, rfl, ht⟩

end Text

namespace Path

/-! ## Names and their extensions -/

/-- There is no slash in a name. -/
theorem slash_notMem_name (p : Path) : .char '/' ∉ p.name := by
  unfold name
  rcases List.eq_nil_or_concat p.parts with h | ⟨parts, part, h⟩
  · simp [h]
  · have hpart := p.isPart part (by simp [h])
    simpa [h] using hpart.2.2

/-- Without a dot in the name there is no extension; else it is the last dot of the name with
what follows, where there are no further dots and no slashes. -/
theorem extension_cases (p : Path) :
    .char '.' ∉ p.name ∧ p.extension = [] ∨
      ∃ front rest, p.name = front ++ .char '.' :: rest ∧ .char '.' ∉ rest ∧ .char '/' ∉ rest ∧
        p.extension = .char '.' :: rest := by
  by_cases h : .char '.' ∈ p.name
  · obtain ⟨front, rest, hname, hrest⟩ := Text.exists_last_of_mem h
    refine .inr ⟨front, rest, hname, hrest, ?_, ?_⟩
    · intro hslash
      refine p.slash_notMem_name ?_
      rw [hname]
      exact List.mem_append_right _ (List.mem_cons_of_mem _ hslash)
    · rw [extension, hname, Text.fromLast_append_cons front hrest]
  · exact .inl ⟨h, Text.fromLast_of_notMem h⟩

theorem name_ofText {t : Text} (h : t.IsPart) : (ofText t).name = t := by
  simp [name, ofText, partsOf_of_isPart h]

variable {e : Text} {p : Path}

/-- An extension that is matched has its only dot in front, and no slash. -/
theorem tail_of_hasExtension (he : e.IsExtensionForm) (h : p.hasExtension true e = true) :
    .char '.' ∉ e.tail ∧ .char '/' ∉ e.tail := by
  obtain ⟨-, hlower⟩ := (he.hasExtension_iff p true).mp h
  rcases p.extension_cases with ⟨-, hp⟩ | ⟨front, rest, -, hdot, hslash, hp⟩
  · rw [hp] at hlower
    exact absurd hlower.symm he.ne_nil
  · rw [← hlower, hp, Text.lower_dot_cons, List.tail_cons,
      Text.mem_lower_iff_of_isMark Symbol.isMark_dot,
      Text.mem_lower_iff_of_isMark Symbol.isMark_slash]
    exact ⟨hdot, hslash⟩

/-- Such an extension is the name of a file that it selects. -/
theorem hasExtension_ofText (he : e.IsExtensionForm) (hdot : .char '.' ∉ e.tail)
    (hslash : .char '/' ∉ e.tail) : (ofText e).hasExtension true e = true := by
  obtain ⟨rest, rfl⟩ := List.head?_eq_some_iff.mp he.dot
  have hpart : Text.IsPart (.char '.' :: rest) := by
    refine ⟨he.ne_nil, he.ne_dot, ?_⟩
    simpa using hslash
  rw [he.hasExtension_iff, extension, name_ofText hpart]
  have hlast := Text.fromLast_append_cons [] hdot
  rw [List.tail_cons, List.nil_append] at hlast
  rw [hlast]
  exact ⟨rfl, he.lower⟩

/-- A file that is selected has a name with a dot, and with something at its end that is no dot
and no blank. -/
theorem name_of_hasExtension (he : e.IsExtensionForm) (h : p.hasExtension true e = true) :
    .char '.' ∈ p.name ∧
      ∃ a, p.name.getLast? = some a ∧ a ≠ .char '.' ∧ a.isBlank = false := by
  obtain ⟨-, hlower⟩ := (he.hasExtension_iff p true).mp h
  rcases p.extension_cases with ⟨-, hp⟩ | ⟨front, rest, hname, hdot, -, hp⟩
  · rw [hp] at hlower
    exact absurd hlower.symm he.ne_nil
  · refine ⟨hname ▸ by simp, ?_⟩
    rcases List.eq_nil_or_concat rest with rfl | ⟨middle, a, rfl⟩
    · -- nothing behind the dot would leave only the dot
      refine absurd ?_ he.ne_dot
      rw [← hlower, hp]
      decide
    · rw [List.concat_eq_append] at hname hp hdot
      refine ⟨a, by rw [hname, ← List.cons_append, ← List.append_assoc, List.getLast?_concat],
        ?_, ?_⟩
      · rintro rfl
        simp at hdot
      · cases hblank : a.isBlank with
        | false => rfl
        | true =>
          have hlast : e.getLast? = some a := by
            rw [← hlower, Text.getLast?_lower_iff (Symbol.isMark_of_isBlank hblank), hp,
              ← List.cons_append, List.getLast?_concat]
          exact hblank ▸ he.trimmed.2 a hlast

/-- The extension of such a file has a normal form. -/
theorem extensionForm?_extension (hdot : .char '.' ∈ p.name) {a : Symbol}
    (hlast : p.name.getLast? = some a) (ha : a ≠ .char '.') (hblank : a.isBlank = false) :
    p.extension.extensionForm? = some p.extension.lower := by
  rcases p.extension_cases with ⟨hnot, -⟩ | ⟨front, rest, hname, -, -, hp⟩
  · exact absurd hdot hnot
  · have hend : p.extension.getLast? = some a := by
      rw [hname, List.getLast?_append, List.getLast?_cons, Option.some_or] at hlast
      rw [hp, List.getLast?_cons, hlast]
    have hhead : p.extension.head? = some (.char '.') := by
      rw [hp]
      rfl
    have htrimmed : p.extension.Trimmed := by
      refine ⟨?_, ?_⟩
      · intro b hb
        obtain rfl := Option.some.inj (hhead.symm.trans hb)
        decide
      · intro b hb
        obtain rfl := Option.some.inj (hend.symm.trans hb)
        exact hblank
    have hne : p.extension ≠ [.char '.'] := by
      intro h
      rw [h] at hend
      exact ha (Option.some.inj hend).symm
    rw [Text.extensionForm?_eq, Text.strip_of_trimmed htrimmed, Text.dotted_of_head? hhead,
      if_neg (not_or.mpr ⟨by rw [hp]; exact List.cons_ne_nil _ _, hne⟩)]

end Path

namespace Settings

/-! ## Settings and files -/

/-- **A scan with an extension that matches nothing** calls nothing. -/
theorem calls_of_unmatched {σ α : Type} [FileSystem σ] {s : Settings}
    (h : ∀ p : Path, p.hasExtension true s.extension = false) (tester : Tester α) (root : Path)
    (budget : Nat) (fs : σ) (script : List (Attempt σ α)) :
    Event.calls (Scan.run tester s root budget fs script).1 = [] := by
  have hnone : ∀ e, s.chooses e = false := by
    intro e
    cases hregular : e.isRegular with
    | false => simp [chooses, Path.hasExtension, hregular]
    | true => simp [chooses, hregular, h e.path]
  rw [Scan.run_eq_course, Event.calls_cons, Scan.calls_course]
  simp [hnone]

/-- **What can be selected.**  The extension of settings matches some file if and only if it has
neither a dot nor a slash but for its first symbol, and with any other one a scan calls nothing,
whatever the tree is like.  A file can be selected by some settings if and only if its name has a
dot, and ends neither with a dot nor with a blank. -/
theorem selects_iff :
    (∀ offers s, ofOffers offers = .ok s →
      ((∃ p : Path, p.hasExtension true s.extension = true) ↔
        .char '.' ∉ s.extension.tail ∧ .char '/' ∉ s.extension.tail)) ∧
    (∀ offers s, ofOffers offers = .ok s →
      .char '.' ∈ s.extension.tail ∨ .char '/' ∈ s.extension.tail →
      ∀ (σ α : Type) [FileSystem σ] (tester : Tester α) (root : Path) (budget : Nat) (fs : σ)
        (script : List (Attempt σ α)),
        Event.calls (Scan.run tester s root budget fs script).1 = []) ∧
    ∀ p : Path,
      (∃ offers s, ofOffers offers = .ok s ∧ p.hasExtension true s.extension = true) ↔
        .char '.' ∈ p.name ∧
          ∃ a, p.name.getLast? = some a ∧ a ≠ .char '.' ∧ a.isBlank = false := by
  refine ⟨?_, ?_, fun p => ⟨?_, ?_⟩⟩
  · intro offers s hs
    have hform := isExtensionForm_of_ofOffers hs
    constructor
    · rintro ⟨p, hp⟩
      exact Path.tail_of_hasExtension hform hp
    · rintro ⟨hdot, hslash⟩
      exact ⟨_, Path.hasExtension_ofText hform hdot hslash⟩
  · intro offers s hs hmarks σ α _ tester root budget fs script
    refine calls_of_unmatched (fun p => ?_) tester root budget fs script
    have hform := isExtensionForm_of_ofOffers hs
    refine Bool.eq_false_iff.mpr fun hp => ?_
    obtain ⟨hdot, hslash⟩ := Path.tail_of_hasExtension hform hp
    exact hmarks.elim hdot hslash
  · rintro ⟨offers, s, hs, hp⟩
    exact Path.name_of_hasExtension (isExtensionForm_of_ofOffers hs) hp
  · rintro ⟨hdot, a, hlast, ha, hblank⟩
    have hform := Path.extensionForm?_extension hdot hlast ha hblank
    refine ⟨offer none p.extension, ⟨default.executable, p.extension.lower⟩, ?_, ?_⟩
    · rw [ofOffers_offer, hform]
      rfl
    · simp [Path.hasExtension, Text.lower_lower]

/-- A directory with an archive in it. -/
def archiveDisk : Disk :=
  .set .empty [(".", { kind := .dir, names := ["a.tar.gz"] }), ("a.tar.gz", { kind := .file })]

/-- An extension of two parts is taken, and selects nothing, not even the archive.  The usual
extension selects something, and something selects the archive. -/
theorem archive_selects :
    ofOffers (offer none ".tar.gz") = .ok ⟨default.executable, ".tar.gz"⟩ ∧
      (¬ ∃ p : Path, p.hasExtension true ".tar.gz" = true) ∧
      (∀ budget, Event.calls (Scan.run .prepared ⟨default.executable, ".tar.gz"⟩ (.ofText ".")
        budget archiveDisk []).1 = []) ∧
      (∃ p : Path, p.hasExtension true default.extension = true) ∧
      ∃ offers s, ofOffers offers = .ok s ∧
        (Path.ofText "a.tar.gz").hasExtension true s.extension = true := by
  obtain ⟨hmatched, hcalls, hfiles⟩ := selects_iff
  have hform : Text.extensionForm? ".tar.gz" = some ".tar.gz" := by decide
  have htaken : ofOffers (offer none ".tar.gz") = .ok ⟨default.executable, ".tar.gz"⟩ := by
    rw [ofOffers_offer, hform]
    rfl
  have hdot : Symbol.char '.' ∈ (Text.ofString ".tar.gz").tail := by decide
  refine ⟨htaken, fun h => ?_, fun budget => ?_, ?_, ?_⟩
  · exact ((hmatched _ _ htaken).mp h).1 hdot
  · exact hcalls _ _ htaken (.inl hdot) Disk _ .prepared _ budget archiveDisk []
  · exact (hmatched [] default rfl).mpr (by decide)
  · exact (hfiles (.ofText "a.tar.gz")).mpr ⟨by decide, .char 'z', by decide⟩

end Settings

end FileSweep
