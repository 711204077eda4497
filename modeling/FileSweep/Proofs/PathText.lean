import FileSweep.FileSystem

/-!
# Paths and their texts

A path is written as its parts with slashes between them, behind its anchor.  Reading that
text gives the path again (`ofText_text`), so two paths with the same text are the same:
a file system that is asked by texts can tell all paths apart.

The text of a path holds a NUL only if one of its parts does, and the parts that a name adds
are made of symbols of the name.  So a path without a NUL stays without one as long as only
names without a NUL are added to it (`hasNul_child`).
-/

namespace FileSweep

/-! ## Pieces between separators -/

namespace Text

theorem splitWhere_cons_separator {p : Symbol → Bool} {a : Symbol} (h : p a = true) (t : Text) :
    splitWhere p (a :: t) = [] :: splitWhere p t := by
  simp [splitWhere, h]

theorem splitWhere_cons_symbol {p : Symbol → Bool} {a : Symbol} {t piece : Text}
    {more : List Text} (h : p a = false) (ht : splitWhere p t = piece :: more) :
    splitWhere p (a :: t) = (a :: piece) :: more := by
  unfold splitWhere at ht ⊢
  rw [List.foldr_cons, ht, h]
  rfl

theorem exists_splitWhere (p : Symbol → Bool) (t : Text) :
    ∃ piece more, splitWhere p t = piece :: more := by
  induction t with
  | nil => exact ⟨[], [], rfl⟩
  | cons a t ih =>
    obtain ⟨piece, more, ht⟩ := ih
    cases h : p a with
    | true => exact ⟨[], _, splitWhere_cons_separator h t⟩
    | false => exact ⟨_, _, splitWhere_cons_symbol h ht⟩

/-- At a separator the pieces of both sides come together unchanged. -/
theorem splitWhere_append_cons {p : Symbol → Bool} {a : Symbol} (ha : p a = true) (s t : Text) :
    splitWhere p (s ++ a :: t) = splitWhere p s ++ splitWhere p t := by
  induction s with
  | nil => exact splitWhere_cons_separator ha t
  | cons b s ih =>
    obtain ⟨piece, more, hs⟩ := exists_splitWhere p s
    rw [List.cons_append]
    cases hb : p b with
    | true => rw [splitWhere_cons_separator hb, splitWhere_cons_separator hb, ih]; rfl
    | false =>
      rw [hs, List.cons_append] at ih
      rw [splitWhere_cons_symbol hb ih, splitWhere_cons_symbol hb hs]
      rfl

/-- The pieces of a text hold only symbols of the text. -/
theorem mem_of_mem_splitWhere {p : Symbol → Bool} {a : Symbol} {piece t : Text}
    (hp : piece ∈ splitWhere p t) (ha : a ∈ piece) : a ∈ t := by
  induction t generalizing piece with
  | nil =>
    rw [List.mem_singleton.mp hp] at ha
    exact ha
  | cons b t ih =>
    obtain ⟨first, more, ht⟩ := exists_splitWhere p t
    cases hb : p b with
    | true =>
      rw [splitWhere_cons_separator hb] at hp
      rcases List.mem_cons.mp hp with rfl | hp
      · cases ha
      · exact List.mem_cons_of_mem b (ih hp ha)
    | false =>
      rw [splitWhere_cons_symbol hb ht] at hp
      rw [ht] at ih
      rcases List.mem_cons.mp hp with rfl | hp
      · rcases List.mem_cons.mp ha with rfl | ha
        · exact List.mem_cons_self
        · exact List.mem_cons_of_mem b (ih List.mem_cons_self ha)
      · exact List.mem_cons_of_mem b (ih (List.mem_cons_of_mem first hp) ha)

theorem join_append (between : Text) {ss ts : List Text} (hs : ss ≠ []) (ht : ts ≠ []) :
    join between (ss ++ ts) = join between ss ++ between ++ join between ts := by
  obtain ⟨t, ts, rfl⟩ := List.exists_cons_of_ne_nil ht
  induction ss with
  | nil => exact absurd rfl hs
  | cons s ss ih =>
    cases ss with
    | nil => simp [join_cons_cons]
    | cons s' ss =>
      rw [List.cons_append, List.cons_append, join_cons_cons, join_cons_cons, ← List.cons_append,
        ih (List.cons_ne_nil s' ss)]
      simp

end Text

namespace Path

/-! ## Reading what was written -/

theorem partsOf_append_slash (s t : Text) :
    partsOf (s ++ .char '/' :: t) = partsOf s ++ partsOf t := by
  unfold partsOf
  rw [Text.splitWhere_append_cons (by simp), List.filter_append]

@[simp] theorem partsOf_nil : partsOf [] = [] := by decide

theorem partsOf_slash (t : Text) : partsOf (.char '/' :: t) = partsOf t :=
  partsOf_append_slash [] t

theorem partsOf_join {ps : List Text} (h : ∀ p ∈ ps, p.IsPart) :
    partsOf (Text.join [.char '/'] ps) = ps := by
  induction ps with
  | nil => exact partsOf_nil
  | cons p ps ih =>
    obtain ⟨hp, hps⟩ := List.forall_mem_cons.mp h
    cases ps with
    | nil => rw [Text.join_singleton, partsOf_of_isPart hp]
    | cons q ps =>
      rw [Text.join_cons_cons, List.append_assoc, List.singleton_append, partsOf_append_slash,
        ih hps, partsOf_of_isPart hp]
      rfl

/-- The text of parts begins with the first symbol of the first part, and not with a
slash. -/
theorem exists_join_eq_cons {p : Text} (ps : List Text) (h : p.IsPart) :
    ∃ a t, Text.join [.char '/'] (p :: ps) = a :: t ∧ a ≠ .char '/' := by
  obtain ⟨hne, -, hslash⟩ := h
  obtain ⟨a, t, rfl⟩ := List.exists_cons_of_ne_nil hne
  have ha : a ≠ .char '/' := fun ha => hslash (ha ▸ List.mem_cons_self)
  cases ps with
  | nil => exact ⟨a, t, by simp, ha⟩
  | cons q ps => exact ⟨a, _, Text.join_cons_cons _ _ _ _, ha⟩

theorem text_of_parts {p : Path} (h : p.parts ≠ []) :
    p.text = p.anchor.text ++ Text.join [.char '/'] p.parts := by
  unfold text
  split
  · exact absurd ‹p.parts = []› h
  · rfl

/-- **Reading undoes writing.** -/
theorem ofText_text (p : Path) : ofText p.text = p := by
  obtain ⟨anchor, parts, isPart⟩ := p
  have hparts := partsOf_join isPart
  cases parts with
  | nil => cases anchor <;> rfl
  | cons q ps =>
    -- the parts do not begin with a slash, so all slashes in front are those of the anchor
    obtain ⟨a, t, hjoin, ha⟩ := exists_join_eq_cons ps (isPart q List.mem_cons_self)
    ext1
    · cases anchor <;> simp [ofText, text, Anchor.text, hjoin, anchorOf, ha]
    · cases anchor with
      | relative => exact hparts
      | slash => exact (partsOf_slash _).trans hparts
      | doubleSlash => exact (partsOf_slash _).trans ((partsOf_slash _).trans hparts)

/-- Different paths have different texts. -/
theorem text_inj {p q : Path} : p.text = q.text ↔ p = q :=
  ⟨fun h => by rw [← ofText_text p, h, ofText_text], fun h => h ▸ rfl⟩

/-! ## Paths without a NUL -/

/-- Joining adds nothing but the separator. -/
theorem mem_join {a : Symbol} {ps : List Text} (ha : a ≠ .char '/') :
    a ∈ Text.join [.char '/'] ps ↔ ∃ p ∈ ps, a ∈ p := by
  induction ps with
  | nil => simp
  | cons p ps ih =>
    cases ps with
    | nil => simp
    | cons q ps => simp [Text.join_cons_cons, ih, ha]

/-- A path is without a NUL if all its parts are. -/
theorem hasNul_eq_false_iff (p : Path) :
    p.hasNul = false ↔ ∀ t ∈ p.parts, t.has (Char.ofNat 0) = false := by
  obtain ⟨anchor, parts, isPart⟩ := p
  have hjoin := @mem_join (.char (Char.ofNat 0)) parts (by decide)
  unfold hasNul text Text.has
  cases parts with
  | nil => cases anchor <;> decide +revert
  | cons q ps => cases anchor <;> simp [Anchor.text, hjoin]

theorem has_partsOf {c : Char} {part t : Text} (hp : part ∈ partsOf t) (ht : t.has c = false) :
    part.has c = false := by
  unfold Text.has at ht ⊢
  rw [List.contains_eq_mem, decide_eq_false_iff_not] at ht ⊢
  exact fun h => ht (Text.mem_of_mem_splitWhere (List.mem_filter.mp hp).1 h)

/-- **A name without a NUL leads to no path with one.** -/
theorem hasNul_child {p : Path} {name : Text} (hp : p.hasNul = false)
    (hname : name.has (Char.ofNat 0) = false) : (p.child name).hasNul = false := by
  rw [hasNul_eq_false_iff] at hp ⊢
  have hparts : ∀ t ∈ (ofText name).parts, t.has (Char.ofNat 0) = false := fun t ht =>
    has_partsOf ht hname
  unfold child
  dsimp only
  -- the name is put below `p`, unless it has an anchor of its own
  split
  · exact fun t ht => (List.mem_append.mp ht).elim (hp t) (hparts t)
  · exact hparts

end Path

end FileSweep
