import FileSweep.Path
import FileSweep.Text.Order

/-!
# The order of paths

Paths below a common root are compared by their parts: a path before the paths below it, and
otherwise by code point at the first part that differs.  This is the lexicographic order of
lists, over the lexicographic order of texts.

In a tree there is more to say of two paths of which neither is above the other: the first
one, with everything below it, comes before the second one, with everything below that.  This
is `LeftOf`; unlike the order itself it is kept when both sides are extended
(`LeftOf.append`).
-/

namespace FileSweep

/-! ## Texts -/

/-- Whether `s` comes before `t`: by code point at the first difference, and a text before
its extensions. -/
def Text.Lt (s t : Text) : Prop := List.Lex (fun a b : Symbol => a.code < b.code) s t

instance : DecidableRel Text.Lt :=
  fun s t => inferInstanceAs (Decidable (List.Lex (fun a b : Symbol => a.code < b.code) s t))

theorem Text.lt_irrefl (s : Text) : ¬ s.Lt s :=
  List.lex_irrefl (fun a => Nat.lt_irrefl a.code) s

theorem Text.lt_asymm {s t : Text} (h : s.Lt t) : ¬ t.Lt s :=
  List.lex_asymm (Nat.lt_asymm ·) h

theorem Text.lt_of_le_of_ne {s t : Text} (h : Text.le s t = true) (hne : s ≠ t) : s.Lt t := by
  induction s generalizing t with
  | nil =>
    cases t with
    | nil => exact absurd rfl hne
    | cons b t => exact .nil
  | cons a s ih =>
    cases t with
    | nil => cases h
    | cons b t =>
      rcases Text.le_cons.mp h with hab | ⟨rfl, hst⟩
      · exact .rel hab
      · exact .cons (ih hst fun he => hne (he ▸ rfl))

/-- Whether names can be those of one directory: real parts, each once. -/
def Text.AreNames (names : List Text) : Prop := (∀ n ∈ names, n.IsPart) ∧ names.Nodup

instance (names : List Text) : Decidable (Text.AreNames names) :=
  inferInstanceAs (Decidable (_ ∧ _))

/-- Sorted, the names of a directory ascend strictly. -/
theorem Text.sort_strict {names : List Text} (h : names.Nodup) :
    (Text.sort names).Pairwise Text.Lt :=
  (Text.sort_pairwise names).imp₂ (fun _ _ => Text.lt_of_le_of_ne)
    ((Text.sort_perm names).nodup_iff.mpr h)

/-! ## Lists of parts -/

/-- `u` and all its extensions come before `v` and all its extensions: there is a first part
in which they differ. -/
inductive LeftOf : List Text → List Text → Prop
  | here {s t : Text} (u v : List Text) (h : s.Lt t) : LeftOf (s :: u) (t :: v)
  | deeper (s : Text) {u v : List Text} (h : LeftOf u v) : LeftOf (s :: u) (s :: v)

namespace LeftOf

variable {u v : List Text}

theorem append (h : LeftOf u v) (x y : List Text) : LeftOf (u ++ x) (v ++ y) := by
  induction h with
  | here u v h => exact .here _ _ h
  | deeper s _ ih => exact .deeper s ih

theorem under (c : List Text) (h : LeftOf u v) : LeftOf (c ++ u) (c ++ v) := by
  induction c with
  | nil => exact h
  | cons s c ih => exact .deeper s ih

theorem lex (h : LeftOf u v) : List.Lex Text.Lt u v := by
  induction h with
  | here u v h => exact .rel h
  | deeper s _ ih => exact .cons ih

/-- Everything below `u` comes before everything below `v`. -/
theorem lex_of_prefix {u' v' : List Text} (h : LeftOf u v) (hu : u <+: u') (hv : v <+: v') :
    List.Lex Text.Lt u' v' := by
  obtain ⟨x, rfl⟩ := hu
  obtain ⟨y, rfl⟩ := hv
  exact (h.append x y).lex

end LeftOf

theorem lex_append_of_ne_nil (u : List Text) {x : List Text} (hx : x ≠ []) :
    List.Lex Text.Lt u (u ++ x) := by
  induction u with
  | nil =>
    obtain ⟨a, x, rfl⟩ := List.exists_cons_of_ne_nil hx
    exact .nil
  | cons s u ih => exact .cons ih

theorem lex_of_append_left {c u v : List Text} (h : List.Lex Text.Lt (c ++ u) (c ++ v)) :
    List.Lex Text.Lt u v := by
  induction c with
  | nil => exact h
  | cons s c ih =>
    cases h with
    | rel h => exact absurd h s.lt_irrefl
    | cons h => exact ih h

/-! ## Paths below a root -/

namespace Path

/-- Whether `p` is `root` or lies below it. -/
def IsUnder (root p : Path) : Prop := p.anchor = root.anchor ∧ root.parts <+: p.parts

instance (root p : Path) : Decidable (root.IsUnder p) := inferInstanceAs (Decidable (_ ∧ _))

/-- The parts of a path from `root` on. -/
def below (root p : Path) : List Text := p.parts.drop root.parts.length

theorem isUnder_refl (p : Path) : p.IsUnder p := ⟨rfl, List.prefix_refl _⟩

theorem IsUnder.child {root p : Path} (h : root.IsUnder p) {name : Text} (hn : name.IsPart) :
    root.IsUnder (p.child name) := by
  obtain ⟨hanchor, hparts⟩ := child_of_isPart p hn
  exact ⟨hanchor.trans h.1, hparts ▸ h.2.trans (List.prefix_append _ _)⟩

theorem IsUnder.antisymm {p q : Path} (hpq : p.IsUnder q) (hqp : q.IsUnder p) : p = q := by
  refine Path.ext hqp.1 ?_
  exact hpq.2.eq_of_length (Nat.le_antisymm hpq.2.length_le hqp.2.length_le)

/-- What is above a child is the child, or above its directory. -/
theorem IsUnder.of_child {p q : Path} {name : Text} (hn : name.IsPart)
    (h : q.IsUnder (p.child name)) : q = p.child name ∨ q.IsUnder p := by
  obtain ⟨hanchor, hparts⟩ := child_of_isPart p hn
  rcases List.prefix_concat_iff.mp (hparts ▸ h.2) with heq | hprefix
  · exact .inl (Path.ext h.1.symm (heq.trans hparts.symm))
  · exact .inr ⟨hanchor.symm.trans h.1, hprefix⟩

/-- Whether `p` lies below `q`, and is not `q` itself. -/
def IsAbove (q p : Path) : Prop := q.IsUnder p ∧ p ≠ q

instance (q p : Path) : Decidable (q.IsAbove p) := inferInstanceAs (Decidable (_ ∧ _))

theorem isAbove_child (p : Path) {name : Text} (hn : name.IsPart) : p.IsAbove (p.child name) := by
  refine ⟨p.isUnder_refl.child hn, fun h => ?_⟩
  have hlength := congrArg (fun q : Path => q.parts.length) h
  simp [(child_of_isPart p hn).2] at hlength

/-- A path is above a child if it is the directory of the child, or above that. -/
theorem isAbove_child_iff {p q : Path} {name : Text} (hn : name.IsPart) :
    q.IsAbove (p.child name) ↔ p = q ∨ q.IsAbove p := by
  constructor
  · rintro ⟨hunder, hne⟩
    rcases hunder.of_child hn with heq | hunder
    · exact absurd heq.symm hne
    · by_cases hp : p = q
      · exact .inl hp
      · exact .inr ⟨hunder, hp⟩
  · rintro (rfl | ⟨hunder, hne⟩)
    · exact isAbove_child p hn
    · refine ⟨hunder.child hn, fun h => ?_⟩
      exact hne (IsUnder.antisymm (h ▸ (isAbove_child p hn).1) hunder)

theorem IsUnder.parts_eq {root p : Path} (h : root.IsUnder p) :
    p.parts = root.parts ++ root.below p := by
  obtain ⟨c, hc⟩ := h.2
  simp [below, ← hc]

/-- Below a root, the order of paths is the order of what they add to it. -/
theorem IsUnder.lex_below {root p q : Path} (hp : root.IsUnder p) (hq : root.IsUnder q)
    (h : List.Lex Text.Lt p.parts q.parts) :
    List.Lex Text.Lt (root.below p) (root.below q) := by
  rw [hp.parts_eq, hq.parts_eq] at h
  exact lex_of_append_left h

/-- Whether paths are in order, each one once. -/
def Ascending (ps : List Path) : Prop := ps.Pairwise fun p q => List.Lex Text.Lt p.parts q.parts

theorem Ascending.nodup {ps : List Path} (h : Ascending ps) : ps.Nodup := by
  refine List.Pairwise.imp (fun hlex he => ?_) h
  exact List.lex_irrefl Text.lt_irrefl _ (he ▸ hlex)

/-- Paths can be put in order in one way only. -/
theorem Ascending.eq_of_mem_iff {ps qs : List Path} (hps : Ascending ps) (hqs : Ascending qs)
    (h : ∀ p, p ∈ ps ↔ p ∈ qs) : ps = qs := by
  have hperm := (List.perm_ext_iff_of_nodup hps.nodup hqs.nodup).mpr h
  refine List.Perm.eq_of_pairwise (fun p q _ _ hpq hqp => ?_) hps hqs hperm
  exact absurd hqp (List.lex_asymm Text.lt_asymm hpq)

end Path

end FileSweep
