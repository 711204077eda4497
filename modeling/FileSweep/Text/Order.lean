import FileSweep.Text.Basic

/-!
# The order of texts

`Text.le` is a linear order: any two texts stand in it one way, and both ways only if
they are the same text (`le_antisymm`).  That rests on code points telling all symbols
apart (`Symbol.code_inj`), strays from characters too.  So a list of texts has only one
arrangement in ascending order, and what `Text.sort` gives does not depend on the order
in which the texts came (`sort_eq_of_perm`).
-/

namespace FileSweep

/-- No character has the code point of a stray byte. -/
theorem Symbol.code_char_ne_code_stray (c : Char) (low : Fin 128) :
    (Symbol.char c).code ≠ (Symbol.stray low).code := by
  have h : c.toNat < 0xD800 ∨ 0xDFFF < c.toNat ∧ c.toNat < 0x110000 := c.valid
  have := low.isLt
  simp only [code]
  omega

/-- Different symbols have different code points. -/
theorem Symbol.code_inj {a b : Symbol} : a.code = b.code ↔ a = b := by
  refine ⟨fun h => ?_, fun h => h ▸ rfl⟩
  cases a with
  | char c =>
    cases b with
    | char d => exact congrArg Symbol.char (Char.toNat_inj.mp h)
    | stray low => exact absurd h (code_char_ne_code_stray c low)
  | stray low =>
    cases b with
    | char d => exact absurd h.symm (code_char_ne_code_stray d low)
    | stray low' =>
      simp only [code] at h
      exact congrArg Symbol.stray (Fin.ext (by omega))

namespace Text

/-! ## A linear order -/

@[simp] theorem le_nil_left (t : Text) : le [] t = true := rfl

@[simp] theorem le_nil_right (a : Symbol) (s : Text) : le (a :: s) [] = false := rfl

/-- The order by the first symbols and, where these are the same, by what follows. -/
theorem le_cons {a b : Symbol} {s t : Text} :
    le (a :: s) (b :: t) = true ↔ a.code < b.code ∨ a = b ∧ le s t = true := by
  simp [le, Symbol.code_inj]

theorem le_refl (t : Text) : le t t = true := by
  induction t with
  | nil => rfl
  | cons a t ih => exact le_cons.mpr (.inr ⟨rfl, ih⟩)

theorem le_total (s t : Text) : (le s t || le t s) = true := by
  rw [Bool.or_eq_true]
  induction s generalizing t with
  | nil => exact .inl rfl
  | cons a s ih =>
    cases t with
    | nil => exact .inr rfl
    | cons b t =>
      rw [le_cons, le_cons]
      rcases Nat.lt_trichotomy a.code b.code with h | h | h
      · exact .inl (.inl h)
      · obtain rfl := Symbol.code_inj.mp h
        exact (ih t).imp (fun h => .inr ⟨rfl, h⟩) fun h => .inr ⟨rfl, h⟩
      · exact .inr (.inl h)

theorem le_trans {s t u : Text} (hst : le s t = true) (htu : le t u = true) :
    le s u = true := by
  induction s generalizing t u with
  | nil => rfl
  | cons a s ih =>
    cases t with
    | nil => cases hst
    | cons b t =>
      cases u with
      | nil => cases htu
      | cons c u =>
        rw [le_cons] at hst htu ⊢
        rcases hst with hab | ⟨rfl, hst⟩
        · rcases htu with hbc | ⟨rfl, -⟩
          · exact .inl (Nat.lt_trans hab hbc)
          · exact .inl hab
        · exact htu.imp id fun ⟨hac, htu⟩ => ⟨hac, ih hst htu⟩

/-- Two texts of which neither comes after the other are the same. -/
theorem le_antisymm {s t : Text} (hst : le s t = true) (hts : le t s = true) : s = t := by
  induction s generalizing t with
  | nil =>
    cases t with
    | nil => rfl
    | cons b t => cases hts
  | cons a s ih =>
    cases t with
    | nil => cases hst
    | cons b t =>
      rw [le_cons] at hst hts
      rcases hst with hab | ⟨rfl, hst⟩
      · rcases hts with hba | ⟨rfl, -⟩
        · omega
        · omega
      · rcases hts with haa | ⟨-, hts⟩
        · omega
        · rw [ih hst hts]

/-! ## Sorting -/

/-- Sorting keeps every text as often as it was there. -/
theorem sort_perm (ts : List Text) : (sort ts).Perm ts := List.mergeSort_perm ts le

@[simp] theorem mem_sort {t : Text} {ts : List Text} : t ∈ sort ts ↔ t ∈ ts :=
  (sort_perm ts).mem_iff

/-- A sorted list ascends. -/
theorem sort_pairwise (ts : List Text) : (sort ts).Pairwise fun s t => le s t = true :=
  @List.pairwise_mergeSort _ le (fun _ _ _ => le_trans) le_total ts

/-- The order in which texts come does not matter for their sorted list. -/
theorem sort_eq_of_perm {ss ts : List Text} (h : ss.Perm ts) : sort ss = sort ts :=
  List.Perm.eq_of_pairwise (fun _ _ _ _ => le_antisymm) (sort_pairwise ss) (sort_pairwise ts)
    ((sort_perm ss).trans (h.trans (sort_perm ts).symm))

/-- A text can be taken away before or after sorting. -/
theorem sort_erase (ts : List Text) (t : Text) : sort (ts.erase t) = (sort ts).erase t :=
  List.Perm.eq_of_pairwise (fun _ _ _ _ => le_antisymm) (sort_pairwise (ts.erase t))
    ((sort_pairwise ts).sublist List.erase_sublist)
    ((sort_perm (ts.erase t)).trans ((sort_perm ts).symm.erase t))

end Text

end FileSweep
