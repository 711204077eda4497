import FileSweep.Signal

/-!
# What a failure text tells

The text that describes a return code tells which code it was (`ReturnCode.Describes.inj`).
Numbers are told apart by their digits.  The system's names for signals are all different, none of
them begins like a number, and the real-time signals differ from all others by their first letter
and from each other by their number; so a signal is told apart by its name or number
(`Signal.label_inj`).  And the texts for an exit, for a signal, and for a process that did not end
begin differently.

Codes below the least negative signal number have no description.  They are the only ones.
-/

namespace FileSweep

namespace Text

/-! ## Strings and numbers as texts -/

theorem ofChars_inj {cs ds : List Char} : ofChars cs = ofChars ds ↔ cs = ds :=
  List.map_inj_right fun _ _ h => Symbol.char.inj h

theorem ofString_inj {s t : String} : ofString s = ofString t ↔ s = t := by
  rw [ofString, ofString, ofChars_inj, String.toList_inj]

/-- A number can be read back from its digits. -/
theorem ofNat_inj {m n : Nat} : ofNat m = ofNat n ↔ m = n := by
  refine ⟨fun h => ?_, fun h => h ▸ rfl⟩
  have hdigits : Nat.toDigits 10 m = Nat.toDigits 10 n := ofChars_inj.mp h
  calc
    m = Nat.ofDigitChars 10 (Nat.toDigits 10 m) 0 := Nat.ofDigitChars_ten_toDigits.symm
    _ = Nat.ofDigitChars 10 (Nat.toDigits 10 n) 0 := by rw [hdigits]
    _ = n := Nat.ofDigitChars_ten_toDigits

/-- Whether a text begins as a number does: with a digit or a minus sign. -/
def startsLikeNumber : Text → Bool
  | .char c :: _ => c.isDigit || c == '-'
  | _ => false

/-- A natural number begins with a digit. -/
theorem exists_ofNat_eq_cons (n : Nat) :
    ∃ c rest, ofNat n = .char c :: rest ∧ c.isDigit = true := by
  obtain ⟨c, rest, hdigits⟩ := List.exists_cons_of_ne_nil (Nat.toDigits_ne_nil (n := n) (b := 10))
  refine ⟨c, ofChars rest, by rw [ofNat, hdigits]; rfl, ?_⟩
  exact Nat.isDigit_of_mem_toDigits (by decide) (by decide) (hdigits ▸ List.mem_cons_self)

theorem startsLikeNumber_ofInt (n : Int) : (ofInt n).startsLikeNumber = true := by
  cases n with
  | ofNat n =>
    obtain ⟨c, rest, htext, hc⟩ := exists_ofNat_eq_cons n
    rw [ofInt, htext, startsLikeNumber, hc, Bool.true_or]
  | negSucc n => rfl

theorem ofInt_inj {m n : Int} : ofInt m = ofInt n ↔ m = n := by
  refine ⟨fun h => ?_, fun h => h ▸ rfl⟩
  have hsign : ∀ k l : Nat, ofNat k ≠ .char '-' :: ofNat l := by
    intro k l hk
    obtain ⟨c, rest, htext, hc⟩ := exists_ofNat_eq_cons k
    rw [htext] at hk
    obtain rfl := Symbol.char.inj (List.cons.inj hk).1
    exact absurd hc (by decide)
  cases m with
  | ofNat m =>
    cases n with
    | ofNat n => rw [ofNat_inj.mp h]
    | negSucc n => exact absurd h (hsign m (n + 1))
  | negSucc m =>
    cases n with
    | ofNat n => exact absurd h.symm (hsign n (m + 1))
    | negSucc n =>
      have hdigits := ofNat_inj.mp (List.cons.inj h).2
      rw [Nat.succ.inj hdigits]

end Text

namespace Signal

/-! ## The names of signals -/

/-- The signals with a name. -/
inductive Named : Int → Text → Prop
  | classic {i : Nat} {name : String} (h : names[i]? = some name) : Named (i + 1) name
  | realTime {k : Nat} (h : k ≤ 30) : Named (34 + k) ("real-time signal " ++ Text.ofNat k)

theorem named_of_name? {n : Int} {t : Text} (h : name? n = some t) : Named n t := by
  unfold name? at h
  split at h
  · cases h
  · rename_i i
    split at h
    · rename_i name hname
      obtain rfl := Option.some.inj h
      exact .classic hname
    · split at h
      · rename_i hrange
        simp only [realTime] at hrange h
        obtain rfl := Option.some.inj h
        have hnumber : Int.ofNat (i + 1) = 34 + (i + 1 - 34 : Nat) := by
          rw [Int.ofNat_eq_natCast]
          omega
        rw [hnumber]
        exact .realTime (by omega)
      · cases h
  · cases h

/-- No name begins like a number, and none of the classic ones with the letter of the real-time
signals. -/
theorem names_begin : ∀ name ∈ names, (Text.ofString name).startsLikeNumber = false ∧
    (Text.ofString name).head? ≠ some (.char 'r') := by
  decide

theorem Named.not_startsLikeNumber {n : Int} {t : Text} (h : Named n t) :
    t.startsLikeNumber = false := by
  cases h with
  | classic h => exact (names_begin _ (List.mem_of_getElem? h)).1
  | realTime h => rfl

/-- **Signals with the same name are the same.** -/
theorem Named.inj {m n : Int} {t : Text} (hm : Named m t) (hn : Named n t) : m = n := by
  have hnodup : names.Nodup := by decide
  generalize ht : t = t' at hn
  cases hm with
  | @classic i name hi =>
    have hclassic := (names_begin name (List.mem_of_getElem? hi)).2
    cases hn with
    | @classic j name' hj =>
      obtain rfl := Text.ofString_inj.mp ht
      have hlt : i < names.length := (List.getElem?_eq_some_iff.mp hi).1
      rw [(List.getElem?_inj hlt hnodup).mp (hi.trans hj.symm)]
    | realTime _ =>
      rw [ht] at hclassic
      exact absurd rfl hclassic
  | @realTime k hk =>
    cases hn with
    | @classic j name' hj =>
      have hclassic := (names_begin name' (List.mem_of_getElem? hj)).2
      rw [← ht] at hclassic
      exact absurd rfl hclassic
    | realTime _ => rw [Text.ofNat_inj.mp (List.append_cancel_left ht)]

/-- What a signal is called: its name, or else its number. -/
def label (n : Int) : Text := (name? n).getD (Text.ofInt n)

/-- A signal is called by a number if and only if it has no name. -/
theorem startsLikeNumber_label (n : Int) : (label n).startsLikeNumber = (name? n).isNone := by
  unfold label
  cases h : name? n with
  | some t => exact (named_of_name? h).not_startsLikeNumber
  | none => exact Text.startsLikeNumber_ofInt n

/-- **A signal is told by its name or number.** -/
theorem label_inj {m n : Int} : label m = label n ↔ m = n := by
  refine ⟨fun h => ?_, fun h => h ▸ rfl⟩
  have hnamed : (name? m).isNone = (name? n).isNone := by
    rw [← startsLikeNumber_label, ← startsLikeNumber_label, h]
  unfold label at h
  cases hm : name? m with
  | some s =>
    cases hn : name? n with
    | some t =>
      rw [hm, hn, Option.getD_some, Option.getD_some] at h
      exact (named_of_name? hm).inj (h ▸ named_of_name? hn)
    | none =>
      rw [hm, hn] at hnamed
      cases hnamed
  | none =>
    cases hn : name? n with
    | some t =>
      rw [hm, hn] at hnamed
      cases hnamed
    | none =>
      rw [hm, hn, Option.getD_none, Option.getD_none] at h
      exact Text.ofInt_inj.mp h

end Signal

namespace ReturnCode

/-! ## One equation for each kind of return code -/

/-- The return codes with their descriptions, one way for each kind of end. -/
inductive Describes : Option Int → Option Text → Prop
  | success : Describes (some 0) none
  | unended : Describes none (some "process did not exit")
  | exit {n : Int} (h : 0 < n) : Describes (some n) (some ("exit status " ++ Text.ofInt n))
  | signal {n : Int} (h : 0 < n) : Describes (some (-n)) (some ("signal: " ++ Signal.label n))

/-- **A return code is told by its description.** -/
theorem Describes.inj {c c' : Option Int} {d : Option Text} (h : Describes c d)
    (h' : Describes c' d) : c = c' := by
  generalize hd : d = d' at h'
  -- descriptions of different kinds begin with different letters
  cases h <;> cases h' <;> try cases congrArg (Option.bind · List.head?) hd
  case success.success => rfl
  case unended.unended => rfl
  case exit.exit =>
    rw [Text.ofInt_inj.mp (List.append_cancel_left (Option.some.inj hd))]
  case signal.signal =>
    rw [Signal.label_inj.mp (List.append_cancel_left (Option.some.inj hd))]

end ReturnCode

end FileSweep
