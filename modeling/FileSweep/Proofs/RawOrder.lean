import Mathlib
import FileSweep.Proofs.WalkOrder
import FileSweep.Proofs.WellFormed

/-!
# The order of raw names

The names of a directory are put in order as texts, by code point.  Where they are well-formed this
is the order of their bytes, in which other programs list them: UTF-8 is made so that the bytes of
a character come before those of every later one, whatever stands behind them
(`Utf8.encode_append_lt`).  So a walk through well-formed names is a walk that puts raw names in
order (`Walk.alongBy`), and it goes strictly upwards by the bytes of the names, too.

With stray bytes the two orders part: a byte may be greater than all that occur in UTF-8, and its
symbol still comes before many characters (`Text.stray_before_char`).
-/

namespace FileSweep

/-! ## Characters -/

section Bytes

variable {m n : Nat} {x y : List UInt8} (hn : n < 256)
include hn

theorem ofNat_cons_lt (hmn : m < n) : UInt8.ofNat m :: x < UInt8.ofNat n :: y :=
  .rel ((UInt8.ofNat_lt_iff_lt (Nat.lt_trans hmn hn) hn).mpr hmn)

/-- A byte that is not greater leaves the order to what follows, if it is not less. -/
theorem ofNat_cons_lt_of_le (hmn : m ≤ n) (h : m = n → x < y) :
    UInt8.ofNat m :: x < UInt8.ofNat n :: y := by
  rcases Nat.lt_or_eq_of_le hmn with hlt | rfl
  · exact ofNat_cons_lt hn hlt
  · exact .cons (h rfl)

end Bytes

namespace Utf8

/-- The order of spellings is that of code points.  A spelling of more bytes begins with a greater
byte; of two with as many bytes, the first byte that differs decides. -/
theorem Spelled.append_lt {m n : Nat} {s t : List UInt8} (hs : Spelled m s) (ht : Spelled n t)
    (hmn : m < n) (x y : List UInt8) : s ++ x < t ++ y := by
  cases hs with
  | one hm =>
    cases ht with
    | one hn => exact ofNat_cons_lt (by omega) hmn
    | two hn => exact ofNat_cons_lt (by omega) (by omega)
    | three hn _ => exact ofNat_cons_lt (by omega) (by omega)
    | four hn => exact ofNat_cons_lt (by omega) (by omega)
  | two hm =>
    cases ht with
    | one hn => omega
    | two hn =>
      refine ofNat_cons_lt_of_le (by omega) (by omega) fun hfirst => ?_
      exact ofNat_cons_lt (by omega) (by omega)
    | three hn _ => exact ofNat_cons_lt (by omega) (by omega)
    | four hn => exact ofNat_cons_lt (by omega) (by omega)
  | three hm _ =>
    cases ht with
    | one hn => omega
    | two hn => omega
    | three hn _ =>
      refine ofNat_cons_lt_of_le (by omega) (by omega) fun hfirst => ?_
      refine ofNat_cons_lt_of_le (by omega) (by omega) fun hsecond => ?_
      exact ofNat_cons_lt (by omega) (by omega)
    | four hn => exact ofNat_cons_lt (by omega) (by omega)
  | four hm =>
    cases ht with
    | one hn => omega
    | two hn => omega
    | three hn _ => omega
    | four hn =>
      refine ofNat_cons_lt_of_le (by omega) (by omega) fun hfirst => ?_
      refine ofNat_cons_lt_of_le (by omega) (by omega) fun hsecond => ?_
      refine ofNat_cons_lt_of_le (by omega) (by omega) fun hthird => ?_
      exact ofNat_cons_lt (by omega) (by omega)

/-- **UTF-8 keeps the order of characters.** -/
theorem encode_append_lt {c d : Char} (h : c.toNat < d.toNat) (x y : List UInt8) :
    String.utf8EncodeChar c ++ x < String.utf8EncodeChar d ++ y :=
  (spelled_char c).append_lt (spelled_char d) h x y

end Utf8

/-! ## Names -/

namespace Text

theorem toBytes_ofChars_lt {cs ds : List Char} (h : (ofChars cs).Lt (ofChars ds)) :
    (ofChars cs).toBytes < (ofChars ds).toBytes := by
  induction cs generalizing ds with
  | nil =>
    rcases ds with _ | ⟨d, ds⟩
    · cases h
    · obtain ⟨b, bytes, hd⟩ := List.exists_cons_of_ne_nil (@String.utf8EncodeChar_ne_nil d)
      rw [toBytes_ofChars_cons, hd]
      exact List.nil_lt_cons _ _
  | cons c cs ih =>
    rcases ds with _ | ⟨d, ds⟩
    · cases h
    rw [toBytes_ofChars_cons, toBytes_ofChars_cons]
    cases h with
    | rel hlt => exact Utf8.encode_append_lt hlt _ _
    | cons hrest => exact List.append_left_lt (ih hrest)

/-- **Well-formed names are in the order of their bytes.** -/
theorem IsWellFormed.toBytes_lt {s t : Text} (hs : s.IsWellFormed) (ht : t.IsWellFormed)
    (h : s.Lt t) : s.toBytes < t.toBytes := by
  obtain ⟨cs, rfl⟩ := isWellFormed_iff.mp hs
  obtain ⟨ds, rfl⟩ := isWellFormed_iff.mp ht
  exact toBytes_ofChars_lt h

/-- And so are lists of such names. -/
theorem map_toBytes_lt {u v : List Text} (h : List.Lex Text.Lt u v)
    (hu : ∀ n ∈ u, n.IsWellFormed) (hv : ∀ n ∈ v, n.IsWellFormed) :
    u.map toBytes < v.map toBytes := by
  induction h with
  | nil => exact .nil
  | rel hst => exact .rel ((hu _ List.mem_cons_self).toBytes_lt (hv _ List.mem_cons_self) hst)
  | cons _ ih =>
    exact .cons (ih (fun n hn => hu n (List.mem_cons_of_mem _ hn))
      fun n hn => hv n (List.mem_cons_of_mem _ hn))

theorem IsWellFormed.le_of_toBytes_le {s t : Text} (hs : s.IsWellFormed) (ht : t.IsWellFormed)
    (h : s.toBytes ≤ t.toBytes) : le s t = true := by
  by_contra hle
  have hts : le t s = true := by simpa [hle] using le_total s t
  have hne : t ≠ s := by
    rintro rfl
    exact hle (le_refl t)
  exact List.not_lt.mpr h (ht.toBytes_lt hs (lt_of_le_of_ne hts hne))

/-- The names in the order of their raw bytes. -/
def sortRaw (names : List Text) : List Text := (names.map toBytes).mergeSort.map ofBytes

section Sorting

variable {names : List Text} (h : ∀ n ∈ names, n.IsWellFormed)
include h

theorem sortRaw_perm : (sortRaw names).Perm names := by
  have hback : (names.map toBytes).map ofBytes = names := by
    rw [List.map_map]
    exact (List.map_congr_left fun n hn => (h n hn).ofBytes_toBytes).trans (List.map_id names)
  calc (sortRaw names).Perm ((names.map toBytes).map ofBytes) :=
        (List.mergeSort_perm (names.map toBytes) _).map ofBytes
    _ = names := hback

theorem sortRaw_pairwise : (sortRaw names).Pairwise fun s t => le s t = true := by
  have hbytes : (names.map toBytes).mergeSort.Pairwise fun a b => decide (a ≤ b) = true :=
    List.pairwise_mergeSort (by simpa using fun a b c => List.le_trans)
      (by simpa using fun a b => List.le_total a b) _
  refine List.pairwise_map.mpr (hbytes.imp_of_mem ?_)
  intro a b ha hb hab
  obtain ⟨s, hs, rfl⟩ := List.mem_map.mp (List.mem_mergeSort.mp ha)
  obtain ⟨t, ht, rfl⟩ := List.mem_map.mp (List.mem_mergeSort.mp hb)
  rw [(h s hs).ofBytes_toBytes, (h t ht).ofBytes_toBytes]
  exact (h s hs).le_of_toBytes_le (h t ht) (of_decide_eq_true hab)

/-- **The bytes of well-formed names, put in order, are the names in order.** -/
theorem sortRaw_eq_sort : sortRaw names = sort names :=
  List.Perm.eq_of_pairwise (fun _ _ _ _ => le_antisymm) (sortRaw_pairwise h)
    (sort_pairwise names) ((sortRaw_perm h).trans (sort_perm names).symm)

end Sorting

/-- Where a name has a stray byte, the orders part: a byte above those of UTF-8 comes behind every
character, but its symbol comes before those from U+E000 on. -/
theorem stray_before_char {low : Fin 128} {c : Char} (hlow : 0xF8 - 0x80 ≤ low.val)
    (hc : 0xE000 ≤ c.toNat) (s t : Text) :
    Text.Lt (.stray low :: s) (.char c :: t) ∧
      toBytes (.char c :: t) < toBytes (.stray low :: s) := by
  have hlow' := low.isLt
  constructor
  · refine .rel ?_
    simp only [Symbol.code]
    omega
  · rw [toBytes_cons, toBytes_cons]
    have hspelled := Utf8.spelled_char c
    simp only [Symbol.toBytes]
    generalize String.utf8EncodeChar c = bytes at hspelled
    cases hspelled with
    | one h => omega
    | two h => omega
    | three h _ => exact ofNat_cons_lt (by omega) (by omega)
    | four h => exact ofNat_cons_lt (by omega) (by omega)

end Text

/-! ## Paths -/

namespace Path

/-- What a path adds to `root`, as the raw names. -/
def rawBelow (root p : Path) : List (List UInt8) := (root.below p).map Text.toBytes

/-- Whether well-formed names lead from `root` to a path. -/
structure IsWellFormedBelow (root p : Path) : Prop where
  under : root.IsUnder p
  names : ∀ n ∈ root.below p, n.IsWellFormed

theorem isWellFormedBelow_refl (p : Path) : p.IsWellFormedBelow p :=
  ⟨p.isUnder_refl, by simp [below]⟩

theorem IsWellFormedBelow.child {root p : Path} (h : root.IsWellFormedBelow p) {name : Text}
    (hpart : name.IsPart) (hname : name.IsWellFormed) :
    root.IsWellFormedBelow (p.child name) := by
  refine ⟨h.under.child hpart, ?_⟩
  have hbelow : root.below (p.child name) = root.below p ++ [name] := by
    unfold below
    rw [(child_of_isPart p hpart).2, List.drop_append_of_le_length h.under.2.length_le]
  rw [hbelow]
  intro n hn
  rcases List.mem_append.mp hn with hn | hn
  · exact h.names n hn
  · exact List.mem_singleton.mp hn ▸ hname

/-- Below a root, paths of well-formed names are in the order of the bytes of the names. -/
theorem IsWellFormedBelow.rawBelow_lt {root p q : Path} (hp : root.IsWellFormedBelow p)
    (hq : root.IsWellFormedBelow q) (h : List.Lex Text.Lt (root.below p) (root.below q)) :
    root.rawBelow p < root.rawBelow q :=
  Text.map_toBytes_lt h hp.names hq.names

end Path

/-! ## Walks -/

namespace Walk

variable {σ : Type} [FileSystem σ]

/-- Whether all listings that were had are made of well-formed names. -/
def Trace.HasWellFormedNames (t : Trace σ) : Prop :=
  ∀ fs p names, (fs, .list p) ∈ t.asked → FileSystem.list fs p = .ok names →
    ∀ n ∈ names, n.IsWellFormed

/-- Whatever a walk looks at, it got there by well-formed names. -/
theorem isWellFormedBelow_of_lstats {fss : List σ} {root : Path}
    (h : (along fss (start root)).HasNames)
    (hwell : (along fss (start root)).HasWellFormedNames) :
    ∀ p ∈ (along fss (start root)).lstats, root.IsWellFormedBelow p := by
  refine (asked_induction root.IsWellFormedBelow root.IsWellFormedBelow fss (start root)
    ?_ ?_ ?_ ?_).1
  · simpa [start] using root.isWellFormedBelow_refl
  · simp [start]
  · exact fun _ _ _ hp _ => hp
  · intro fs p names hq hp hl n hn
    exact hp.child ((h fs p names hq hl).1 n hn) (hwell fs p names hq hl n hn)

/-! ## A walk by raw names -/

/-- Goes on to the next entry like `resume`, but puts the names of a directory in an order of its
own. -/
def resumeBy (arrange : List Text → List Text) (fs : σ) (w : Walk) : List Query × Step :=
  match w.opened with
  | none => reach fs w.pending
  | some p =>
    match FileSystem.list fs p with
    | .error e => ([.list p], .entry (.unlisted p e) ⟨none, w.pending⟩)
    | .ok names =>
      let (queries, step) := reach fs ((arrange names).map p.child ++ w.pending)
      (.list p :: queries, step)

/-- The trace of such a walk that meets the given file systems. -/
def alongBy (arrange : List Text → List Text) : List σ → Walk → Trace σ
  | [], _ => ⟨[], [], .suspended⟩
  | fs :: later, w =>
    let (queries, step) := w.resumeBy arrange fs
    let asked := queries.map (fs, ·)
    match step with
    | .finished => ⟨asked, [], .finished⟩
    | .fault f => ⟨asked, [], .fault f⟩
    | .entry e next =>
      let t := alongBy arrange later next
      ⟨asked ++ t.asked, e :: t.entries, t.rest⟩

theorem resumeBy_eq {arrange : List Text → List Text} {fs : σ} {w : Walk}
    (h : ∀ p ∈ w.opened, ∀ names, FileSystem.list fs p = .ok names →
      arrange names = Text.sort names) :
    w.resumeBy arrange fs = w.resume fs := by
  obtain ⟨opened, rest⟩ := w
  rcases opened with _ | p
  · rfl
  unfold resumeBy resume
  dsimp only
  cases hl : FileSystem.list fs p with
  | error e => rfl
  | ok names =>
    have hsame := h p rfl names hl
    dsimp only
    rw [hsame]
    rfl

/-- The order of names matters only in the listings that were had. -/
theorem alongBy_eq {arrange : List Text → List Text} (fss : List σ) (w : Walk)
    (h : ∀ fs p names, (fs, .list p) ∈ (along fss w).asked → FileSystem.list fs p = .ok names →
      arrange names = Text.sort names) :
    alongBy arrange fss w = along fss w := by
  induction fss generalizing w with
  | nil => rfl
  | cons fs later ih =>
    have hresume : w.resumeBy arrange fs = w.resume fs := by
      refine resumeBy_eq ?_
      intro p hp names hl
      obtain ⟨opened, rest⟩ := w
      obtain rfl : opened = some p := hp
      refine h fs p names ?_ hl
      rw [along_listed hl]
      exact List.mem_cons_self
    unfold along at h
    unfold alongBy along
    rw [hresume]
    cases hround : w.resume fs with
    | mk queries step =>
      rw [hround] at h
      cases step with
      | finished => rfl
      | fault f => rfl
      | entry e next =>
        have hlater := ih next fun fs' p names hq => h fs' p names (List.mem_append_right _ hq)
        dsimp only
        rw [hlater]

/-- **A walk through well-formed names is in the order of their bytes.**  Whatever happens to the
file system between its entries, a walk that gets only real, distinct and well-formed names from
its listings goes strictly upwards through the paths below its root, also by the bytes of their
names; and it asks the same questions, reports the same entries and ends in the same way as a walk
that puts the raw names in order. -/
theorem walk_in_raw_order (change : Nat → σ → σ) (rounds : Nat) (fs : σ) (root : Path)
    (h : (drive change rounds fs root).HasNames)
    (hwell : (drive change rounds fs root).HasWellFormedNames) :
    (∀ p ∈ (drive change rounds fs root).lstats, root.IsUnder p) ∧
      ((drive change rounds fs root).lstats.map root.rawBelow).Pairwise (· < ·) ∧
      drive change rounds fs root =
        alongBy Text.sortRaw (states change rounds 0 fs) (start root) := by
  rw [drive_eq_along] at h hwell ⊢
  have hascends := ascends_along h
  refine ⟨hascends.under, ?_, ?_⟩
  · have hbelow := isWellFormedBelow_of_lstats h hwell
    refine List.pairwise_map.mpr ((List.pairwise_map.mp hascends.upwards).imp_of_mem ?_)
    intro p q hp hq hlex
    exact (hbelow p hp).rawBelow_lt (hbelow q hq) hlex
  · refine (alongBy_eq _ _ ?_).symm
    intro fs' p names hq hl
    exact Text.sortRaw_eq_sort (hwell fs' p names hq hl)

/-! ## Names of many scripts -/

theorem hasWellFormedNames_of_disks {fss : List Disk} (w : Walk)
    (h : ∀ d ∈ fss, d.Holds fun node => ∀ n ∈ node.names, n.IsWellFormed) :
    (along fss w).HasWellFormedNames := by
  intro d p names hasked hlist
  obtain ⟨node, hnode, rfl⟩ := Disk.exists_node_of_list hlist
  exact h d (mem_of_asked hasked) _ node hnode

end Walk

/-- A directory whose names begin with characters of one to four bytes. -/
def Disk.manyScripts : Disk :=
  empty.set
    [("r", { kind := .dir, names := ["😀", "\uFFFD.chm", "é", "z", "a€.chm", "a"] }),
      ("r/a", { kind := .dir, names := ["x"] }),
      ("r/é", { kind := .file })]

/-- One of its directories comes to hold other names. -/
def Disk.scriptEdits : Edits where
  deleted := ["r/é"]
  set := [("r/a", { kind := .dir, names := ["ß", "\uE000", "𐀀"] }), ("r/a/ß", { kind := .file })]

namespace Walk

theorem lstats_manyScripts :
    (drive (fun _ d => d.apply Disk.scriptEdits) 20 Disk.manyScripts Disk.sampleRoot).lstats.map
        Path.text =
      ["r", "r/a", "r/a/ß", "r/a/\uE000", "r/a/𐀀", "r/a€.chm", "r/z", "r/é", "r/\uFFFD.chm",
        "r/😀"] := by
  cbv

/-- The directory is edited while it is walked through. -/
theorem manyScripts_in_raw_order :
    let t := drive (fun _ d => d.apply Disk.scriptEdits) 20 Disk.manyScripts Disk.sampleRoot
    t.HasNames ∧ t.HasWellFormedNames ∧ t.lstats.length = 10 ∧
      (t.lstats.map Disk.sampleRoot.rawBelow).Pairwise (· < ·) := by
  intro t
  have hnames : t.HasNames := by
    rw [show t = _ from drive_eq_along _ _ _ _]
    refine hasNames_of_disks _ (forall_states (fun _ d hd => ?_) ?_)
    · exact hd.apply (by decide)
    · exact (Disk.holds_empty _).set (by decide)
  have hwell : t.HasWellFormedNames := by
    rw [show t = _ from drive_eq_along _ _ _ _]
    refine hasWellFormedNames_of_disks _ (forall_states (fun _ d hd => ?_) ?_)
    · refine hd.apply ?_
      simp [Disk.scriptEdits, Text.isWellFormed_ofString]
    · refine (Disk.holds_empty _).set ?_
      simp [Text.isWellFormed_ofString]
  have hlength : t.lstats.length = 10 := by
    simpa using congrArg List.length lstats_manyScripts
  exact ⟨hnames, hwell, hlength, (walk_in_raw_order _ _ _ _ hnames hwell).2.1⟩

end Walk

end FileSweep
