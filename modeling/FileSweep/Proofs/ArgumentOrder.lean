import FileSweep.Command.Arguments

/-!
# Command lines made of groups

A command line is usually made of groups that mean something each by itself: a switch with its
value, behind it or attached to it, the verbose switch, or a directory; and at the end there may
be the mark with one more directory, whatever that looks like (`CommandLine`).  Such a command
line is read the same in any order of its groups, and however its switches are cut short.

Each group is classified by itself (`Group.classifyAll_words`).  What has been read of the groups
so far is a function of them (`Group.draft`), and consuming a further group goes on to the draft
with that group (`Group.consume_tokens`).  What comes of the whole is then seen from its
directories alone: there has to be one (`CommandLine.read_of_one`).
-/

namespace FileSweep

namespace Text

/-! ## Cutting at a character -/

variable {c : Char} {s : Text}

theorem cutAt_of_notMem (h : .char c ∉ s) : cutAt c s = none := by
  induction s with
  | nil => rfl
  | cons a s ih =>
    obtain ⟨ha, hs⟩ := not_or.mp (mt List.mem_cons.mpr h)
    rw [cutAt, if_neg (Ne.symm ha), ih hs]
    rfl

theorem cutAt_append_cons (h : .char c ∉ s) (t : Text) :
    cutAt c (s ++ .char c :: t) = some (s, t) := by
  induction s with
  | nil => exact if_pos rfl
  | cons a s ih =>
    obtain ⟨ha, hs⟩ := not_or.mp (mt List.mem_cons.mpr h)
    rw [List.cons_append, cutAt, if_neg (Ne.symm ha), ih hs]
    rfl

end Text

namespace Switch

/-! ## Spellings -/

/-- A way to write a switch: its long spelling, or a beginning of it with at least one letter. -/
structure Spelling (s : Switch) where
  text : Text
  begins : text <+: s.long
  letter : 2 < text.length

/-- Whether a text is a spelling of the switch and of no other: it is the only one that begins so,
and the text is not mistaken for the mark, for the short switch, or for one with a value. -/
structure Identifies (o : Text) (s : Switch) : Prop where
  dash : o.head? = some (.char '-')
  ne_dash : o ≠ [.char '-']
  ne_short : o ≠ shortHelp
  ne_mark : o ≠ Token.mark
  marked : Token.mark <+: o
  unattached : .char '=' ∉ o
  unique : beginning o = [s]
  full : ofLong? o = none ∨ ofLong? o = some s

instance (o : Text) (s : Switch) : Decidable (Identifies o s) :=
  decidable_of_iff
    ((o.head? = some (.char '-') ∧ o ≠ [.char '-'] ∧ o ≠ shortHelp ∧ o ≠ Token.mark) ∧
      Token.mark <+: o ∧ .char '=' ∉ o ∧ beginning o = [s] ∧
        (ofLong? o = none ∨ ofLong? o = some s))
    ⟨fun ⟨⟨h₁, h₂, h₃, h₄⟩, h₅, h₆, h₇, h₈⟩ => ⟨h₁, h₂, h₃, h₄, h₅, h₆, h₇, h₈⟩,
      fun h => ⟨⟨h.1, h.2, h.3, h.4⟩, h.5, h.6, h.7, h.8⟩⟩

theorem identifies_take (s : Switch) :
    ∀ n < s.long.length + 1, 2 < n → Identifies (s.long.take n) s := by
  cases s <;> decide

theorem Spelling.identifies {s : Switch} (o : s.Spelling) : Identifies o.text s := by
  have htake : o.text = s.long.take o.text.length := List.prefix_iff_eq_take.mp o.begins
  rw [htake]
  exact identifies_take s _ (Nat.lt_succ_of_le o.begins.length_le) o.letter

end Switch

namespace Token

open Switch (Spelling)

/-! ## How they are classified -/

variable {s : Switch}

theorem classify_of_dash {t : Text} (hdash : t.head? = some (.char '-')) (hne : t ≠ [.char '-'])
    (hshort : t ≠ Switch.shortHelp) :
    classify t = (Switch.ofLong? t).elim (dashed t) fun s => .ok (.switch s none) := by
  rw [classify, if_neg fun h => h.elim (absurd hdash) hne, if_neg hshort]
  cases Switch.ofLong? t <;> rfl

/-- **Every spelling of a switch is that switch.** -/
theorem classify_spelling (o : Spelling s) : classify o.text = .ok (.switch s none) := by
  have h := o.identifies
  rw [classify_of_dash h.dash h.ne_dash h.ne_short]
  rcases h.full with hfull | hfull
  · have hmarked : mark.isPrefixOf o.text = true := List.isPrefixOf_iff_prefix.mpr h.marked
    simp only [hfull, Option.elim_none, dashed, Text.cutAt_of_notMem h.unattached,
      Option.bind_none, hmarked, if_true, abbreviation, h.unique]
  · rw [hfull, Option.elim_some]

/-- A spelling with a value attached is the switch with that value. -/
theorem classify_attached (o : Spelling s) (v : Text) :
    classify (o.text ++ .char '=' :: v) = .ok (.switch s (some v)) := by
  have h := o.identifies
  have hmem : Symbol.char '=' ∈ o.text ++ .char '=' :: v := by simp
  have hwhole : ∀ t : Text, .char '=' ∉ t → o.text ++ .char '=' :: v ≠ t := by
    rintro t ht rfl
    exact ht hmem
  have hlong : Switch.ofLong? (o.text ++ .char '=' :: v) = none := by
    refine List.find?_eq_none.mpr fun s' _ => ?_
    have hs' : .char '=' ∉ s'.long := by cases s' <;> decide
    simpa using Ne.symm (hwhole _ hs')
  have hdash : (o.text ++ .char '=' :: v).head? = some (.char '-') := by
    rw [List.head?_append, h.dash, Option.some_or]
  have hcut := Text.cutAt_append_cons h.unattached v
  rw [classify_of_dash hdash (hwhole _ (by decide)) (hwhole _ (by decide)), hlong,
    Option.elim_none]
  rcases h.full with hfull | hfull
  · have hmarked : mark.isPrefixOf (o.text ++ .char '=' :: v) = true :=
      List.isPrefixOf_iff_prefix.mpr (h.marked.trans (List.prefix_append _ _))
    simp only [dashed, hcut, Option.bind_some, h.ne_short, if_false, hfull, Option.map_none,
      hmarked, if_true, abbreviation, h.unique]
  · simp only [dashed, hcut, Option.bind_some, h.ne_short, if_false, hfull, Option.map_some]

/-- Whether a text is no switch by its beginning: it has no dash there, or is empty. -/
def Dashless (t : Text) : Prop := t.head? ≠ some (.char '-')

instance (t : Text) : Decidable (Dashless t) := inferInstanceAs (Decidable (_ ≠ _))

theorem classify_dashless {t : Text} (h : Dashless t) : classify t = .ok (.plain t) :=
  if_pos (.inl h)

theorem Dashless.ne_mark {t : Text} (h : Dashless t) : t ≠ mark := by
  rintro rfl
  exact h rfl

theorem classifyAll_cons {t : Text} {token : Token} (hmark : t ≠ mark)
    (h : classify t = .ok token) (argv : List Text) :
    classifyAll (t :: argv) = (classifyAll argv).map fun r => (token :: r.1, r.2) := by
  rw [classifyAll, if_neg hmark, h]
  cases classifyAll argv <;> rfl

end Token

namespace Arguments

open Token (Dashless)

/-! ## Groups of arguments -/

/-- The switches that take a value. -/
inductive Valued
  | executable
  | extension
  deriving DecidableEq

/-- Such a switch as one of all. -/
def Valued.switch : Valued → Switch
  | .executable => .executable
  | .extension => .extension

/-- Arguments that mean something by themselves. -/
inductive Group
  /-- a switch with its value behind it -/
  | apart (s : Valued) (o : s.switch.Spelling) (v : Text) (hv : Dashless v)
  /-- a switch with its value attached -/
  | attached (s : Valued) (o : s.switch.Spelling) (v : Text) (hv : v ≠ Token.mark)
  | verbose (o : Switch.verbose.Spelling)
  | place (t : Text) (ht : Dashless t)

namespace Group

/-- The arguments of a group. -/
def words : Group → List Text
  | apart _ o v _ => [o.text, v]
  | attached _ o v _ => [o.text ++ .char '=' :: v]
  | verbose o => [o.text]
  | place t _ => [t]

/-- The arguments of a group by what they are. -/
def tokens : Group → List Token
  | apart s _ v _ => [.switch s.switch none, .plain v]
  | attached s _ v _ => [.switch s.switch (some v)]
  | verbose _ => [.switch .verbose none]
  | place t _ => [.plain t]

/-- **A group is classified by itself.** -/
theorem classifyAll_words (g : Group) (argv : List Text) :
    Token.classifyAll (g.words ++ argv) =
      (Token.classifyAll argv).map fun r => (g.tokens ++ r.1, r.2) := by
  cases g with
  | apart s o v hv =>
    have hvalue := Token.classifyAll_cons hv.ne_mark (Token.classify_dashless hv) argv
    have hswitch := Token.classifyAll_cons o.identifies.ne_mark (Token.classify_spelling o)
      (v :: argv)
    simp only [words, tokens, List.cons_append, List.nil_append, hswitch, hvalue]
    cases Token.classifyAll argv <;> rfl
  | attached s o v hv =>
    have hmark : o.text ++ .char '=' :: v ≠ Token.mark := by
      intro h
      have hmem : Symbol.char '=' ∈ Token.mark := h ▸ by simp
      exact absurd hmem (by decide)
    exact Token.classifyAll_cons hmark (Token.classify_attached o v) argv
  | verbose o =>
    exact Token.classifyAll_cons o.identifies.ne_mark (Token.classify_spelling o) argv
  | place t ht => exact Token.classifyAll_cons ht.ne_mark (Token.classify_dashless ht) argv

/-! ### What groups amount to -/

/-- The directory that a group names. -/
def place? : Group → Option Text
  | place t _ => some t
  | _ => none

/-- The value that a group gives to a switch. -/
def value? (s : Valued) : Group → Option Text
  | apart s' _ v _ => if s' = s then some v else none
  | attached s' _ v _ => if s' = s then some v else none
  | _ => none

/-- Whether a group is the verbose switch. -/
def isVerbose : Group → Bool
  | verbose _ => true
  | _ => false

/-- The directories that groups name. -/
def places (gs : List Group) : List Text := gs.filterMap place?

/-- The last value that groups give to a switch. -/
def lastValue (s : Valued) (gs : List Group) : Option Text := (gs.filterMap (value? s)).getLast?

/-- What has been consumed after these groups. -/
def draft (gs : List Group) : Draft where
  directory := (places gs).head?
  executable := (lastValue .executable gs).map .text
  extension := (lastValue .extension gs).map .text
  verbose := gs.any isVerbose
  leftOver := (places gs).tail

/-- The draft with a further group. -/
def addTo (d : Draft) : Group → Draft
  | apart s _ v _ => d.give (.text v) s.switch
  | attached s _ v _ => d.give (.text v) s.switch
  | verbose _ => { d with verbose := true }
  | place t _ =>
    match d.directory with
    | none => { d with directory := some t }
    | some _ => d.leave [t]

theorem places_concat (gs : List Group) (g : Group) :
    places (gs ++ [g]) = places gs ++ g.place?.toList := by
  rw [places, List.filterMap_append]
  cases hg : g.place? <;> simp [places, hg]

theorem lastValue_concat (s : Valued) (gs : List Group) (g : Group) :
    lastValue s (gs ++ [g]) = (g.value? s).or (lastValue s gs) := by
  rw [lastValue, List.filterMap_append, List.getLast?_append]
  cases hg : g.value? s <;> simp [lastValue, hg]

theorem draft_concat (gs : List Group) (g : Group) : draft (gs ++ [g]) = g.addTo (draft gs) := by
  rw [draft, places_concat, lastValue_concat, lastValue_concat, List.any_append]
  cases g with
  | apart s o v hv =>
    cases s <;> simp [draft, addTo, place?, value?, isVerbose, Draft.give, Valued.switch]
  | attached s o v hv =>
    cases s <;> simp [draft, addTo, place?, value?, isVerbose, Draft.give, Valued.switch]
  | verbose o => simp [draft, addTo, place?, value?, isVerbose]
  | place t ht =>
    cases hplaces : places gs with
    | nil => simp [draft, addTo, hplaces, place?, value?, isVerbose]
    | cons first more =>
      simp [draft, addTo, hplaces, place?, value?, isVerbose, Draft.leave]

/-! ### Consuming groups -/

/-- What may come of a draft at the end of the groups: it is closed with what stands behind the
mark, or its directory stood last, and all that is left over. -/
inductive Closed (rest : Option (List Text)) (d : Draft) : Draft → Prop
  | close : Closed rest d (d.close rest)
  | leave (h : d.directory ≠ none) : Closed rest d (d.leave (rest.getD []))

/-- **Consuming a group** goes on to the draft with that group, if it is not the first directory
and the last group at once. -/
theorem consume_tokens (rest : Option (List Text)) (d : Draft) (g : Group) {more : List Token}
    (hmore : d.directory = none → more = [] → g.place? = none) :
    consume rest d (g.tokens ++ more) = consume rest (g.addTo d) more := by
  cases g with
  | apart s o v hv => cases s <;> simp [tokens, addTo, consume, Valued.switch]
  | attached s o v hv =>
    cases s <;> simp [tokens, addTo, consume, Valued.switch, attachedValue, hv]
  | verbose o => simp [tokens, addTo, consume]
  | place t ht =>
    cases hd : d.directory with
    | some dir => simp [tokens, addTo, consume, hd]
    | none =>
      have hne : more ≠ [] := fun h => nomatch hmore hd h
      simp [tokens, addTo, consume, hd]

/-- The first directory takes the mark with it, if it is the last group at once. -/
theorem consume_tokens_last (rest : Option (List Text)) {d : Draft} {g : Group}
    (hd : d.directory = none) (hg : g.place? ≠ none) :
    consume rest d g.tokens = .ok ((g.addTo d).leave (rest.getD [])) ∧
      (g.addTo d).directory ≠ none := by
  cases g with
  | apart => exact absurd rfl hg
  | attached => exact absurd rfl hg
  | verbose => exact absurd rfl hg
  | place t ht => simp [tokens, addTo, consume, hd]

theorem tokens_ne_nil (g : Group) : g.tokens ≠ [] := by
  cases g <;> exact List.cons_ne_nil _ _

theorem flatMap_tokens_eq_nil {gs : List Group} (h : gs.flatMap tokens = []) : gs = [] := by
  cases gs with
  | nil => rfl
  | cons g gs => exact absurd (List.flatMap_eq_nil_iff.mp h g List.mem_cons_self) g.tokens_ne_nil

/-- **Consuming groups** ends with their draft. -/
theorem consume_groups (rest : Option (List Text)) (seen todo : List Group) :
    ∃ d, consume rest (draft seen) (todo.flatMap tokens) = .ok d ∧
      Closed rest (draft (seen ++ todo)) d := by
  induction todo generalizing seen with
  | nil => exact ⟨_, rfl, by simpa using .close⟩
  | cons g todo ih =>
    have hrest := ih (seen ++ [g])
    rw [List.append_assoc, List.singleton_append, draft_concat] at hrest
    rw [List.flatMap_cons]
    by_cases hlast : (draft seen).directory = none ∧ todo = [] ∧ g.place? ≠ none
    · obtain ⟨hd, rfl, hg⟩ := hlast
      obtain ⟨hconsume, hdirectory⟩ := consume_tokens_last rest hd hg
      rw [List.flatMap_nil, List.append_nil, draft_concat]
      exact ⟨_, hconsume, .leave hdirectory⟩
    · rw [consume_tokens rest _ g fun hd hmore => Decidable.of_not_not fun hg =>
        hlast ⟨hd, flatMap_tokens_eq_nil hmore, hg⟩]
      exact hrest

end Group

/-! ## Command lines -/

/-- Groups of arguments, and maybe a directory behind the mark. -/
structure CommandLine where
  groups : List Group
  behind : Option Text

namespace CommandLine

variable (l : CommandLine)

/-- The arguments. -/
def argv : List Text :=
  l.groups.flatMap Group.words ++
    match l.behind with
    | none => []
    | some t => [Token.mark, t]

/-- All directories, that behind the mark included. -/
def places : List Text := Group.places l.groups ++ l.behind.toList

/-- The last value that is given to a switch. -/
def value (s : Valued) : Option Text := Group.lastValue s l.groups

/-- Whether the verbose switch is there. -/
def asksVerbose : Bool := l.groups.any Group.isVerbose

theorem classifyAll_argv :
    Token.classifyAll l.argv =
      .ok (l.groups.flatMap Group.tokens, l.behind.map ([·])) := by
  obtain ⟨groups, behind⟩ := l
  unfold argv
  dsimp only
  induction groups with
  | nil => cases behind <;> rfl
  | cons g groups ih =>
    rw [List.flatMap_cons, List.append_assoc, Group.classifyAll_words, ih]
    rfl

/-- What a draft tells of a command line that has been consumed: its first directory, the other
ones among what is left over, and all that the groups give. -/
structure Tells (d : Draft) : Prop where
  directory : d.directory = l.places.head?
  others : l.places.tail.Sublist d.leftOver
  nothing : l.places.tail = [] → d.leftOver = []
  executable : d.executable = (l.value .executable).map .text
  extension : d.extension = (l.value .extension).map .text
  verbose : d.verbose = l.asksVerbose

theorem tells_of_closed {d : Draft}
    (h : Group.Closed (l.behind.map ([·])) (Group.draft l.groups) d) : l.Tells d := by
  cases hplaces : Group.places l.groups with
  | nil =>
    cases h with
    | close =>
      cases hbehind : l.behind <;> constructor <;>
        simp [places, value, asksVerbose, Group.draft, Draft.close, Draft.leave, hplaces, hbehind]
    | leave hdirectory => exact absurd (by simp [Group.draft, hplaces]) hdirectory
  | cons first more =>
    -- with a directory among the groups, that behind the mark is left over in either way
    cases h <;> cases hbehind : l.behind <;> constructor <;>
      simp [places, value, asksVerbose, Group.draft, Draft.close, Draft.leave, hplaces, hbehind]

/-- **What is read of a command line** is made of a draft that tells of it. -/
theorem exists_read : ∃ d, read l.argv = ofDraft d ∧ l.Tells d := by
  obtain ⟨d, hconsume, hclosed⟩ := Group.consume_groups (l.behind.map ([·])) [] l.groups
  have hstart : consume (l.behind.map ([·])) {} (l.groups.flatMap Group.tokens) = .ok d := hconsume
  refine ⟨d, ?_, l.tells_of_closed hclosed⟩
  rw [read, classifyAll_argv]
  dsimp only
  rw [hstart]

/-- What a command line with one directory asks for. -/
def arguments (t : Text) : Arguments where
  directory := .ofText t
  executable := (l.value .executable).map .text
  extension := (l.value .extension).map .text
  verbose := l.asksVerbose

theorem read_of_none (h : l.places = []) : read l.argv = .error (.usage .directoryMissing) := by
  obtain ⟨d, hread, htells⟩ := l.exists_read
  have hdirectory := htells.directory
  rw [h] at hdirectory
  rw [hread, ofDraft, hdirectory]
  rfl

theorem read_of_one {t : Text} (h : l.places = [t]) : read l.argv = .ok (l.arguments t) := by
  obtain ⟨d, hread, htells⟩ := l.exists_read
  have hdirectory := htells.directory
  have hleft := htells.nothing (by rw [h]; rfl)
  rw [h] at hdirectory
  rw [hread, ofDraft, hdirectory, hleft]
  simp [arguments, htells.executable, htells.extension, htells.verbose]

theorem read_of_several {t : Text} {others : List Text} (h : l.places = t :: others)
    (hne : others ≠ []) :
    ∃ left, read l.argv = .error (.usage (.unrecognized left)) ∧ others.Sublist left := by
  obtain ⟨d, hread, htells⟩ := l.exists_read
  have hdirectory := htells.directory
  have hothers := htells.others
  rw [h] at hdirectory hothers
  obtain ⟨u, left, hleft⟩ := List.exists_cons_of_ne_nil fun hnil : d.leftOver = [] =>
    hne (List.eq_nil_of_sublist_nil (hnil ▸ hothers))
  refine ⟨d.leftOver, ?_, hothers⟩
  rw [hread, ofDraft, hdirectory, hleft]
  rfl

end CommandLine

/-- Without a value for the extension, the one that is set might as well be offered. -/
theorem extensionFrom_map (v : Option Text) :
    Settings.extensionFrom (v.map .text) =
      Settings.extensionFrom (some (.text (v.getD Settings.default.extension))) := by
  cases v with
  | none =>
    have hform : Text.extensionForm? Settings.default.extension =
        some Settings.default.extension := by decide
    rw [Option.getD_none, Settings.extensionFrom, hform]
    rfl
  | some t => rfl

/-- **Neither the order of arguments nor the spelling of switches matters.**  A command line of
groups, in any order and number, with or without a directory behind the mark, is taken if and
only if it names one directory in all.  That is then the directory to sweep, wherever it stands;
the last value of every switch counts, however it is given, and what is set by itself without
one; and the log is verbose if and only if the verbose switch is there.  Any other such command
line is a usage error. -/
theorem order_and_spelling_irrelevant (l : CommandLine) :
    ((∃ a, read l.argv = .ok a) ↔ l.places.length = 1) ∧
    (∀ t, l.places = [t] → ∃ a, read l.argv = .ok a ∧ a.directory = .ofText t ∧
      a.executable = (l.value .executable).map .text ∧
      Settings.executableFrom a.executable =
        .ok ((l.value .executable).elim Settings.default.executable .ofText) ∧
      a.extension = (l.value .extension).map .text ∧
      Settings.extensionFrom a.extension = Settings.extensionFrom
        (some (.text ((l.value .extension).getD Settings.default.extension))) ∧
      a.verbose = l.asksVerbose) ∧
    (l.places.length ≠ 1 → ∃ e, read l.argv = .error (.usage e)) := by
  have hrefused : l.places.length ≠ 1 → ∃ e, read l.argv = .error (.usage e) := by
    intro hlength
    cases hplaces : l.places with
    | nil => exact ⟨_, l.read_of_none hplaces⟩
    | cons t others =>
      have hne : others ≠ [] := by
        rintro rfl
        exact hlength (by rw [hplaces]; rfl)
      obtain ⟨left, hread, -⟩ := l.read_of_several hplaces hne
      exact ⟨_, hread⟩
  refine ⟨⟨?_, ?_⟩, ?_, hrefused⟩
  · rintro ⟨a, ha⟩
    refine Decidable.of_not_not fun hlength => ?_
    obtain ⟨e, he⟩ := hrefused hlength
    cases ha.symm.trans he
  · intro hlength
    obtain ⟨t, ht⟩ := List.length_eq_one_iff.mp hlength
    exact ⟨_, l.read_of_one ht⟩
  · intro t ht
    refine ⟨l.arguments t, l.read_of_one ht, rfl, rfl, ?_, rfl, extensionFrom_map _, rfl⟩
    unfold CommandLine.arguments
    cases l.value .executable <;> rfl

/-- A command line with three switches cut short, of which one is given twice, and with a
directory behind the mark that looks like a switch. -/
def cutShort : CommandLine where
  groups :=
    [.attached .extension ⟨"--e", by decide, by decide⟩ "-x" (by decide),
      .verbose ⟨"--verb", by decide, by decide⟩,
      .apart .executable ⟨"--test", by decide, by decide⟩ "bin/test" (by decide),
      .apart .extension ⟨"--extension", by decide, by decide⟩ "CHM" (by decide)]
  behind := some "--verbose"

/-- It is read in full. -/
theorem cutShort_read :
    cutShort.argv = (["--e=-x", "--verb", "--test", "bin/test", "--extension", "CHM", "--",
        "--verbose"] : List Text) ∧
      ∃ a, read cutShort.argv = .ok a ∧ a.directory = .ofText "--verbose" ∧
        a.executable = some (.text "bin/test") ∧ a.extension = some (.text "CHM") ∧
        a.verbose = true := by
  obtain ⟨-, hread, -⟩ := order_and_spelling_irrelevant cutShort
  obtain ⟨a, ha, hdirectory, hexecutable, -, hextension, -, hverbose⟩ := hread "--verbose" rfl
  exact ⟨by decide, a, ha, hdirectory, hexecutable, hextension, hverbose⟩

end Arguments

end FileSweep
