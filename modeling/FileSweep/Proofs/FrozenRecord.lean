import FileSweep.Proofs.ExtensionForm
import FileSweep.Settings.Record

/-!
# Records are frozen

Settings cannot be changed once they are made.  Every value for a name that is not reserved is
refused, and the refusal changes nothing (`Record.assignAll_ordinary`).  Reserved names can be
written to, but no such write reaches the settings, except for one that exchanges the table of
values as a whole (`Record.settings_assignAll`).  So the extension that is read from a record is in
normal form at all times (`Record.isExtensionForm_assignAll`).

One write that succeeds keeps what the record holds of the settings (`Record.Holds.assignTo`), one
that is refused keeps the record; the rest is induction on the writes.
-/

namespace FileSweep

namespace Record

variable {r r' : Record} {s : Settings} {name value : Value}

/-! ## One write -/

/-- Only reserved names can be written to. -/
theorem assignTo_cases (h : r.assignTo name value = .ok r') :
    ∃ t, name = .text t ∧ isReserved t = true ∧ r.assignReserved t value = .ok r' := by
  cases name with
  | text t =>
    refine ⟨t, rfl, ?_⟩
    simp only [assignTo, assign] at h
    split at h
    · cases h
    · split at h
      · exact ⟨‹_›, h⟩
      · cases h
  | null | truth | whole | fraction | list | table => cases h

/-- What a record has of the settings that it was made of. -/
structure Holds (r : Record) (s : Settings) : Prop where
  executable : r.values.lookup Settings.executableName = some (.text s.executable.text)
  extension : r.values.lookup Settings.extensionName = some (.text s.extension)

theorem holds_ofSettings (s : Settings) : (ofSettings s).Holds s where
  executable := rfl
  extension := by
    have hne : (Settings.extensionName == Settings.executableName) = false := by decide
    simp [ofSettings, List.lookup_cons, hne]

theorem Holds.settings (h : r.Holds s) :
    r.settings = .ok (.text s.executable.text, .text s.extension) := by
  have hexecutable : r.read Settings.executableName = .ok (.text s.executable.text) := by
    rw [read, h.executable]
  have hextension : r.read Settings.extensionName = .ok (.text s.extension) := by
    rw [read, h.extension]
  rw [Record.settings, hexecutable, hextension]
  rfl

/-- **A write that is not to the table keeps the settings.** -/
theorem Holds.assignTo (h : r.Holds s) (hname : name ≠ .text Part.values.name)
    (hok : r.assignTo name value = .ok r') : r'.Holds s := by
  obtain ⟨t, rfl, hreserved, hassign⟩ := assignTo_cases hok
  have htable : t ≠ Part.values.name := by
    rintro rfl
    exact hname rfl
  constructor
  · rw [lookup_assignReserved hreserved htable (by decide) hassign, h.executable]
  · rw [lookup_assignReserved hreserved htable (by decide) hassign, h.extension]

/-! ## Any number of writes -/

theorem Holds.assignAll (h : r.Holds s) {writes : List (Value × Value)}
    (hwrites : ∀ w ∈ writes, w.1 ≠ .text Part.values.name) : (r.assignAll writes).2.Holds s := by
  induction writes generalizing r with
  | nil => exact h
  | cons w writes ih =>
    obtain ⟨name, value⟩ := w
    obtain ⟨hname, hwrites⟩ := List.forall_mem_cons.mp hwrites
    unfold Record.assignAll
    cases hw : r.assignTo name value with
    | ok r' => exact ih (h.assignTo hname hw) hwrites
    | error e => exact ih h hwrites

/-- **Settings are read as they were made**, whatever was written in between, unless the table was
exchanged as a whole. -/
theorem settings_assignAll (s : Settings) {writes : List (Value × Value)}
    (hwrites : ∀ w ∈ writes, w.1 ≠ .text Part.values.name) :
    ((ofSettings s).assignAll writes).2.settings =
      .ok (.text s.executable.text, .text s.extension) :=
  ((holds_ofSettings s).assignAll hwrites).settings

/-- The table can be exchanged, and then the settings may be gone. -/
example : ((ofSettings .default).assignAll [(.text "__dict__", .table [])]).2.settings =
    .error (.absent "test_executable") := rfl

/-- **Every extension that is read is in normal form.** -/
theorem isExtensionForm_assignAll {offers : List (Text × Value)}
    (hoffers : Settings.ofOffers offers = .ok s) {writes : List (Value × Value)}
    (hwrites : ∀ w ∈ writes, w.1 ≠ .text Part.values.name) :
    ∃ executable e, ((ofSettings s).assignAll writes).2.settings = .ok (executable, .text e) ∧
      e.IsExtensionForm :=
  ⟨_, s.extension, settings_assignAll s hwrites, Settings.isExtensionForm_of_ofOffers hoffers⟩

/-! ## Ordinary names -/

/-- No reserved name has a value at first. -/
theorem lookup_ofSettings (s : Settings) {t : Text} (h : isReserved t = true) :
    (ofSettings s).values.lookup t = none := by
  have hexecutable : (t == Settings.executableName) = false :=
    beq_eq_false_iff_ne.mpr (ne_of_isReserved h (by decide))
  have hextension : (t == Settings.extensionName) = false :=
    beq_eq_false_iff_ne.mpr (ne_of_isReserved h (by decide))
  simp [ofSettings, List.lookup_cons, hexecutable, hextension]

theorem assignTo_ordinary (s : Settings) {t : Text} (h : isReserved t = false) (value : Value) :
    (ofSettings s).assignTo (.text t) value = .error (.frozen ⟨t, .unchangeable, value⟩) := by
  have hfree := hindrance?_of_forall (fun n hn => lookup_ofSettings s hn) t
  simp [Record.assignTo, assign, hfree, h]

/-- **Values for ordinary names are refused**, each for itself, and leave the record as it is. -/
theorem assignAll_ordinary (s : Settings) (writes : List (Text × Value))
    (h : ∀ w ∈ writes, isReserved w.1 = false) :
    (ofSettings s).assignAll (writes.map fun w => (.text w.1, w.2)) =
      (writes.map fun w => some (.frozen ⟨w.1, .unchangeable, w.2⟩), ofSettings s) := by
  induction writes with
  | nil => rfl
  | cons w writes ih =>
    obtain ⟨hw, hwrites⟩ := List.forall_mem_cons.mp h
    rw [List.map_cons, Record.assignAll, assignTo_ordinary s hw, ih hwrites, List.map_cons]

end Record

end FileSweep
