import ProjectLens.Settings.Loader

/-! # Layers of settings

The settings are five values in the tables of a table. Laying a value over the place of a setting
replaces what was there, and laying one over any other place that is not around it or below it leaves
the setting as it is. So of several values for a setting the last one counts.

* `Setting.Has`: a table has a value as a member; `Setting.Has.put_of_ne`: it keeps it;
* `Leaf`: the settings one by one, with their places, their types and how they are read;
* `Leaf.Holds`: a table holds a value for a setting; `Leaf.Holds.put`, `Leaf.Holds.put_of_clear`: what
  one value that is laid over it does;
* `Leaf.Holds.putAll`, `Leaf.Holds.putFile`: what a layer of variables or flags, or a file does;
* `Settings.read_eq_ok`: the settings that a table holds. -/

namespace ProjectLens

/-! ## Members of tables -/

/-- `(setMember key value members).lookup other` is the new value at its key and what was there
elsewhere. -/
theorem lookup_setMember (key other : String) (value : Setting) (members : List (String × Setting)) :
    (setMember key value members).lookup other =
      if other = key then some value else members.lookup other := by
  -- looking up passes over a member of another name
  have hcons (name : String) (old : Setting) (rest : List (String × Setting)) :
      ((name, old) :: rest).lookup other = if other = name then some old else rest.lookup other := by
    rw [List.lookup_cons]
    by_cases h : other = name
    · rw [if_pos h, beq_iff_eq.mpr h]
    · rw [if_neg h, beq_eq_false_iff_ne.mpr h]
  induction members with
  | nil => exact hcons key value []
  | cons member rest ih =>
    obtain ⟨name, old⟩ := member
    rw [setMember]
    by_cases hname : name = key
    · rw [if_pos hname, hcons, hcons, hname]
      by_cases h : other = key
      · rw [if_pos h, if_pos h]
      · rw [if_neg h, if_neg h, if_neg h]
    · rw [if_neg hname, hcons, hcons, ih]
      by_cases h : other = name
      · rw [if_pos h, if_pos h, if_neg (h ▸ hname)]
      · rw [if_neg h, if_neg h]

namespace Setting

/-- **A table has a value as the member with a key.** -/
def Has (setting : Setting) (key : String) (value : Setting) : Prop :=
  ∃ origin members, setting = .table origin members ∧ members.lookup key = some value

namespace Has

variable {setting value other : Setting} {key name : String}

/-- `setting.Has key value → setting.get? key = some value`. -/
theorem get?_eq (h : setting.Has key value) : setting.get? key = some value := by
  obtain ⟨origin, members, rfl, hlookup⟩ := h
  exact hlookup

/-- Another member set leaves a member as it is. -/
theorem withMember_of_ne (h : setting.Has key value) (hne : name ≠ key) :
    (setting.withMember name other).Has key value := by
  obtain ⟨origin, members, rfl, hlookup⟩ := h
  exact ⟨origin, _, rfl, by rw [lookup_setMember, if_neg (Ne.symm hne), hlookup]⟩

/-- A member set again has the new value. -/
theorem withMember_self (h : setting.Has key value) : (setting.withMember key other).Has key other := by
  obtain ⟨origin, members, rfl, -⟩ := h
  exact ⟨origin, _, rfl, by rw [lookup_setMember, if_pos rfl]⟩

/-- Laying something over one member leaves the others as they are. -/
theorem overlay_of_ne (h : setting.Has key value) (hne : lowercase name ≠ key) :
    (setting.overlay name other).Has key value := by
  cases other <;> exact h.withMember_of_ne hne

/-- **Steps that lead to another member** leave a member as it is. -/
theorem put_of_ne (h : setting.Has key value) (hne : lowercase name ≠ key) (rest : List Step) :
    (put other (.key name :: rest) setting).Has key value := by
  cases rest with
  | nil => exact h.overlay_of_ne hne
  | cons step rest => exact h.withMember_of_ne hne

end Has

/-- Laying over many members is laying over one after the other. -/
theorem overlayAll_eq_foldl (root : Setting) (members : List (String × Setting)) :
    overlayAll root members = members.foldl (fun root member => root.overlay member.1 member.2) root := by
  induction members generalizing root with
  | nil => rfl
  | cons member rest ih =>
    obtain ⟨key, value⟩ := member
    rw [overlayAll, ih, List.foldl_cons]

end Setting

/-! ## What counts of several values -/

/-- **The last of several values counts**: if every step writes a value or leaves the one that was there,
there is in the end the last one that was written. -/
theorem foldl_last_write {σ β : Type} {step : σ → β → σ} {P : σ → Setting → Prop}
    {write : β → Option Setting} {items : List β}
    (hstep : ∀ item ∈ items, ∀ state value, P state value →
      P (step state item) ((write item).getD value))
    {state : σ} {value : Setting} (h : P state value) :
    P (items.foldl step state) ((items.filterMap write).getLast?.getD value) := by
  induction items generalizing state value with
  | nil => exact h
  | cons item rest ih =>
    have hfirst := hstep item List.mem_cons_self state value h
    have hrest := ih (fun item hitem => hstep item (List.mem_cons_of_mem _ hitem)) hfirst
    cases hwrite : write item with
    | none =>
      rw [hwrite, Option.getD_none] at hrest
      rwa [List.filterMap_cons_none hwrite]
    | some written =>
      rw [hwrite, Option.getD_some] at hrest
      rw [List.filterMap_cons_some hwrite, List.getLast?_cons]
      exact hrest

/-! ## The settings one by one -/

/-- One of the settings. -/
inductive Leaf where
  /-- Which messages go to the log. -/
  | level
  /-- Whether single steps of the reader go to the log. -/
  | traceReader
  /-- How positions on the command line are counted. -/
  | inputBasis
  /-- How results are printed. -/
  | format
  /-- Whether outlines show ranges and spans. -/
  | showRanges
  deriving DecidableEq, Repr

namespace Leaf

/-- What it can be. -/
def Value : Leaf → Type
  | .level => String
  | .traceReader => Bool
  | .inputBasis => Basis
  | .format => OutputFormat
  | .showRanges => Bool

/-- The key of the table it stands in. -/
def group : Leaf → String
  | .level | .traceReader => "logging"
  | .inputBasis => "positions"
  | .format | .showRanges => "output"

/-- Its key in that table. -/
def key : Leaf → String
  | .level => "level"
  | .traceReader => "trace_reader"
  | .inputBasis => "input_basis"
  | .format => "format"
  | .showRanges => "show_ranges"

/-- How it is read. -/
def read : (leaf : Leaf) → Setting → Except SettingsError leaf.Value
  | .level => readText
  | .traceReader => readBool
  | .inputBasis => Basis.choice.read
  | .format => OutputFormat.choice.read
  | .showRanges => readBool

/-- What it is. -/
def of (settings : Settings) : (leaf : Leaf) → leaf.Value
  | .level => settings.level
  | .traceReader => settings.traceReader
  | .inputBasis => settings.inputBasis
  | .format => settings.format
  | .showRanges => settings.showRanges

/-- What it is unless something else is asked for. -/
def preset : (leaf : Leaf) → leaf.Value
  | .level => "warn"
  | .traceReader => false
  | .inputBasis => .one
  | .format => .outline
  | .showRanges => false

/-- **A value is of the right kind for a setting**: it has no parts, and the setting can be read from
it. -/
structure Accepts (leaf : Leaf) (value : Setting) : Prop where
  /-- It has no parts. -/
  scalar : ∃ origin scalar, value = .scalar origin scalar
  /-- It is what the setting can be. -/
  reads : ∃ result, leaf.read value = .ok result

/-- **A table holds a value for a setting**, of the right kind, in the table that the setting stands
in. -/
structure Holds (leaf : Leaf) (root value : Setting) : Prop where
  /-- The value stands in its place. -/
  place : ∃ inner, root.Has leaf.group inner ∧ inner.Has leaf.key value
  /-- It is of the right kind. -/
  accepts : leaf.Accepts value

/-- Whether steps lead to a setting. -/
def isAt (leaf : Leaf) : List Step → Bool
  | [.key first, .key second] => lowercase first = leaf.group && lowercase second = leaf.key
  | _ => false

/-- **Steps lead past a setting**: to another table or another member of its table, or further on from
there. -/
inductive Clear (leaf : Leaf) : List Step → Prop where
  /-- To another table. -/
  | table {first : String} {rest : List Step} : lowercase first ≠ leaf.group →
      Clear leaf (.key first :: rest)
  /-- To another member. -/
  | member {first second : String} {rest : List Step} : lowercase second ≠ leaf.key →
      Clear leaf (.key first :: .key second :: rest)

namespace Holds

variable {leaf : Leaf} {root value other : Setting} {steps : List Step}

/-- **A value that is laid over the place of a setting** is the one that the table holds then. -/
theorem put (h : leaf.Holds root value) (hat : leaf.isAt steps = true) (hother : leaf.Accepts other) :
    leaf.Holds (Setting.put other steps root) other := by
  obtain ⟨⟨inner, hroot, hinner⟩, -⟩ := h
  refine ⟨?_, hother⟩
  unfold isAt at hat
  split at hat
  · next first second =>
    rw [Bool.and_eq_true, decide_eq_true_eq, decide_eq_true_eq] at hat
    obtain ⟨origin, scalar, rfl⟩ := hother.scalar
    refine ⟨(inner.overlay second (.scalar origin scalar)), ?_, ?_⟩
    · rw [Setting.put, Setting.put, hat.1, hroot.get?_eq]
      · exact hroot.withMember_self
      · simp
    · rw [Setting.overlay, hat.2]
      · exact hinner.withMember_self
      · simp
  · cases hat

/-- **A value that is laid over another place** changes nothing for a setting. -/
theorem put_of_clear (h : leaf.Holds root value) (hclear : leaf.Clear steps) :
    leaf.Holds (Setting.put other steps root) value := by
  obtain ⟨⟨inner, hroot, hinner⟩, haccepts⟩ := h
  refine ⟨?_, haccepts⟩
  cases hclear with
  | table hne => exact ⟨inner, hroot.put_of_ne hne _, hinner⟩
  | @member first second rest hne =>
    by_cases hfirst : lowercase first = leaf.group
    · refine ⟨Setting.put other (.key second :: rest) inner, ?_, hinner.put_of_ne hne rest⟩
      rw [Setting.put, hfirst, hroot.get?_eq]
      · exact hroot.withMember_self
      · simp
    · exact ⟨inner, hroot.put_of_ne hfirst _, hinner⟩

end Holds

/-! ## Layers -/

/-- A section's name is a key path of one step. -/
theorem keySteps_group (leaf : Leaf) : keySteps leaf.group = [.key leaf.group] := by
  cases leaf <;> decide +kernel

/-- The name of a section is in lower case. -/
theorem lowercase_group (leaf : Leaf) : lowercase leaf.group = leaf.group := by
  rw [lowercase_ascii (by cases leaf <;> decide +kernel)]
  cases leaf <;> decide +kernel

/-- The name of a leaf is in lower case. -/
theorem lowercase_key (leaf : Leaf) : lowercase leaf.key = leaf.key := by
  rw [lowercase_ascii (by cases leaf <;> decide +kernel)]
  cases leaf <;> decide +kernel

variable {leaf : Leaf}

/-- `leaf.Clear steps → leaf.isAt steps = false`: a path that is clear of a leaf is not its path. -/
theorem Clear.isAt_eq_false {steps : List Step} (h : leaf.Clear steps) : leaf.isAt steps = false := by
  rw [Bool.eq_false_iff]
  intro hat
  unfold isAt at hat
  split at hat
  · rw [Bool.and_eq_true, decide_eq_true_eq, decide_eq_true_eq] at hat
    cases h with
    | table hne => exact hne hat.1
    | member hne => exact hne hat.2
  · cases hat

/-- The steps to a setting. -/
def path (leaf : Leaf) : List Step := [.key leaf.group, .key leaf.key]

/-- The key that leads to a setting from outside all tables. -/
def fullKey : Leaf → String
  | .level => "logging.level"
  | .traceReader => "logging.trace_reader"
  | .inputBasis => "positions.input_basis"
  | .format => "output.format"
  | .showRanges => "output.show_ranges"

/-- `keySteps leaf.fullKey = leaf.path`: the dotted key of a leaf is read as its path. -/
theorem keySteps_fullKey (leaf : Leaf) : keySteps leaf.fullKey = leaf.path := by
  cases leaf <;> decide +kernel

/-- `leaf.isAt leaf.path = true`. -/
theorem isAt_path (leaf : Leaf) : leaf.isAt leaf.path = true := by
  rw [path, isAt, lowercase_group, lowercase_key]
  simp

/-- No two settings have the same key. -/
theorem key_ne {other : Leaf} (hne : other ≠ leaf) : other.key ≠ leaf.key := by
  revert hne
  cases other <;> cases leaf <;> decide

/-- The steps to a setting lead past every other one. -/
theorem clear_path {other : Leaf} (hne : other ≠ leaf) : leaf.Clear other.path :=
  .member (other.lowercase_key.symm ▸ key_ne hne)

/-- What a key and its value say of a setting. -/
def given? (leaf : Leaf) (assignment : String × Setting) : Option Setting :=
  if leaf.isAt (keySteps assignment.1) then some assignment.2 else none

/-- **Keys and their values fit a setting**: each leads to it and has a value of the right kind, or leads
past it. -/
def Fits (leaf : Leaf) (assignments : List (String × Setting)) : Prop :=
  ∀ assignment ∈ assignments,
    (leaf.isAt (keySteps assignment.1) = true ∧ leaf.Accepts assignment.2) ∨
      leaf.Clear (keySteps assignment.1)

/-- A key that leads to one of the settings fits all of them. -/
theorem fits_key {other : Leaf} {key : String} {value : Setting} (hkey : keySteps key = other.path)
    (haccepts : other.Accepts value) :
    (leaf.isAt (keySteps key) = true ∧ leaf.Accepts value) ∨ leaf.Clear (keySteps key) := by
  rw [hkey]
  by_cases hother : other = leaf
  · subst hother
    exact .inl ⟨other.isAt_path, haccepts⟩
  · exact .inr (clear_path hother)

/-- A pair whose key is a leaf's path gives that leaf its value, and no other leaf any. -/
theorem given?_key {other : Leaf} {key : String} (hkey : keySteps key = other.path) (value : Setting) :
    leaf.given? (key, value) = if other = leaf then some value else none := by
  rw [given?, hkey]
  by_cases hother : other = leaf
  · rw [if_pos hother, ← hother, if_pos other.isAt_path]
  · rw [if_neg hother, (clear_path hother).isAt_eq_false]
    rfl

/-- **Of several values the last one for a setting counts.** -/
theorem Holds.putAll {root value : Setting} {assignments : List (String × Setting)}
    (h : leaf.Holds root value) (hfits : leaf.Fits assignments) :
    leaf.Holds (root.putAll assignments) ((assignments.filterMap leaf.given?).getLast?.getD value) := by
  refine foldl_last_write (fun assignment hassignment root value h => ?_) h
  rcases hfits assignment hassignment with ⟨hat, haccepts⟩ | hclear
  · rw [given?, if_pos hat]
    exact h.put hat haccepts
  · rw [given?, hclear.isAt_eq_false]
    exact h.put_of_clear hclear

/-- What a member of a file says of a setting, if the member is the table that the setting stands in. A
key stands in a table only once; of several the last would count. -/
def inTable? (leaf : Leaf) (member : String × Setting) : Option Setting :=
  if member.1 = leaf.group then
    (member.2.members.filterMap fun inner =>
      if inner.1 = leaf.key then some inner.2 else none).getLast?
  else none

/-- **A member of a file fits a setting.** -/
inductive FitsMember (leaf : Leaf) : String × Setting → Prop where
  /-- It is the table that the setting stands in, with values of the right kind for it, and whatever else
  is none of its business. -/
  | table {origin : Option String} {members : List (String × Setting)} :
      (∀ inner ∈ members, (inner.1 = leaf.key ∧ leaf.Accepts inner.2) ∨
        lowercase inner.1 ≠ leaf.key) → FitsMember leaf (leaf.group, .table origin members)
  /-- It leads past the setting. -/
  | clear {key : String} {value : Setting} : leaf.Clear (keySteps key) → FitsMember leaf (key, value)

/-- **The tables of files fit** if they are tables of settings and whatever they hold is a value of the
right kind for one of them. -/
theorem fitsMember_of_known (table : Leaf) {origin : Option String} {members : List (String × Setting)}
    (hknown : ∀ inner ∈ members, ∃ other : Leaf, inner.1 = other.key ∧ other.Accepts inner.2) :
    leaf.FitsMember (table.group, .table origin members) := by
  by_cases hgroup : table.group = leaf.group
  · rw [hgroup]
    refine .table fun inner hinner => ?_
    obtain ⟨other, hkey, haccepts⟩ := hknown inner hinner
    rw [hkey]
    by_cases hother : other = leaf
    · subst hother
      exact .inl ⟨rfl, haccepts⟩
    · exact .inr (other.lowercase_key.symm ▸ key_ne hother)
  · refine .clear ?_
    rw [keySteps_group]
    exact .table (table.lowercase_group.symm ▸ hgroup)

/-- What a file says of a setting. -/
def inFile? (leaf : Leaf) (settings : List (String × Setting)) : Option Setting :=
  (settings.filterMap leaf.inTable?).getLast?

/-- A table of a file that is laid over the table that a setting stands in. -/
theorem overlayAll_has {inner value : Setting} {members : List (String × Setting)}
    (hinner : inner.Has leaf.key value) (haccepts : leaf.Accepts value)
    (hfits : ∀ member ∈ members, (member.1 = leaf.key ∧ leaf.Accepts member.2) ∨
      lowercase member.1 ≠ leaf.key) :
    let last := ((members.filterMap fun member =>
      if member.1 = leaf.key then some member.2 else none).getLast?.getD value)
    (inner.overlayAll members).Has leaf.key last ∧ leaf.Accepts last := by
  rw [Setting.overlayAll_eq_foldl]
  -- the same one level down
  refine foldl_last_write (P := fun (table value : Setting) => table.Has leaf.key value ∧ leaf.Accepts value)
    (fun member hmember table value ⟨htable, hvalue⟩ => ?_) ⟨hinner, haccepts⟩
  rcases hfits member hmember with ⟨hkey, hmember⟩ | hne
  · rw [if_pos hkey, Option.getD_some, hkey]
    refine ⟨?_, hmember⟩
    obtain ⟨origin, scalar, hscalar⟩ := hmember.scalar
    rw [hscalar, Setting.overlay, lowercase_key]
    · exact htable.withMember_self
    · simp
  · have hkey : member.1 ≠ leaf.key := by
      intro hkey
      rw [hkey, lowercase_key] at hne
      exact hne rfl
    rw [if_neg hkey, Option.getD_none]
    exact ⟨htable.overlay_of_ne hne, hvalue⟩

/-- **A file that is laid over a table** gives a setting what it says of it. -/
theorem Holds.putFile {root value : Setting} {settings : List (String × Setting)}
    (h : leaf.Holds root value) (hfits : ∀ member ∈ settings, leaf.FitsMember member) :
    leaf.Holds (root.putAll settings) ((leaf.inFile? settings).getD value) := by
  -- the members are put one by one, and the last one that is said counts
  refine foldl_last_write (fun member hmember root value h => ?_) h
  cases hfits member hmember with
  | clear hclear =>
    rename_i key other
    have hne : key ≠ leaf.group := by
      rintro rfl
      rw [keySteps_group] at hclear
      cases hclear with
      | table hne => exact hne leaf.lowercase_group
    rw [inTable?, if_neg hne]
    exact h.put_of_clear hclear
  | table hmembers =>
    rename_i origin members
    obtain ⟨⟨inner, hroot, hinner⟩, haccepts⟩ := h
    obtain ⟨hlast, haccepts⟩ := overlayAll_has hinner haccepts hmembers
    rw [inTable?, if_pos rfl]
    refine ⟨⟨inner.overlayAll members, ?_, hlast⟩, haccepts⟩
    show (Setting.put (.table origin members) (keySteps leaf.group) root).Has _ _
    rw [keySteps_group, Setting.put, Setting.overlay, lowercase_group, hroot.get?_eq]
    exact hroot.withMember_self

end Leaf

/-! ## Reading -/

section Sections

variable {α β : Type} {root setting : Setting} {form : SectionForm} {first : Field α}
  {second : Field β} {value value' : Setting} {a : α} {b : β}

/-- `form.slot` finds the member that is there, with what to say if it were not. -/
theorem SectionForm.slot_eq (h : setting.Has first.key value) (place : Nat) :
    form.slot setting place first.key = .ok ⟨first.key, some value, .missingField first.key⟩ := by
  obtain ⟨origin, members, rfl, hlookup⟩ := h
  rw [slot, hlookup]

/-- `slot.value = some value → read value = .ok a → slot.readIf read = .ok (some a)`. -/
theorem Slot.readIf_eq {slot : Slot} {read : Setting → Except SettingsError α}
    (h : slot.value = some value) (hread : read value = .ok a) : slot.readIf read = .ok (some a) := by
  rw [readIf, h]
  show ((read value).mapError _).map some = _
  rw [hread]
  rfl

/-- A section of one leaf is read from its member. -/
theorem readOne_eq_ok (h : setting.Has first.key value) (hread : first.read value = .ok a) :
    readOne form first setting = .ok a := by
  rw [readOne, SectionForm.slot_eq h]
  show (Slot.readIf _ _).bind _ = _
  rw [Slot.readIf_eq rfl hread]
  rfl

/-- A section of two leaves is read from its two members. -/
theorem readTwo_eq_ok (h : setting.Has first.key value) (h' : setting.Has second.key value')
    (hread : first.read value = .ok a) (hread' : second.read value' = .ok b) :
    readTwo form first second setting = .ok (a, b) := by
  rw [readTwo, SectionForm.slot_eq h, SectionForm.slot_eq h']
  show (Slot.readIf _ _).bind (fun _ => (Slot.readIf _ _).bind _) = _
  rw [Slot.readIf_eq rfl hread, Slot.readIf_eq rfl hread']
  rfl

/-- A section that is there is read as `read` reads it. -/
theorem readSection_eq_ok {read : SectionForm → Setting → Except SettingsError α}
    (h : root.Has form.key setting) (hread : read form setting = .ok a) :
    readSection root form read = .ok a := by
  rw [readSection, h.get?_eq]
  show (read form setting).mapError _ = _
  rw [hread]
  rfl

end Sections

/-- **The settings that a table holds** are what its values are read as. -/
theorem Settings.read_eq_ok {root : Setting} {settings : Settings} {value : Leaf → Setting}
    (hholds : ∀ leaf : Leaf, leaf.Holds root (value leaf))
    (hreads : ∀ leaf : Leaf, leaf.read (value leaf) = .ok (leaf.of settings)) :
    Settings.read root = .ok settings := by
  obtain ⟨logging, hlogging, hlevel⟩ := (hholds .level).place
  obtain ⟨logging', hlogging', htrace⟩ := (hholds .traceReader).place
  obtain ⟨positions, hpositions, hbasis⟩ := (hholds .inputBasis).place
  obtain ⟨output, houtput, hformat⟩ := (hholds .format).place
  obtain ⟨output', houtput', hranges⟩ := (hholds .showRanges).place
  -- two settings in one table
  obtain rfl : logging = logging' :=
    Option.some.inj (hlogging.get?_eq.symm.trans hlogging'.get?_eq)
  obtain rfl : output = output' := Option.some.inj (houtput.get?_eq.symm.trans houtput'.get?_eq)
  have hone : readSection root ⟨"logging", "LoggingConfig", 2⟩
      (readTwo · ⟨"level", readText⟩ ⟨"trace_reader", readBool⟩) =
        .ok (settings.level, settings.traceReader) :=
    readSection_eq_ok hlogging (readTwo_eq_ok hlevel htrace (hreads .level) (hreads .traceReader))
  have htwo : readSection root ⟨"positions", "PositionsConfig", 1⟩
      (readOne · ⟨"input_basis", Basis.choice.read⟩) = .ok settings.inputBasis :=
    readSection_eq_ok hpositions (readOne_eq_ok hbasis (hreads .inputBasis))
  have hthree : readSection root ⟨"output", "OutputConfig", 2⟩
      (readTwo · ⟨"format", OutputFormat.choice.read⟩ ⟨"show_ranges", readBool⟩) =
        .ok (settings.format, settings.showRanges) :=
    readSection_eq_ok houtput (readTwo_eq_ok hformat hranges (hreads .format) (hreads .showRanges))
  rw [Settings.read, hone, htwo, hthree]
  rfl

end ProjectLens
