import Mathlib
import ProjectLens.Proofs.SettingLayers

/-! # Which layer a setting comes from

A loader is told by calls, in any order, which files to read, which variables to take and what was asked
for on the command line. Flags outrank variables, variables outrank files, a file outranks those that
were added before it, and all of them outrank the built-in values. So where flags and variables stand
among the calls makes no difference.

* `Loader.Call`, `Loader.ofCalls`: the calls, and the loader they make; `Loader.ofCalls_eq`;
* `SettingsFile.settings`, `Leaf.inFiles?`: what files say of a setting;
* `Loader.FilesFit`, `Loader.VarsFit`: what files and variables may hold;
* `Loader.exists_table`: the table of all layers, and what it holds for each setting;
* `Loader.build_precedence`: when building succeeds, and where each setting comes from. -/

namespace ProjectLens

/-- What a value is for a setting, if it is of the right kind. -/
def Leaf.value? (leaf : Leaf) (value : Setting) : Option leaf.Value := (leaf.read value).toOption

/-- The built-in settings hold what settings are unless something else is asked for. -/
theorem Leaf.holds_defaults (leaf : Leaf) :
    ∃ value, leaf.Holds Settings.defaults value ∧ leaf.read value = .ok leaf.preset := by
  have hholds {value inner : Setting} (hroot : Settings.defaults.Has leaf.group inner)
      (hinner : inner.Has leaf.key value) (hscalar : ∃ origin scalar, value = .scalar origin scalar)
      (hread : leaf.read value = .ok leaf.preset) :
      ∃ value, leaf.Holds Settings.defaults value ∧ leaf.read value = .ok leaf.preset :=
    ⟨value, ⟨⟨inner, hroot, hinner⟩, hscalar, _, hread⟩, hread⟩
  cases leaf <;> exact hholds ⟨_, _, rfl, rfl⟩ ⟨_, _, rfl, rfl⟩ ⟨_, _, rfl⟩ rfl

/-- The name of the variable for a setting. -/
def Leaf.variableName : Leaf → String
  | .level => "MSBUILD_INSPECT_LOGGING__LEVEL"
  | .traceReader => "MSBUILD_INSPECT_LOGGING__TRACE_READER"
  | .inputBasis => "MSBUILD_INSPECT_POSITIONS__INPUT_BASIS"
  | .format => "MSBUILD_INSPECT_OUTPUT__FORMAT"
  | .showRanges => "MSBUILD_INSPECT_OUTPUT__SHOW_RANGES"

/-! ## Calls -/

namespace Loader

/-- A call that adds a layer. -/
inductive Call where
  /-- Adds the settings file of a folder, if there is one. -/
  | localFile (folder : String)
  /-- Adds a settings file, which must be there. -/
  | userFile (path : String)
  /-- Takes other variables. -/
  | environmentFrom (vars : List (String × String))
  /-- Asks for an output format. -/
  | outputFormat (format : OutputFormat)
  /-- Asks for ranges in outlines. -/
  | showRanges
  deriving DecidableEq, Repr

namespace Call

/-- What a call does. -/
def apply (loader : Loader) : Call → Loader
  | .localFile folder => loader.localFile folder
  | .userFile path => loader.userFile path
  | .environmentFrom vars => loader.environmentFrom vars
  | .outputFormat format => loader.outputFormat format
  | .showRanges => loader.showRanges

/-- The file that a call adds. -/
def file? : Call → Option SettingsFile
  | .localFile folder => some ⟨joinPath folder localName, false⟩
  | .userFile path => some ⟨path, true⟩
  | _ => none

/-- The variables that a call takes. -/
def vars? : Call → Option (List (String × String))
  | .environmentFrom vars => some vars
  | _ => none

/-- The output format that a call asks for. -/
def format? : Call → Option OutputFormat
  | .outputFormat format => some format
  | _ => none

/-- What a call of the command line says of a setting. -/
def flag? : (leaf : Leaf) → Call → Option leaf.Value
  | .format, .outputFormat format => some format
  | .showRanges, .showRanges => some true
  | _, _ => none

end Call

/-- The loader that some calls make of one that only has the variables of the process. -/
def ofCalls (process : List (String × String)) (calls : List Call) : Loader :=
  calls.foldl Call.apply (ofVariables process)

/-- The files that some calls add. -/
def addedFiles (calls : List Call) : List SettingsFile := calls.filterMap Call.file?

/-- The variables that count: those that were given last, or else those of the process. -/
def lastVars (process : List (String × String)) (calls : List Call) : List (String × String) :=
  (calls.filterMap Call.vars?).getLast?.getD process

/-- **A loader keeps files, variables and flags apart**, and of variables and flags the last ones. -/
theorem ofCalls_eq (process : List (String × String)) (calls : List Call) :
    ofCalls process calls = ⟨addedFiles calls, lastVars process calls,
      (calls.filterMap Call.format?).getLast?, decide (Call.showRanges ∈ calls)⟩ := by
  -- from any loader on, for the induction: files come behind those it has, the rest replaces its own
  have hfold (loader : Loader) : calls.foldl Call.apply loader =
      ⟨loader.files ++ addedFiles calls, lastVars loader.vars calls,
        (calls.filterMap Call.format?).getLast?.or loader.format,
        decide (Call.showRanges ∈ calls) || loader.ranges⟩ := by
    induction calls generalizing loader with
    | nil => simp [addedFiles, lastVars]
    | cons call rest ih =>
      rw [List.foldl_cons, ih]
      cases call with
      | localFile folder =>
        simp [addedFiles, lastVars, Call.apply, localFile, Call.file?, Call.vars?, Call.format?]
      | userFile path =>
        simp [addedFiles, lastVars, Call.apply, userFile, Call.file?, Call.vars?, Call.format?]
      | environmentFrom vars =>
        simp [addedFiles, lastVars, Call.apply, environmentFrom, Call.vars?, Call.format?, List.getLast?_cons]
        rfl
      | outputFormat format =>
        simp [addedFiles, lastVars, Call.apply, outputFormat, Call.vars?, Call.format?, List.getLast?_cons]
        rfl
      | showRanges =>
        simp [addedFiles, lastVars, Call.apply, showRanges, Call.vars?, Call.format?]
        rfl
  rw [ofCalls, hfold]
  simp [ofVariables]

/-- The files of a loader are those its calls add, in order. -/
theorem files_ofCalls (process : List (String × String)) (calls : List Call) :
    (ofCalls process calls).files = addedFiles calls := by rw [ofCalls_eq]

/-- Its variables are the last ones given, or those of the process. -/
theorem vars_ofCalls (process : List (String × String)) (calls : List Call) :
    (ofCalls process calls).vars = lastVars process calls := by rw [ofCalls_eq]

/-! ## Flags -/

/-- The name of a format is read as that format. -/
theorem read_format (format : OutputFormat) :
    Leaf.format.read (.scalar none (.text format.name)) = .ok format := by
  cases format <;> rfl

/-- **Flags lead to the settings they stand for.** -/
theorem fits_flags (loader : Loader) (leaf : Leaf) : leaf.Fits loader.flags := by
  intro assignment hassignment
  rcases List.mem_append.mp hassignment with hformat | hranges
  · cases hgiven : loader.format with
    | none => simp [hgiven] at hformat
    | some format =>
      simp only [hgiven, List.mem_singleton] at hformat
      subst hformat
      exact Leaf.fits_key (Leaf.keySteps_fullKey .format) ⟨⟨_, _, rfl⟩, format, read_format format⟩
  · split at hranges
    · obtain rfl := List.mem_singleton.mp hranges
      exact Leaf.fits_key (Leaf.keySteps_fullKey .showRanges) ⟨⟨_, _, rfl⟩, true, rfl⟩
    · cases hranges

/-- What flags say of a setting, as values. -/
def flagValues (loader : Loader) : Leaf → List Setting
  | .format => loader.format.toList.map fun format => .scalar none (.text format.name)
  | .showRanges => if loader.ranges then [.scalar none (.bool true)] else []
  | _ => []

/-- Of the flags, those that set a leaf give its values in order. -/
theorem filterMap_given?_flags (loader : Loader) (leaf : Leaf) :
    loader.flags.filterMap leaf.given? = loader.flagValues leaf := by
  have hformat (value : Setting) :
      leaf.given? ("output.format", value) = if Leaf.format = leaf then some value else none :=
    Leaf.given?_key (Leaf.keySteps_fullKey .format) value
  have hranges (value : Setting) :
      leaf.given? ("output.show_ranges", value) = if Leaf.showRanges = leaf then some value else none :=
    Leaf.given?_key (Leaf.keySteps_fullKey .showRanges) value
  obtain ⟨files, vars, format, ranges⟩ := loader
  cases format <;> cases ranges <;> cases leaf <;> simp [flags, flagValues, hformat, hranges]

/-- **What flags say of a setting** is what the last call for it says. -/
theorem flags_ofCalls (process : List (String × String)) (calls : List Call) (leaf : Leaf) :
    ((ofCalls process calls).flags.filterMap leaf.given?).getLast?.bind leaf.value? =
      (calls.filterMap (Call.flag? leaf)).getLast? := by
  have hnone (hleaf : ∀ call, Call.flag? leaf call = none) : calls.filterMap (Call.flag? leaf) = [] :=
    List.filterMap_eq_nil_iff.mpr fun call _ => hleaf call
  rw [filterMap_given?_flags, ofCalls_eq]
  -- only two leaves have a flag, and only that of the format can be given twice
  cases leaf with
  | format =>
    have hcalls : calls.filterMap (Call.flag? .format) = calls.filterMap Call.format? := by
      congr 1
      funext call
      cases call <;> rfl
    -- the name of the last format asked for is read back as that format
    have hread (asked : Option OutputFormat) : (asked.toList.map fun format : OutputFormat =>
        Setting.scalar none (.text format.name)).getLast?.bind (Leaf.value? .format) = asked := by
      cases asked with
      | none => rfl
      | some format =>
        rw [Option.toList_some, List.map_singleton, List.getLast?_singleton, Option.bind_some, Leaf.value?,
          read_format]
        rfl
    rw [hcalls]
    exact hread _
  | showRanges =>
    have hcalls (value : Leaf.Value .showRanges) : value ∈ calls.filterMap (Call.flag? .showRanges) ↔
        Call.showRanges ∈ calls ∧ value = (true : Bool) := by
      rw [List.mem_filterMap]
      constructor
      · rintro ⟨call, hcall, hvalue⟩
        cases call <;> cases hvalue
        exact ⟨hcall, rfl⟩
      · rintro ⟨hcall, rfl⟩
        exact ⟨_, hcall, rfl⟩
    rw [flagValues]
    cases hlast : (calls.filterMap (Call.flag? .showRanges)).getLast? with
    | none =>
      have hasked : Call.showRanges ∉ calls := fun hcall => by
        have hmem := (hcalls true).mpr ⟨hcall, rfl⟩
        rw [List.getLast?_eq_none_iff.mp hlast] at hmem
        cases hmem
      simp [hasked]
    | some value =>
      obtain ⟨hasked, rfl⟩ := (hcalls value).mp (List.mem_of_getLast? hlast)
      rw [if_pos (decide_eq_true hasked)]
      rfl
  | level => rw [hnone fun call => by cases call <;> rfl]; rfl
  | traceReader => rw [hnone fun call => by cases call <;> rfl]; rfl
  | inputBasis => rw [hnone fun call => by cases call <;> rfl]; rfl

end Loader

/-! ## Files -/

/-- The settings in a file; there are none if it is not there. -/
def SettingsFile.settings (files : Files) (file : SettingsFile) : List (String × Setting) :=
  (file.read files).toOption.getD []

/-- What files say of a setting: what the last one says that says something of it. -/
def Leaf.inFiles? (leaf : Leaf) (files : Files) (added : List SettingsFile) : Option Setting :=
  (added.filterMap fun file => leaf.inFile? (file.settings files)).getLast?

/-- What variables say of a setting. -/
def Leaf.inVars? (leaf : Leaf) (vars : List (String × String)) : Option Setting :=
  ((Environment.settings vars).filterMap leaf.given?).head?

namespace Loader

/-- **Files that fit**: those that are there can be read, and whatever they hold is a value of the right
kind for a setting or leads past all settings. -/
def FilesFit (files : Files) (added : List SettingsFile) : Prop :=
  ∀ file ∈ added, file.find? files ≠ none → ∃ settings, file.read files = .ok settings ∧
    ∀ leaf : Leaf, ∀ member ∈ settings, leaf.FitsMember member

/-- **Variables that fit**: whatever they say is a value of the right kind for a setting or leads past all
settings, and no setting is given twice. -/
structure VarsFit (vars : List (String × String)) : Prop where
  /-- They lead to settings or past them. -/
  fits : ∀ leaf : Leaf, leaf.Fits (Environment.settings vars)
  /-- No setting is given twice. -/
  once : ∀ leaf : Leaf, ((Environment.settings vars).filterMap leaf.given?).length ≤ 1

variable {files : Files} {added : List SettingsFile} {root : Setting}

/-- A file that fits is read unless it must be there and is not. -/
theorem read_eq_ok_iff {file : SettingsFile}
    (hfit : file.find? files ≠ none → ∃ settings, file.read files = .ok settings) :
    (∃ settings, file.read files = .ok settings) ↔ (file.required = true → file.find? files ≠ none) := by
  cases hfind : file.find? files with
  | some found =>
    rw [hfind] at hfit
    simpa using hfit
  | none =>
    rw [SettingsFile.read, hfind]
    cases file.required <;> simp

/-- All layers of files together, if every file is read. -/
theorem overlayFiles_eq (hread : ∀ file ∈ added, ∃ settings, file.read files = .ok settings) :
    overlayFiles files root added =
      .ok ((added.map (SettingsFile.settings files)).foldl Setting.putAll root) := by
  induction added generalizing root with
  | nil => rfl
  | cons file rest ih =>
    obtain ⟨settings, hsettings⟩ := hread file List.mem_cons_self
    rw [overlayFiles, hsettings, List.map_cons, List.foldl_cons, SettingsFile.settings, hsettings]
    exact ih fun file hfile => hread file (List.mem_cons_of_mem _ hfile)

/-- Every file is read if all layers of files are laid over each other. -/
theorem exists_read_of_overlayFiles {result : Setting}
    (h : overlayFiles files root added = .ok result) :
    ∀ file ∈ added, ∃ settings, file.read files = .ok settings := by
  induction added generalizing root with
  | nil => simp
  | cons file rest ih =>
    rw [overlayFiles] at h
    cases hread : file.read files with
    | error failure =>
      rw [hread] at h
      cases h
    | ok settings =>
      rw [hread] at h
      exact List.forall_mem_cons.mpr ⟨⟨settings, hread⟩, ih h⟩

/-- Whatever is in files that fit fits. -/
theorem FilesFit.fitsMember (hfit : FilesFit files added) {file : SettingsFile} (hfile : file ∈ added)
    (leaf : Leaf) : ∀ member ∈ file.settings files, leaf.FitsMember member := by
  cases hfind : file.find? files with
  | some found =>
    obtain ⟨settings, hread, hmembers⟩ := hfit file hfile (by simp [hfind])
    rw [SettingsFile.settings, hread]
    exact hmembers leaf
  | none =>
    rw [SettingsFile.settings, SettingsFile.read, hfind]
    cases file.required <;> simp [Except.toOption]

/-! ## Variables -/

section Variables

variable {vars : List (String × String)}

/-- Where the variables fit, the last value they give a leaf is that of its own variable. -/
theorem VarsFit.getLast?_eq (h : VarsFit vars) (leaf : Leaf) :
    ((Environment.settings vars).filterMap leaf.given?).getLast? = leaf.inVars? vars := by
  have honce := h.once leaf
  rw [Leaf.inVars?]
  generalize (Environment.settings vars).filterMap leaf.given? = given at honce ⊢
  match given with
  | [] => rfl
  | [_] => rfl
  | _ :: _ :: _ => simp at honce

/-- A leaf's variable is read as the leaf's dotted key. -/
theorem key?_variableName (leaf : Leaf) : Environment.key? leaf.variableName = some leaf.fullKey := by
  rw [Environment.key?, lowercase_ascii (by decide +kernel),
    lowercase_ascii (by cases leaf <;> decide +kernel)]
  cases leaf <;> decide +kernel

/-- What a variable says of the setting that it is named for. -/
def spoken (text : String) : Setting :=
  .scalar (some Environment.originName) (Environment.readScalar text)

/-- The settings among variables that are named for settings. -/
theorem settings_named (said : List (Leaf × String)) :
    Environment.settings (said.map fun entry => (entry.1.variableName, entry.2)) =
      said.map fun entry => (entry.1.fullKey, spoken entry.2) := by
  induction said with
  | nil => rfl
  | cons entry rest ih =>
    refine (List.filterMap_cons_some ?_).trans (congrArg _ ih)
    show (Environment.key? entry.1.variableName).map _ = _
    rw [key?_variableName]
    rfl

/-- **Variables that are named for settings fit**, if they say values of the right kind and no two are
named for the same one. -/
theorem VarsFit.of_named (said : List (Leaf × String)) (hnodup : (said.map Prod.fst).Nodup)
    (haccepts : ∀ entry ∈ said, entry.1.Accepts (spoken entry.2)) :
    VarsFit (said.map fun entry => (entry.1.variableName, entry.2)) where
  fits leaf := by
    rw [settings_named]
    exact List.forall_mem_map.mpr fun entry hentry =>
      Leaf.fits_key entry.1.keySteps_fullKey (haccepts entry hentry)
  once leaf := by
    have hcount (said : List (Leaf × String)) : ((said.map fun entry =>
        (entry.1.fullKey, spoken entry.2)).filterMap leaf.given?).length =
          (said.map Prod.fst).count leaf := by
      induction said with
      | nil => rfl
      | cons entry rest ih =>
        rw [List.map_cons, List.map_cons, List.count_cons, List.filterMap_cons, ← ih,
          Leaf.given?_key entry.1.keySteps_fullKey]
        by_cases h : entry.1 = leaf <;> simp [h]
    rw [settings_named, hcount]
    exact List.nodup_iff_count.mp hnodup leaf

/-- What variables that are named for settings say of one of them. -/
theorem inVars?_named (said : List (Leaf × String)) (leaf : Leaf) :
    leaf.inVars? (said.map fun entry => (entry.1.variableName, entry.2)) = (said.lookup leaf).map spoken := by
  rw [Leaf.inVars?, settings_named]
  induction said with
  | nil => rfl
  | cons entry rest ih =>
    obtain ⟨named, text⟩ := entry
    rw [List.map_cons, List.filterMap_cons, Leaf.given?_key named.keySteps_fullKey, List.lookup_cons]
    by_cases hnamed : named = leaf
    · rw [if_pos hnamed, hnamed, beq_self_eq_true]
      rfl
    · rw [if_neg hnamed, beq_eq_false_iff_ne.mpr (Ne.symm hnamed)]
      exact ih

end Variables

/-! ## All layers -/

/-- Files that are laid over a table one after the other give a setting what they say of it. -/
theorem holds_files {leaf : Leaf} {value : Setting} (hfit : FilesFit files added)
    (h : leaf.Holds root value) :
    leaf.Holds ((added.map (SettingsFile.settings files)).foldl Setting.putAll root)
      ((leaf.inFiles? files added).getD value) := by
  rw [List.foldl_map]
  exact foldl_last_write (fun file hfile _ _ h => h.putFile (hfit.fitsMember hfile leaf)) h

/-- **The table of all layers** holds for each setting what flags say of it, or else variables, or else
files, or else what is built in. -/
theorem exists_table {loader : Loader} (hfiles : FilesFit files loader.files) (hvars : VarsFit loader.vars)
    (hread : ∀ file ∈ loader.files, ∃ settings, file.read files = .ok settings) :
    ∃ root, loader.table files = .ok root ∧ ∀ leaf : Leaf, ∃ preset value,
      leaf.read preset = .ok leaf.preset ∧ leaf.Holds root value ∧
      value = ((loader.flags.filterMap leaf.given?).getLast?.or
        ((leaf.inVars? loader.vars).or (leaf.inFiles? files loader.files))).getD preset := by
  have htable : loader.table files = .ok ((((loader.files.map (SettingsFile.settings files)).foldl
      Setting.putAll Settings.defaults).putAll (Environment.settings loader.vars)).putAll loader.flags) := by
    rw [table, overlayFiles_eq hread]
    rfl
  refine ⟨_, htable, fun leaf => ?_⟩
  obtain ⟨preset, hpreset, hread⟩ := leaf.holds_defaults
  have hall := ((holds_files hfiles hpreset).putAll (hvars.fits leaf)).putAll (loader.fits_flags leaf)
  refine ⟨preset, _, hread, hall, ?_⟩
  rw [hvars.getLast?_eq, Option.getD_or, Option.getD_or]

/-- **Where a setting comes from**: the last call of the command line for it, or else the variable for it,
or else the last file that says something of it, or else what is built in. -/
def resolved (leaf : Leaf) (files : Files) (process : List (String × String)) (calls : List Call) :
    leaf.Value :=
  ((calls.filterMap (Call.flag? leaf)).getLast?.or
    (((leaf.inVars? (lastVars process calls)).bind leaf.value?).or
      ((leaf.inFiles? files (addedFiles calls)).bind leaf.value?))).getD leaf.preset

/-- What is read is what was said last. -/
theorem read_eq_resolved {leaf : Leaf} {process : List (String × String)} {calls : List Call}
    {preset value : Setting} {result : leaf.Value} (hpreset : leaf.read preset = .ok leaf.preset)
    (hvalue : value = (((ofCalls process calls).flags.filterMap leaf.given?).getLast?.or
      ((leaf.inVars? (lastVars process calls)).or
        (leaf.inFiles? files (addedFiles calls)))).getD preset)
    (hread : leaf.read value = .ok result) : result = resolved leaf files process calls := by
  -- a layer that says something decides, whatever the layers below it say
  have hlayer {said : Setting} (below : Option leaf.Value) (hsaid : value = said) :
      result = (((some said).bind leaf.value?).or below).getD leaf.preset := by
    rw [← hsaid, Option.bind_some, Leaf.value?, hread]
    rfl
  rw [resolved, ← flags_ofCalls process]
  cases hflag : ((ofCalls process calls).flags.filterMap leaf.given?).getLast? with
  | some said =>
    rw [hflag] at hvalue
    exact hlayer _ hvalue
  | none =>
    cases hvar : leaf.inVars? (lastVars process calls) with
    | some said =>
      rw [hflag, hvar] at hvalue
      exact hlayer _ hvalue
    | none =>
      rw [hflag, hvar] at hvalue
      cases hfile : leaf.inFiles? files (addedFiles calls) with
      | some said =>
        rw [hfile] at hvalue
        have h := hlayer none hvalue
        rwa [Option.or_none] at h
      | none =>
        rw [hfile] at hvalue
        obtain rfl : value = preset := hvalue
        exact Except.ok.inj (hread.symm.trans hpreset)

/-- **Each setting comes from the highest layer that says something of it**, if all files are read. -/
theorem exists_build_eq_ok {process : List (String × String)} {calls : List Call}
    (hfiles : FilesFit files (addedFiles calls)) (hvars : VarsFit (lastVars process calls))
    (hread : ∀ file ∈ addedFiles calls, ∃ settings, file.read files = .ok settings) :
    ∃ settings, (ofCalls process calls).build files = .ok settings ∧
      ∀ leaf : Leaf, leaf.of settings = resolved leaf files process calls := by
  rw [← files_ofCalls process] at hfiles hread
  rw [← vars_ofCalls] at hvars
  obtain ⟨root, htable, hleaf⟩ := exists_table hfiles hvars hread
  rw [files_ofCalls, vars_ofCalls] at hleaf
  choose preset value hpreset hholds hvalue using hleaf
  -- what the table holds for a setting is of the right kind, so it is read as what was said last
  have hreads (leaf : Leaf) : leaf.read (value leaf) = .ok (resolved leaf files process calls) := by
    obtain ⟨result, hresult⟩ := (hholds leaf).accepts.reads
    rw [hresult, read_eq_resolved (hpreset leaf) (hvalue leaf) hresult]
  refine ⟨⟨resolved .level files process calls, resolved .traceReader files process calls,
    resolved .inputBasis files process calls, resolved .format files process calls,
    resolved .showRanges files process calls⟩, ?_, fun leaf => by cases leaf <;> rfl⟩
  rw [build, htable]
  exact Settings.read_eq_ok hholds fun leaf => by rw [hreads]; cases leaf <;> rfl

/-- Every file is read if building succeeds. -/
theorem exists_read_of_build {loader : Loader} {settings : Settings}
    (h : loader.build files = .ok settings) :
    ∀ file ∈ loader.files, ∃ settings, file.read files = .ok settings := by
  cases hoverlay : overlayFiles files Settings.defaults loader.files with
  | error failure =>
    rw [build, table, hoverlay] at h
    cases h
  | ok root => exact exists_read_of_overlayFiles hoverlay

/-- The files that must be there are those of users. -/
theorem required_iff (calls : List Call) {P : SettingsFile → Prop} :
    (∀ file ∈ addedFiles calls, file.required = true → P file) ↔
      ∀ path, Call.userFile path ∈ calls → P ⟨path, true⟩ := by
  constructor
  · intro h path hcall
    exact h ⟨path, true⟩ (List.mem_filterMap.mpr ⟨_, hcall, rfl⟩) rfl
  · rintro h file hfile hrequired
    obtain ⟨call, hcall, hadded⟩ := List.mem_filterMap.mp hfile
    cases call with
    | userFile path =>
      obtain rfl := Option.some.inj hadded
      exact h path hcall
    | localFile folder =>
      obtain rfl := Option.some.inj hadded
      cases hrequired
    | environmentFrom vars => cases hadded
    | outputFormat format => cases hadded
    | showRanges => cases hadded

/-- **Files under their own names**: what is found for a file is found at its own path. -/
def OwnNames (files : Files) (added : List SettingsFile) : Prop :=
  ∀ file ∈ added, file.find? files ≠ none → (files file.path).file? ≠ none

/-- A file under its own name is found just if there is one at its path. -/
theorem OwnNames.find?_ne_none_iff (h : OwnNames files added) {file : SettingsFile}
    (hfile : file ∈ added) : file.find? files ≠ none ↔ (files file.path).file? ≠ none := by
  refine ⟨h file hfile, fun hthere => ?_⟩
  obtain ⟨contents, hcontents⟩ := Option.ne_none_iff_exists'.mp hthere
  -- the path of a file is the first one that is tried
  have hfirst : ∃ others, file.candidates = file.path :: others := by
    rw [SettingsFile.candidates]
    split
    · exact ⟨_, rfl⟩
    split <;> exact ⟨_, rfl⟩
  obtain ⟨others, hothers⟩ := hfirst
  rw [SettingsFile.find?, hothers, List.findSome?_cons, hcontents]
  exact Option.some_ne_none _

/-- **When building succeeds, and where each setting comes from.** If the files that are there and the
variables that count fit, and files are there under their own names, building succeeds just if there is a
file at every path at which one must be. Then each setting is what the last flag for it says, or else the
variable, or else the last file, or else what is built in. And whatever the files, variables and flags,
only their order among their own kind counts. -/
theorem build_precedence (files : Files) (process : List (String × String)) (calls : List Call)
    (hfiles : FilesFit files (addedFiles calls)) (hnames : OwnNames files (addedFiles calls))
    (hvars : VarsFit (lastVars process calls)) :
    ((∃ settings, (ofCalls process calls).build files = .ok settings) ↔
        ∀ path, Call.userFile path ∈ calls → (files path).file? ≠ none) ∧
      (∀ settings, (ofCalls process calls).build files = .ok settings →
        ∀ leaf : Leaf, leaf.of settings = resolved leaf files process calls) ∧
      ∀ others : List Call, addedFiles others = addedFiles calls →
        (others.filterMap Call.vars?).getLast? = (calls.filterMap Call.vars?).getLast? →
        (others.filterMap Call.format?).getLast? = (calls.filterMap Call.format?).getLast? →
        (Call.showRanges ∈ others ↔ Call.showRanges ∈ calls) →
        (ofCalls process others).build files = (ofCalls process calls).build files := by
  -- a file that fits is read unless it must be there and is not
  have hthere (file : SettingsFile) (hfile : file ∈ addedFiles calls) :=
    (read_eq_ok_iff fun hfind => (hfiles file hfile hfind).imp fun _ h => h.1).trans
      (imp_congr_right fun _ => hnames.find?_ne_none_iff hfile)
  refine ⟨⟨?_, ?_⟩, ?_, ?_⟩
  · rintro ⟨settings, hbuild⟩
    refine (required_iff calls (P := fun file => (files file.path).file? ≠ none)).mp
      fun file hfile => (hthere file hfile).mp ?_
    exact exists_read_of_build hbuild file (files_ofCalls process calls ▸ hfile)
  · intro hfound
    have hread (file : SettingsFile) (hfile : file ∈ addedFiles calls) :=
      (hthere file hfile).mpr ((required_iff calls
        (P := fun file => (files file.path).file? ≠ none)).mpr hfound file hfile)
    obtain ⟨settings, hbuild, -⟩ := exists_build_eq_ok hfiles hvars hread
    exact ⟨settings, hbuild⟩
  · intro settings hbuild
    have hread := exists_read_of_build hbuild
    rw [files_ofCalls] at hread
    obtain ⟨settings', hbuild', hleaf⟩ := exists_build_eq_ok hfiles hvars hread
    -- building gives one answer only
    obtain rfl := Except.ok.inj (hbuild.symm.trans hbuild')
    exact hleaf
  · intro others hadded htaken hformat hranges
    rw [ofCalls_eq, ofCalls_eq, hadded, lastVars, lastVars, htaken, hformat, decide_eq_decide.mpr hranges]

/-- A settings file that asks for structured data. -/
def jsonText : String := "[output]\nformat = \"json\"\n"

/-- A folder with that file. -/
def jsonFolder : Files := (Folder.ofFiles [("u.toml", jsonText.toByteArray.data.toList)]).state

/-- Calls that ask for ranges and take variables before they add the file. -/
def earlyFlag : List Call :=
  [.showRanges,
    .environmentFrom [(Leaf.variableName .showRanges, "false"), (Leaf.variableName .level, "debug")],
    .userFile "u.toml"]

/-- What is read from the file of the folder. -/
theorem read_jsonFolder : SettingsFile.read jsonFolder ⟨"u.toml", true⟩ =
    .ok [("output", .table (some "u.toml") [("format", .scalar (some "u.toml") (.text "json"))])] := by
  have hfind : SettingsFile.find? jsonFolder ⟨"u.toml", true⟩ =
      some ("u.toml", .ok jsonText.toByteArray.data.toList) := by decide +kernel
  have hname : tidyPath "u.toml" = "u.toml" := by decide +kernel
  have hdecode : Utf8.decodeLossily (SettingsFile.skipMark jsonText.toByteArray.data.toList) = jsonText := by
    decide +kernel
  have htoml : Toml.read (some "u.toml") jsonText =
      some [("output", .table (some "u.toml") [("format", .scalar (some "u.toml") (.text "json"))])] := by
    cbv
  simp only [SettingsFile.read, hfind, hname, hdecode, htoml]

/-- A flag counts although it is the first call, and a file counts where nothing else says something. -/
theorem build_precedence_earlyFlag :
    FilesFit jsonFolder (addedFiles earlyFlag) ∧ OwnNames jsonFolder (addedFiles earlyFlag) ∧
      VarsFit (lastVars [] earlyFlag) ∧ ∃ settings, (ofCalls [] earlyFlag).build jsonFolder = .ok settings ∧
        settings.showRanges = true ∧ settings.level = "debug" ∧ settings.format = .json := by
  -- the one file holds a format under its section
  have hfiles : FilesFit jsonFolder (addedFiles earlyFlag) := by
    intro file hfile _
    obtain rfl := List.mem_singleton.mp hfile
    refine ⟨_, read_jsonFolder, fun leaf member hmember => ?_⟩
    obtain rfl := List.mem_singleton.mp hmember
    refine Leaf.fitsMember_of_known .format fun inner hinner => ?_
    obtain rfl := List.mem_singleton.mp hinner
    exact ⟨.format, rfl, ⟨⟨_, _, rfl⟩, .json, read_format .json⟩⟩
  have hfalse : Environment.readScalar "false" = .bool false := by decide +kernel
  have hdebug : Environment.readScalar "debug" = .text "debug" := by decide +kernel
  -- both variables are named for leaves and read as what these want
  have hvars : VarsFit (lastVars [] earlyFlag) := by
    refine VarsFit.of_named [(.showRanges, "false"), (.level, "debug")] (by decide) ?_
    refine List.forall_mem_cons.mpr ⟨⟨⟨_, _, rfl⟩, false, ?_⟩, List.forall_mem_singleton.mpr
      ⟨⟨_, _, rfl⟩, "debug", ?_⟩⟩
    · rw [spoken, hfalse]
      rfl
    · rw [spoken, hdebug]
      rfl
  have hnames : OwnNames jsonFolder (addedFiles earlyFlag) := by
    intro file hfile _
    obtain rfl := List.mem_singleton.mp hfile
    decide +kernel
  -- so the theorem applies, and says leaf by leaf what is built
  obtain ⟨hbuild, hleaf, -⟩ := build_precedence jsonFolder [] earlyFlag hfiles hnames hvars
  obtain ⟨settings, hsettings⟩ := hbuild.mpr fun path hpath => by
    obtain rfl : path = "u.toml" := by simpa [earlyFlag] using hpath
    decide +kernel
  have hresolved := hleaf settings hsettings
  have hsaid (leaf : Leaf) : leaf.inVars? (lastVars [] earlyFlag) = _ :=
    inVars?_named [(.showRanges, "false"), (.level, "debug")] leaf
  have hformat : Leaf.format.inFiles? jsonFolder (addedFiles earlyFlag) =
      some (.scalar (some "u.toml") (.text "json")) := by
    show ([SettingsFile.mk "u.toml" true].filterMap _).getLast? = _
    rw [List.filterMap_cons, SettingsFile.settings, read_jsonFolder]
    rfl
  refine ⟨hfiles, hnames, hvars, settings, hsettings, hresolved .showRanges, ?_, ?_⟩
  · have hlevel : Leaf.level.inVars? (lastVars [] earlyFlag) =
        some (.scalar (some Environment.originName) (.text "debug")) := by
      rw [hsaid .level, ← hdebug]
      rfl
    refine (hresolved .level).trans ?_
    rw [resolved, hlevel]
    rfl
  · refine (hresolved .format).trans ?_
    rw [resolved, hsaid .format, hformat]
    rfl

/-- **What is not as simple as that**: a variable that stands for a whole table says nothing of a setting
and yet nothing can be built with it, and a text that looks like a number is one first. -/
theorem precedence_limits :
    (∀ leaf : Leaf, leaf.inVars? [("MSBUILD_INSPECT_OUTPUT", "json")] = none) ∧
      ((ofCalls [] [.environmentFrom [("MSBUILD_INSPECT_OUTPUT", "json")]]).build
        fun _ => .missing).toOption = none ∧
      ((ofCalls [] [.environmentFrom [(Leaf.variableName .level, "1.50")]]).build
        fun _ => .missing).toOption = some ⟨"1.5", false, .one, .outline, false⟩ := by
  have hkey : Environment.key? "MSBUILD_INSPECT_OUTPUT" = some "output" := by decide +kernel
  have hsettings : Environment.settings [("MSBUILD_INSPECT_OUTPUT", "json")] = [("output", spoken "json")] :=
    List.filterMap_cons_some (congrArg (Option.map _) hkey)
  refine ⟨fun leaf => ?_, by decide +kernel, by decide +kernel⟩
  rw [Leaf.inVars?, hsettings]
  cases leaf <;> rfl

end Loader

end ProjectLens
