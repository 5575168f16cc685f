import ProjectLens.Proofs.Origins
import ProjectLens.Snapshot

/-! # Paths that follow the tree and survive being written

A path is written with slashes between its segments, and a reader of it leaves empty segments out. So
a path comes back from its text only if its segments are names: not empty, and without a slash. Paths
that were read from a text are of that kind, and so are the paths of nodes, since no reader of markup
takes a slash for a part of a name, and blank names have a made-up one in their place.

* `Path.Legible`: paths of names; `Path.Legible.parse_display`: they come back from their text;
* `Path.legible_parse`: every path that was read is one;
* `Path.StepBelow`: one step below another path;
* `Model.BranchOff`: drafts and the path of what they belong to; `Model.exists_branchOff`: all rows;
* `Model.Pathed`, `Snapshot.pathed_ofText`: the paths of a model. -/

namespace ProjectLens

/-! ## Texts and their pieces -/

variable {mark : Char} {chars : List Char}

/-- `pieces mark chars = chars.splitOn mark`. -/
theorem pieces_eq_splitOn (mark : Char) (chars : List Char) :
    pieces mark chars = chars.splitOn mark := by
  induction chars with
  | nil => rfl
  | cons c rest ih =>
    rw [pieces, List.splitOn, List.splitOnP_cons_eq_if_modifyHead, ← List.splitOn, ih]
    by_cases hc : c = mark
    · rw [if_pos hc, if_pos (beq_iff_eq.mpr hc)]
    · rw [if_neg hc, if_neg (by simpa using hc)]
      cases hsplit : rest.splitOn mark with
      | nil => exact absurd hsplit (List.splitOn_ne_nil mark rest)
      | cons piece others => rfl

/-- The mark itself is in no piece. -/
theorem not_mem_of_mem_pieces {piece : List Char} (h : piece ∈ pieces mark chars) : mark ∉ piece := by
  induction chars generalizing piece with
  | nil =>
    rw [List.mem_singleton.mp h]
    exact List.not_mem_nil
  | cons c rest ih =>
    rw [pieces] at h
    by_cases hc : c = mark
    · rw [if_pos hc] at h
      rcases List.mem_cons.mp h with rfl | h
      · exact List.not_mem_nil
      · exact ih h
    · rw [if_neg hc] at h
      -- the character goes to the front of the first piece, and all others stay
      have hfront {first : List Char} (hfirst : mark ∉ first) : mark ∉ c :: first :=
        List.not_mem_cons_of_ne_of_not_mem (Ne.symm hc) hfirst
      cases hpieces : pieces mark rest with
      | nil =>
        rw [hpieces] at h
        rw [List.mem_singleton.mp h]
        exact hfront List.not_mem_nil
      | cons first others =>
        rw [hpieces] at h ih
        rcases List.mem_cons.mp h with rfl | h
        · exact hfront (ih List.mem_cons_self)
        · exact ih (List.mem_cons_of_mem _ h)

namespace Path

variable {path base : Path} {segment : String} {names : List String}

/-! ## Writing and reading -/

/-- A segment that can be told from what is around it in a text. -/
structure IsName (segment : String) : Prop where
  /-- There is something to see of it. -/
  filled : segment ≠ ""
  /-- It does not fall into two segments. -/
  slash : '/' ∉ segment.toList

/-- **A path of names**, after the root or without it. -/
inductive Legible : Path → Prop where
  /-- From anywhere. -/
  | relative {names : List String} : (∀ name ∈ names, IsName name) → Legible ⟨names⟩
  /-- From the root. -/
  | absolute {names : List String} : (∀ name ∈ names, IsName name) → Legible ⟨"" :: names⟩

/-- The segments that are read in a text, but for that of the root. -/
def namesIn (chars : List Char) : List String :=
  ((pieces '/' chars).filter fun piece => !piece.isEmpty).map String.ofList

/-- A path's text is read as its names, with an empty one in front if it starts with `/`. -/
theorem parse_eq (text : String) : parse text =
    ⟨if text.toList.head? = some '/' then "" :: namesIn text.toList else namesIn text.toList⟩ :=
  rfl

/-- What lies between slashes is a name. -/
theorem isName_of_mem_namesIn (h : segment ∈ namesIn chars) : IsName segment := by
  obtain ⟨piece, hpiece, rfl⟩ := List.mem_map.mp h
  obtain ⟨hmem, hfilled⟩ := List.mem_filter.mp hpiece
  constructor
  · intro hempty
    have : piece = [] := by simpa using congrArg String.toList hempty
    simp [this] at hfilled
  · rw [String.toList_ofList]
    exact not_mem_of_mem_pieces hmem

/-- **Every path that was read is one of names.** -/
theorem legible_parse (text : String) : (parse text).Legible := by
  rw [parse_eq]
  split
  · exact .absolute fun _ => isName_of_mem_namesIn
  · exact .relative fun _ => isName_of_mem_namesIn

/-- A slash in front only says that the path starts at the root. -/
theorem namesIn_slash (chars : List Char) : namesIn ('/' :: chars) = namesIn chars := by
  simp [namesIn, pieces]

/-- **Names are found again** in a text that has slashes between them. -/
theorem namesIn_intercalate (h : ∀ name ∈ names, IsName name) :
    namesIn ("/".intercalate names).toList = names := by
  by_cases hnames : names = []
  · subst hnames
    rfl
  · have hsplit : pieces '/' ("/".intercalate names).toList = names.map String.toList := by
      rw [pieces_eq_splitOn, String.toList_intercalate]
      refine List.splitOn_intercalate '/' ?_ (by simpa using hnames)
      intro piece hpiece
      obtain ⟨name, hname, rfl⟩ := List.mem_map.mp hpiece
      exact (h name hname).slash
    have hfilled : ∀ piece ∈ names.map String.toList, (!piece.isEmpty) = true := by
      intro piece hpiece
      obtain ⟨name, hname, rfl⟩ := List.mem_map.mp hpiece
      simpa using (h name hname).filled
    rw [namesIn, hsplit, List.filter_eq_self.mpr hfilled, List.map_map]
    simp [Function.comp_def]

/-- A text that starts with a name does not start with a slash. -/
theorem head?_intercalate (h : ∀ name ∈ names, IsName name) :
    ("/".intercalate names).toList.head? ≠ some '/' := by
  cases names with
  | nil => simp
  | cons first others =>
    have hfirst := h first List.mem_cons_self
    have hhead : ("/".intercalate (first :: others)).toList.head? = first.toList.head? := by
      have hfilled : first.toList ≠ [] := by simpa using hfirst.filled
      cases others with
      | nil => simp
      | cons second others => simp [List.head?_append_of_ne_nil _ hfilled]
    rw [hhead]
    exact fun hslash => hfirst.slash (List.mem_of_head? hslash)

/-- The text of an absolute path, that of the root included. -/
theorem toList_display_absolute (names : List String) :
    (display ⟨"" :: names⟩).toList = '/' :: ("/".intercalate names).toList := by
  unfold display isRoot
  by_cases hnames : names = []
  · subst hnames
    rfl
  · simp [hnames, String.intercalate_cons_of_ne_nil hnames]

/-- The text of a relative path. -/
theorem display_relative (h : ∀ name ∈ names, IsName name) :
    display ⟨names⟩ = "/".intercalate names := by
  unfold display isRoot
  rw [if_neg]
  intro hroot
  have hnames : names = [""] := by simpa using hroot
  exact (h "" (by simp [hnames])).filled rfl

/-- **A path of names comes back from its text.** -/
theorem Legible.parse_display (h : path.Legible) : parse path.display = path := by
  cases h with
  | relative hnames =>
    rw [parse_eq, display_relative hnames, if_neg (head?_intercalate hnames),
      namesIn_intercalate hnames]
  | absolute hnames =>
    rw [parse_eq, toList_display_absolute, List.head?_cons, if_pos rfl, namesIn_slash,
      namesIn_intercalate hnames]

-- a segment with a slash in it falls into two
example : parse (display ⟨["", "A/B"]⟩) = ⟨["", "A", "B"]⟩ := by decide

/-! ## Going down -/

/-- **A path is one step below another one.** -/
structure StepBelow (path base : Path) : Prop where
  /-- It has one segment more. -/
  length_eq : path.segments.length = base.segments.length + 1
  /-- The other one is found by going up. -/
  parent_eq : path.parent? = some base
  /-- It counts as a child of the other one. -/
  isChildOf : path.isChildOf base = true

/-- `(base.join segment).parent? = some base`. -/
theorem parent?_join (h : base.segments ≠ []) (segment : String) :
    (base.join segment).parent? = some base := by
  obtain ⟨segments⟩ := base
  cases segments with
  | nil => exact absurd rfl h
  | cons first others =>
    cases others with
    | nil => rfl
    | cons second others =>
      show some (Path.mk ((first :: second :: others) ++ [segment]).dropLast) = _
      rw [List.dropLast_concat]

/-- `path.endsWith path = true`. -/
theorem endsWith_self (path : Path) : path.endsWith path = true := by
  unfold endsWith
  split
  · simp
  · exact List.isSuffixOf_iff_suffix.mpr (List.suffix_refl _)

/-- **Joining a segment is one step down**, but for the path without segments, which no path is
below. -/
theorem stepBelow_join (h : base.segments ≠ []) (segment : String) :
    (base.join segment).StepBelow base where
  length_eq := by simp [join]
  parent_eq := parent?_join h segment
  isChildOf := by
    unfold isChildOf
    split
    · rfl
    · rw [parent?_join h segment]
      exact endsWith_self base

/-- A path of names with one more name. -/
theorem Legible.join (h : base.Legible) (hsegment : IsName segment) : (base.join segment).Legible := by
  have happend {names : List String} (hnames : ∀ name ∈ names, IsName name) :
      ∀ name ∈ names ++ [segment], IsName name := by
    intro name hname
    rcases List.mem_append.mp hname with hname | hname
    · exact hnames name hname
    · rwa [List.mem_singleton.mp hname]
  cases h with
  | relative hnames => exact .relative (happend hnames)
  | absolute hnames => exact .absolute (happend hnames)

end Path

/-! ## Drafts -/

/-- **No name of a document has a slash in it.** -/
def Markup.Document.SlashFree (document : Markup.Document) : Prop :=
  ∀ {i : Nat} {e : Markup.Element}, document.get? i = some e →
    '/' ∉ e.name.toList ∧ ∀ a ∈ e.attributes, '/' ∉ a.name.toList

/-- No reader of markup takes a slash for a part of a name. -/
theorem Markup.slashFree_readDocument (index : Index) : (readDocument index).1.SlashFree := by
  intro i e he
  have hwritten := (kept_readDocument index).written he
  exact ⟨hwritten.slash, fun a ha => (hwritten.attributes a ha).slash⟩

/-- The segment of an element is a name, even where the name of the element is blank. -/
theorem isName_segmentOf {e : Markup.Element} (h : '/' ∉ e.name.toList) :
    Path.IsName (segmentOf e) := by
  unfold segmentOf
  split
  · exact ⟨by decide, by decide⟩
  · next hblank =>
    refine ⟨fun hempty => ?_, h⟩
    rw [hempty] at hblank
    exact hblank rfl

namespace Draft

variable {index : Index} {document : Markup.Document} {draft : Draft} {base : Path}

/-- The path of the node of a draft. -/
def path : Draft → Path
  | .node _ _ path _ _ => path

/-- **A draft stands below a path**: its own one has one name more. -/
def Below (base : Path) (draft : Draft) : Prop :=
  ∃ segment, Path.IsName segment ∧ draft.path = base.join segment

/-- The drafts of an element lie below the path it is in. -/
theorem below_ofElement {e : Markup.Element} (h : '/' ∉ e.name.toList) :
    Below base (ofElement document index base e) := by
  rw [Markup.ofElement_eq]
  exact ⟨segmentOf e, isName_segmentOf h, rfl⟩

/-- So do those of an attribute. -/
theorem below_attributeDraft {a : Markup.Attribute} (h : '/' ∉ a.name.toList) :
    Below base (attributeDraft index base a) := by
  refine ⟨"@" ++ a.name, ⟨?_, ?_⟩, rfl⟩
  · intro hempty
    have := congrArg String.toList hempty
    simp at this
  · simpa using h

/-- A run makes a draft if it is not empty. -/
theorem below_of_mem_run {part : Part} {span : Span} {segment : String} {run : List Char}
    (hsegment : Path.IsName segment)
    (h : draft ∈ if run.isEmpty then [] else [leaf part span (base.join segment)]) :
    Below base draft := by
  split at h
  · cases h
  · rw [List.mem_singleton.mp h]
    exact ⟨segment, hsegment, rfl⟩

/-- So do those of a run of text. -/
theorem below_of_mem_textDrafts {start : Nat} {run : List Char}
    (h : draft ∈ textDrafts base start run) : Below base draft := by
  have htext : Path.IsName "#text" := ⟨by decide, by decide⟩
  have hblanks : Path.IsName "#whitespace" := ⟨by decide, by decide⟩
  rcases List.mem_append.mp h with h | h
  · rcases List.mem_append.mp h with h | h
    · exact below_of_mem_run hblanks h
    · exact below_of_mem_run htext h
  · exact below_of_mem_run hblanks h

/-- **What belongs to a draft stands below it.** -/
theorem Belongs.below (h : Belongs document index base draft) (free : document.SlashFree) :
    draft.Below base := by
  cases h with
  | ofElement he => exact below_ofElement (free he).1
  | ofAttribute a he ha => exact below_attributeDraft ((free he).2 a ha)
  | ofRun hdraft => exact below_of_mem_textDrafts hdraft

end Draft

/-! ## Nodes -/

namespace Model

open Draft

variable {index : Index} {document : Markup.Document} {parent previous : Option Nat} {id : Nat}
  {drafts : List Draft}

/-- The path of what nodes belong to; outermost nodes belong to the root. -/
def IsBase (model : Model) : Option Nat → Path → Prop
  | none, base => base = Path.root
  | some parent, base => ∃ m, model.get? parent = some m ∧ m.path = base

/-- **Drafts branch off from a path**, that of what they belong to. -/
structure BranchOff (model : Model) (parent : Option Nat) (base : Path) (drafts : List Draft) :
    Prop where
  /-- It is the path of what they belong to. -/
  isBase : model.IsBase parent base
  /-- It goes over names. -/
  legible : base.Legible
  /-- It goes somewhere. -/
  filled : base.segments ≠ []
  /-- All drafts stand below it. -/
  below : ∀ draft ∈ drafts, draft.Below base

/-- **One step down**: what belongs to a draft branches off from the path of that draft. -/
theorem BranchOff.inside {part : Part} {span : Span} {own base : Path}
    {attributes content inside : List Draft} (free : document.SlashFree)
    (h : (ofDocument document index).BranchOff parent base
      (.node part span own attributes content :: drafts))
    (row : Row (Draft.ofDocument document index) id parent previous
      (.node part span own attributes content :: drafts))
    (hinside : inside ⊆ attributes ++ content) :
    (ofDocument document index).BranchOff (some id) own inside := by
  have hdrawn := row.drawn _ List.mem_cons_self
  obtain ⟨segment, hsegment, hown⟩ := h.below _ List.mem_cons_self
  replace hown : own = base.join segment := hown
  constructor
  case isBase => exact ⟨_, get?_of_row row, rfl⟩
  case legible =>
    rw [hown]
    exact h.legible.join hsegment
  case filled =>
    rw [hown]
    simp [Path.join]
  case below => exact fun draft hdraft => (hdrawn.belongs draft (hinside hdraft)).below free

/-- **The drafts of all rows branch off** from the path of what they belong to. -/
theorem exists_branchOff (free : document.SlashFree)
    (row : Row (Draft.ofDocument document index) id parent previous drafts) :
    ∃ base, (ofDocument document index).BranchOff parent base drafts := by
  induction row with
  | outermost =>
    refine ⟨Path.root, rfl, .absolute (fun _ h => nomatch h), by decide, fun draft hdraft => ?_⟩
    obtain ⟨e, he, rfl⟩ := List.mem_map.mp hdraft
    obtain ⟨i, -, hget⟩ := List.mem_filterMap.mp he
    exact below_ofElement (free hget).1
  | tail _ ih =>
    obtain ⟨base, h⟩ := ih
    exact ⟨base, { h with below := fun draft hdraft => h.below draft (.tail _ hdraft) }⟩
  | attributes row ih =>
    obtain ⟨base, h⟩ := ih
    exact ⟨_, h.inside free row (List.subset_append_left _ _)⟩
  | content row ih =>
    obtain ⟨base, h⟩ := ih
    exact ⟨_, h.inside free row (List.subset_append_right _ _)⟩

/-- **The paths of a model follow its tree**, and come back from their texts. -/
structure Pathed (model : Model) : Prop where
  /-- Outermost nodes are one step below the root. -/
  outermost : ∀ {i : Nat} {n : Node}, model.get? i = some n → n.parent = none →
    n.path.StepBelow Path.root
  /-- All other nodes are one step below the node they belong to. -/
  inside : ∀ {i p : Nat} {n : Node}, model.get? i = some n → n.parent = some p →
    ∃ m, model.get? p = some m ∧ n.path.StepBelow m.path
  /-- The text of a path is read as that path. -/
  parse_display : ∀ {i : Nat} {n : Node}, model.get? i = some n →
    Path.parse n.path.display = n.path

/-- A node is one step below what it belongs to, and its path goes over names. -/
theorem exists_base {i : Nat} {n : Node} (free : document.SlashFree)
    (hn : (ofDocument document index).get? i = some n) :
    n.path.Legible ∧
      ∃ base, (ofDocument document index).IsBase n.parent base ∧ n.path.StepBelow base := by
  obtain ⟨parent, previous, draft, drafts, row, rfl⟩ := exists_row hn
  obtain ⟨base, h⟩ := exists_branchOff free row
  obtain ⟨segment, hsegment, hpath⟩ := h.below draft List.mem_cons_self
  cases draft with
  | node part span own attributes content =>
    replace hpath : own = base.join segment := hpath
    subst hpath
    exact ⟨h.legible.join hsegment, base, h.isBase, Path.stepBelow_join h.filled segment⟩

/-- The model of a document without slashes in its names is pathed. -/
theorem pathed_ofDocument (free : document.SlashFree) : (ofDocument document index).Pathed where
  outermost := by
    intro i n hn hparent
    obtain ⟨-, base, hbase, hstep⟩ := exists_base free hn
    rw [hparent] at hbase
    subst hbase
    exact hstep
  inside := by
    intro i p n hn hparent
    obtain ⟨-, base, hbase, hstep⟩ := exists_base free hn
    rw [hparent] at hbase
    obtain ⟨m, hm, rfl⟩ := hbase
    exact ⟨m, hm, hstep⟩
  parse_display := fun hn => (exists_base free hn).1.parse_display

end Model

/-- **Paths follow the tree and survive being written**, those of all nodes of a text and those that
are read from any text. -/
theorem Snapshot.pathed_ofText (text : String) :
    (ofText text).model.Pathed ∧
      ∀ written, Path.parse (Path.parse written).display = Path.parse written :=
  ⟨Model.pathed_ofDocument (Markup.slashFree_readDocument _),
    fun written => (Path.legible_parse written).parse_display⟩

end ProjectLens
