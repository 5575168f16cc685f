import ProjectLens.Proofs.Shapes
import ProjectLens.Proofs.Splitting

/-! # Runs of text fall into nodes

Text between the tags of an element is cut at the first and after the last character that is not white
space. No character is lost, and none is counted twice: the nodes of a run stand end to end where the
run stands, and put together their texts are the run.

* `Part.IsRun`: what can be cut off a run; `RunNodes`: nodes that a run falls into, end to end;
* `SplitRun`, `splitRun_textDrafts`: the nodes of a run, with at most one of text among them;
* `Markup.Content.Makes`: what the nodes of content are; `exists_pieces`: the nodes of an element, piece
  by piece;
* `Model.Lossless`, `Snapshot.lossless_ofText`: what holds of the nodes of every text. -/

namespace ProjectLens

variable {index : Index} {run left right : List Char} {start middle stop : Nat}
  {marks more : List (Part × Span)}

/-! ## Nodes end to end -/

/-- **What can be cut off a run**: white space, or text that neither starts nor ends with it. -/
def Part.IsRun : Part → Prop
  | .whitespace run => run ≠ "" ∧ ∀ c ∈ run.toList, isBlank c = true
  | .text run => (∃ c, run.toList.head? = some c ∧ isBlank c = false) ∧
      ∃ c, run.toList.getLast? = some c ∧ isBlank c = false
  | .element _ | .attribute _ => False

/-- Whether a part is text other than white space. -/
def Part.isText : Part → Bool
  | .text _ => true
  | _ => false

/-- **Nodes that a run of characters falls into**, from one offset to another. -/
structure RunNodes (index : Index) (start : Nat) (run : List Char) (marks : List (Part × Span))
    (stop : Nat) : Prop where
  /-- They stand end to end. -/
  abut : Abut start (marks.map Prod.snd) stop
  /-- Put together their texts are the run. -/
  joined : String.join (marks.filterMap fun mark => mark.1.text?) = String.ofList run
  /-- They are text or white space. -/
  isRun : ∀ mark ∈ marks, mark.1.IsRun
  /-- They say what is written where they stand. -/
  spelled : ∀ mark ∈ marks, mark.1.text? = some (index.slice mark.2)

/-- Spans that abut and meet abut together. -/
theorem Abut.append {spans spans' : List Span} (h : Abut start spans middle)
    (h' : Abut middle spans' stop) : Abut start (spans ++ spans') stop := by
  induction spans generalizing start with
  | nil =>
    obtain rfl : start = middle := h
    exact h'
  | cons span spans ih =>
    obtain ⟨hstart, hle, hrest⟩ := h
    exact ⟨hstart, hle, ih hrest⟩

/-- A run may go on where another one stops. -/
theorem RunNodes.append (h : RunNodes index start left marks middle)
    (h' : RunNodes index middle right more stop) :
    RunNodes index start (left ++ right) (marks ++ more) stop where
  abut := by
    rw [List.map_append]
    exact h.abut.append h'.abut
  joined := by
    rw [List.filterMap_append, String.join_append, h.joined, h'.joined, ← String.ofList_append]
  isRun := List.forall_mem_append.mpr ⟨h.isRun, h'.isRun⟩
  spelled := List.forall_mem_append.mpr ⟨h.spelled, h'.spelled⟩

/-- **A run of one kind of characters** has one node, or none when it is empty. -/
theorem runNodes_leaf {part : Part} (path : Path) (h : index.Holds ⟨start, stop⟩ (String.ofList run))
    (htext : part.text? = some (String.ofList run)) (hrun : run ≠ [] → part.IsRun) :
    RunNodes index start run
      ((if run.isEmpty then [] else [Draft.leaf part ⟨start, start + run.length⟩ path]).map
        Draft.mark) stop := by
  have hstop : start + run.length = stop := by
    have := Markup.length_run h
    rwa [String.toList_ofList] at this
  cases run with
  | nil => exact ⟨hstop, rfl, by simp, by simp⟩
  | cons c run =>
    rw [hstop]
    show RunNodes index start (c :: run) [(part, ⟨start, stop⟩)] stop
    refine ⟨⟨rfl, h.start_le, rfl⟩, ?_, ?_, ?_⟩
    · simp [htext]
    · simpa using hrun
    · simp [htext, h.slice_eq]

/-- A span is cut where the text it holds is. -/
theorem Index.Holds.cut (h : index.Holds ⟨start, stop⟩ (String.ofList (left ++ right))) :
    index.Holds ⟨start, start + left.length⟩ (String.ofList left) ∧
      index.Holds ⟨start + left.length, stop⟩ (String.ofList right) := by
  have hchars : SimpleList.charsOf index.chars ⟨start, stop⟩ = left ++ right := by
    have := congrArg String.toList h.slice_eq
    rwa [Index.slice, String.toList_ofList, String.toList_ofList] at this
  obtain ⟨hleft, hright, hsum⟩ := SimpleList.charsOf_cut h.stop_le h.start_le hchars
  have hmiddle : start + left.length ≤ stop := Nat.le.intro hsum
  constructor
  · exact ⟨Nat.le_add_right _ _, hmiddle.trans h.stop_le, congrArg String.ofList hleft⟩
  · exact ⟨hmiddle, h.stop_le, congrArg String.ofList hright⟩

/-! ## Runs of text -/

/-- **What a run of text is split into**: nodes that it falls into, with one of text among them unless
it is blank. -/
structure SplitRun (index : Index) (run : String) (place : Span) (marks : List (Part × Span)) : Prop
    extends RunNodes index place.start run.toList marks place.stop where
  /-- There is one node of text, and there is none just when the run is blank. -/
  count_text : marks.countP (fun mark => mark.1.isText) = if isBlankText run then 0 else 1

/-- Blanks at either side of a run, and what is between them. -/
theorem run_eq (run : List Char) : run = run.takeWhile isBlank ++
    (trimBlank run ++ (run.dropWhile isBlank).rtakeWhile isBlank) := by
  have hback : trimBlank run ++ (run.dropWhile isBlank).rtakeWhile isBlank =
      run.dropWhile isBlank := List.rdropWhile_append_rtakeWhile ..
  rw [hback, List.takeWhile_append_dropWhile]

/-- Cutting blanks off the back leaves the front as it is. -/
theorem head?_trimBlank (h : trimBlank run ≠ []) :
    (trimBlank run).head? = (run.dropWhile isBlank).head? := by
  obtain ⟨back, hback⟩ : trimBlank run <+: run.dropWhile isBlank := List.rdropWhile_prefix ..
  rw [← hback, List.head?_append_of_ne_nil _ h]

/-- **The text of a run** neither starts nor ends with a blank. -/
theorem isRun_trimBlank (h : trimBlank run ≠ []) :
    (Part.text (String.ofList (trimBlank run))).IsRun := by
  rw [Part.IsRun, String.toList_ofList]
  constructor
  · refine ⟨_, List.head?_eq_some_head h, ?_⟩
    refine Token.head?_dropWhile isBlank run _ ?_
    rw [← head?_trimBlank h]
    exact List.head?_eq_some_head h
  · refine ⟨_, List.getLast?_eq_some_getLast h, ?_⟩
    have := List.rdropWhile_last_not isBlank (run.dropWhile isBlank) h
    exact Bool.eq_false_iff.mpr this

/-- Blanks, at least one, are a run. -/
theorem isRun_blanks (hblank : ∀ c ∈ run, isBlank c = true) (hne : run ≠ []) :
    (Part.whitespace (String.ofList run)).IsRun := by
  rw [Part.IsRun, String.toList_ofList]
  refine ⟨fun h => hne ?_, hblank⟩
  have := congrArg String.toList h
  rwa [String.toList_ofList] at this

/-- Blanks are no text. -/
theorem countP_whitespaceDraft (path : Path) (start : Nat) (run : List Char) :
    ((whitespaceDraft path start run).map Draft.mark).countP (fun mark => mark.1.isText) = 0 := by
  rw [whitespaceDraft]
  split <;> rfl

/-- A run that is not empty gives one text node. -/
theorem countP_textDraft (path : Path) (start : Nat) (run : List Char) :
    ((textDraft path start run).map Draft.mark).countP (fun mark => mark.1.isText) =
      if run = [] then 0 else 1 := by
  cases run <;> rfl

/-- **A run has one node of text**, or none when it is blank. -/
theorem countP_textDrafts (path : Path) (start : Nat) (run : String) :
    ((textDrafts path start run.toList).map Draft.mark).countP (fun mark => mark.1.isText) =
      if isBlankText run then 0 else 1 := by
  simp only [textDrafts, List.map_append, List.countP_append, countP_whitespaceDraft, Nat.zero_add,
    Nat.add_zero, countP_textDraft]
  exact if_congr isBlankText_iff.symm rfl rfl

/-- **Every run of text is split into nodes**, whatever it is made of. -/
theorem splitRun_textDrafts {run : String} {place : Span} (h : index.Holds place run) (path : Path) :
    SplitRun index run place ((textDrafts path place.start run.toList).map Draft.mark) := by
  have hrun := run_eq run.toList
  -- three pieces stand end to end where the run stands
  have hwhole : index.Holds ⟨place.start, place.stop⟩ (String.ofList (run.toList.takeWhile isBlank ++
      (trimBlank run.toList ++ (run.toList.dropWhile isBlank).rtakeWhile isBlank))) := by
    rw [← hrun, String.ofList_toList]
    exact h
  obtain ⟨hleading, hrest⟩ := hwhole.cut
  obtain ⟨hcore, htrailing⟩ := hrest.cut
  have leading := runNodes_leaf (path.join "#whitespace") hleading rfl
    (isRun_blanks (Token.mem_takeWhile isBlank run.toList))
  have core := runNodes_leaf (path.join "#text") hcore rfl isRun_trimBlank
  have trailing := runNodes_leaf (path.join "#whitespace") htrailing rfl
    (isRun_blanks fun c hc => List.mem_rtakeWhile_imp hc)
  have nodes := (leading.append core).append trailing
  rw [List.append_assoc, ← hrun, ← List.map_append, ← List.map_append] at nodes
  exact ⟨nodes, countP_textDrafts path place.start run⟩

/-! ## What stands in an element -/

namespace Markup

variable {document : Document} {e : Element} {i : Nat} {own : Path}

/-- **What the nodes of content are**: those that a run falls into, the node of an element, and none for
a comment. -/
def Content.Makes (document : Document) (index : Index) : Content → List (Part × Span) → Prop
  | .text run place, marks | .cdata run place, marks => SplitRun index run place marks
  | .element id, marks => ∃ child, document.get? id = some child ∧
      marks = [(.element (elementPart index child), (shapeOf index child).2)]
  | .comment .., marks => marks = []

/-- An element in another one is found, and comes after it. -/
theorem Linked.exists_child (h : Linked document.elements document.roots)
    (he : document.get? i = some e) {id : Nat} (hc : .element id ∈ e.content) :
    ∃ child, document.get? id = some child ∧ e.id < child.id ∧ child.id < document.elements.size := by
  rw [← mem_childElements, h.children_eq he, mem_childrenOf] at hc
  obtain ⟨hlt, hparent⟩ := hc
  have hget : document.get? id = some document.elements[id] := Array.getElem?_eq_getElem hlt
  rw [parentOf, ← Document.get?, hget] at hparent
  refine ⟨_, hget, ?_⟩
  rw [h.id_eq he, h.id_eq hget]
  exact ⟨h.parent_lt hget hparent, hlt⟩

/-- **The nodes of what stands in an element with an end tag.** -/
theorem Kept.makes_drafts (h : Kept index document.elements document.roots [] index.length)
    (he : document.get? i = some e) {tag : Span} (hend : e.endTag = some tag) (own : Path) :
    ∀ c ∈ e.content,
      c.Makes document index ((c.drafts document index e own (shapeOf index e).2).map Draft.mark) := by
  intro c hc
  have hwritten := (h.written he).content c hc
  -- the node of the element is all of it, so there is room for every run
  have hinside : e.span.encloses (c.spanIn document.elements) = true := by
    obtain ⟨hstart, -, hstop⟩ := h.inside_of_get he hc
    exact decide_eq_true ⟨hstart, hstop⟩
  have hsplit {run : String} {place : Span} (hholds : index.Holds place run)
      (hplace : e.span.encloses place = true) : SplitRun index run place
        ((if e.span.encloses place then textDrafts own place.start run.toList else []).map
          Draft.mark) := by
    rw [if_pos hplace]
    exact splitRun_textDrafts hholds own
  rw [shapeOf_of_endTag hend]
  cases c with
  | element id =>
    obtain ⟨child, hchild, hlater⟩ := h.linked.exists_child he hc
    refine ⟨child, hchild, ?_⟩
    rw [Content.drafts, hchild]
    simp only [if_pos hlater, List.map_cons, List.map_nil, ofElement_eq]
    rfl
  | text run place => exact hsplit hwritten hinside
  | cdata run place => exact hsplit hwritten hinside
  | comment run place => rfl

/-- **The nodes of text in an element** are those of its runs. -/
theorem Content.Written.isRun_of_mem_drafts {c : Content} (h : c.Written index) {node : Span}
    {mark : Part × Span} (hmark : mark ∈ (c.drafts document index e own node).map Draft.mark)
    (htext : mark.1.text?.isSome = true) :
    mark.1.IsRun ∧ mark.1.text? = some (index.slice mark.2) := by
  -- both kinds of text are split in the same way
  have hrun {run : String} {place : Span} (hholds : index.Holds place run)
      (hmark : mark ∈ (if node.encloses place then textDrafts own place.start run.toList else []).map
        Draft.mark) : mark.1.IsRun ∧ mark.1.text? = some (index.slice mark.2) := by
    split at hmark
    · have hsplit := splitRun_textDrafts hholds own
      exact ⟨hsplit.isRun mark hmark, hsplit.spelled mark hmark⟩
    · cases hmark
  cases c with
  | element id =>
    rw [Content.drafts] at hmark
    split at hmark
    · split at hmark
      · rw [List.map_singleton, List.mem_singleton, ofElement_eq] at hmark
        rw [hmark] at htext
        cases htext
      · cases hmark
    · cases hmark
  | text run place => exact hrun h hmark
  | cdata run place => exact hrun h hmark
  | comment run place => cases hmark

end Markup

/-- **Nodes by what they are made from**: what is known of the drafts of each item holds of a piece of
the nodes, and the pieces make up all of them. -/
theorem exists_pieces {α : Type} {items : List α} {draftsOf : α → List Draft} {nodes : List Node}
    {made : α → List (Part × Span) → Prop}
    (heq : nodes.map Node.mark = (items.flatMap draftsOf).map Draft.mark)
    (hmade : ∀ item ∈ items, made item ((draftsOf item).map Draft.mark)) :
    ∃ pieces : List (List Node), nodes = pieces.flatten ∧
      List.Forall₂ (fun item piece => made item (piece.map Node.mark)) items pieces := by
  induction items generalizing nodes with
  | nil =>
    refine ⟨[], ?_, .nil⟩
    exact List.map_eq_nil_iff.mp heq
  | cons item items ih =>
    rw [List.flatMap_cons, List.map_append, List.map_eq_append_iff] at heq
    obtain ⟨piece, rest, rfl, hpiece, hrest⟩ := heq
    have hlater := fun item hitem => hmade item (List.mem_cons_of_mem _ hitem)
    obtain ⟨pieces, rfl, hpieces⟩ := ih hrest hlater
    refine ⟨piece :: pieces, rfl, .cons ?_ hpieces⟩
    rw [hpiece]
    exact hmade item List.mem_cons_self

/-! ## Models -/

namespace Model

variable {document : Markup.Document} {e : Markup.Element} {n : Node} {i : Nat}

/-- **No text of an element with an end tag is lost**: its node has the nodes of what stands between its
tags in their order, and all nodes of text say what is written where they stand. -/
structure Lossless (document : Markup.Document) (index : Index) (model : Model) : Prop where
  /-- The nodes in an element fall into pieces, one for each thing that stands between its tags. -/
  pieces : ∀ {i : Nat} {e : Markup.Element} {tag : Span}, document.get? i = some e →
    e.endTag = some tag → ∃ id n pieces, model.get? id = some n ∧
      n.mark = (.element (elementPart index e), e.span) ∧ model.contentOf n = pieces.flatten ∧
      List.Forall₂ (fun c piece => c.Makes document index (piece.map Node.mark)) e.content pieces
  /-- Nodes of text and of blanks. -/
  runs : ∀ {i : Nat} {n : Node}, model.get? i = some n → n.part.text?.isSome = true →
    n.part.IsRun ∧ n.part.text? = some (index.slice n.span)

/-- **Every element has a node that stands for it.** -/
theorem exists_depicts_of_get (linked : Markup.Linked document.elements document.roots)
    (he : document.get? i = some e) : ∃ id n, (ofDocument document index).get? id = some n ∧
      Depicts document index (ofDocument document index) e n := by
  obtain ⟨id, parent, previous, path, drafts, row⟩ := linked.exists_row index he
  exact ⟨id, _, get?_of_row row, depicts_of_row row⟩

/-- Outermost nodes are elements. -/
theorem text?_of_mem_roots (hi : i ∈ (ofDocument document index).roots)
    (hn : (ofDocument document index).get? i = some n) : n.part.text? = none := by
  have hmark : n.mark ∈ (Draft.ofDocument document index).map Draft.mark := by
    rw [← map_mark_of_row .outermost]
    exact List.mem_map_of_mem (List.mem_filterMap.mpr ⟨i, hi, hn⟩)
  obtain ⟨draft, hdraft, hmark⟩ := List.mem_map.mp hmark
  obtain ⟨e, -, rfl⟩ := List.mem_map.mp hdraft
  rw [Markup.ofElement_eq] at hmark
  have hpart : n.part = .element (elementPart index e) := congrArg Prod.fst hmark.symm
  rw [hpart]
  rfl

/-- **Nodes of text come from runs.** -/
theorem isRun_of_get (kept : Markup.Kept index document.elements document.roots [] index.length)
    (hn : (ofDocument document index).get? i = some n) (htext : n.part.text?.isSome = true) :
    n.part.IsRun ∧ n.part.text? = some (index.slice n.span) := by
  -- a text is listed by its parent, so it was drawn from the content of an element
  have hlists := lists_parent hn
  cases hparent : n.parent with
  | none =>
    rw [hparent] at hlists
    rw [text?_of_mem_roots hlists hn] at htext
    cases htext
  | some p =>
    rw [hparent] at hlists
    obtain ⟨m, hm, hmem⟩ := hlists
    rcases depicts_or_leaf hm with ⟨j, e, he, hdepicts⟩ | ⟨-, hattributes, hcontent⟩
    · rcases List.mem_append.mp hmem with hmem | hmem
      · -- attributes are no text
        have hmark : n.mark ∈ e.markup index := by
          rw [← hdepicts.markup_eq]
          refine List.mem_cons_of_mem _ (List.mem_map_of_mem ?_)
          exact List.mem_filterMap.mpr ⟨i, hmem, hn⟩
        have hnone : n.part.text?.isNone = true := Markup.text?_of_mem_markup hmark
        rw [Option.isNone_iff_eq_none.mp hnone] at htext
        cases htext
      · obtain ⟨own, heq⟩ := hdepicts.content_eq
        have hmark : n.mark ∈ ((ofDocument document index).contentOf m).map Node.mark :=
          List.mem_map_of_mem (List.mem_filterMap.mpr ⟨i, hmem, hn⟩)
        rw [heq, List.map_flatMap, List.mem_flatMap] at hmark
        obtain ⟨c, hc, hmark⟩ := hmark
        exact ((kept.written he).content c hc).isRun_of_mem_drafts hmark htext
    · rw [hattributes, hcontent] at hmem
      cases hmem

/-- **The nodes of a document lose no text.** -/
theorem lossless_ofDocument
    (kept : Markup.Kept index document.elements document.roots [] index.length) :
    (ofDocument document index).Lossless document index where
  pieces := by
    intro i e tag he hend
    obtain ⟨id, n, hn, hdepicts⟩ := exists_depicts_of_get kept.linked he
    obtain ⟨own, heq⟩ := hdepicts.content_eq
    obtain ⟨pieces, hflatten, hpieces⟩ := exists_pieces heq (kept.makes_drafts he hend own)
    have hspan : (shapeOf index e).2 = e.span := Markup.shapeOf_of_endTag hend
    refine ⟨id, n, pieces, hn, ?_, hflatten, hpieces⟩
    rw [← hspan]
    exact (List.cons.inj hdepicts.markup_eq).1
  runs := isRun_of_get kept

end Model

/-- **No text is lost in the model of a text**, however broken that is. -/
theorem Snapshot.lossless_ofText (text : String) :
    (Snapshot.ofText text).model.Lossless (Snapshot.ofText text).document
      (Snapshot.ofText text).index :=
  Model.lossless_ofDocument (Markup.kept_readDocument _)

end ProjectLens
