import Mathlib.Data.List.TakeWhile
import ProjectLens.Model.Assembly
import ProjectLens.Proofs.Laminar
import ProjectLens.Proofs.Rows

/-! # The walk pushes the nodes of the drafts

A walk through a document keeps a stack of the elements that are open and pushes nodes as it comes to them.
The drafts of a document are the same tree without numbers, so what is pushed for an element, from its
opening to its closing, are the nodes of its draft but for the links to neighbours, whatever is open around
it and whatever has been pushed before. That is one equation for the turns an element takes, and it needs
that the elements in an element come after it, as they do in what is read from a text.

* `Node.bare`, `Draft.bareFrom`: nodes without links to their neighbours;
* `Assembly.pushAll_eq`, `Assembly.textRuns_eq`: attributes and runs of text;
* `Assembly.Walks`: what the turns of an element come to; `Assembly.run_content`, `Assembly.walks`;
* `Assembly.pushTrees_eq`: all that the walk pushes. -/

namespace ProjectLens

variable {index : Index} {document : Markup.Document}

/-- A node without links to its neighbours. -/
def Node.bare (n : Node) : Node := { n with previous := none, next := none }

namespace Draft

/-- The nodes of a draft without links to their neighbours. -/
def bareFrom (index : Index) (id : Nat) (parent : Option Nat) (draft : Draft) : List Node :=
  (nodesFrom index id parent none none draft).map Node.bare

/-- The nodes of consecutive drafts without links to their neighbours. -/
def bareAllFrom (index : Index) (id : Nat) (parent : Option Nat) (drafts : List Draft) : List Node :=
  (nodesAllFrom index id parent none drafts).map Node.bare

variable {draft : Draft} {drafts more : List Draft} {id : Nat} {parent previous next : Option Nat}

/-- Without links it does not matter which ones there were. -/
theorem map_bare_nodesFrom :
    (nodesFrom index id parent previous next draft).map Node.bare = bareFrom index id parent draft := by
  cases draft
  rfl

/-- Without their links, the nodes of drafts are the bare ones. -/
theorem map_bare_nodesAllFrom :
    (nodesAllFrom index id parent previous drafts).map Node.bare =
      bareAllFrom index id parent drafts := by
  cases drafts with
  | nil => rfl
  | cons draft drafts =>
    rw [bareAllFrom, nodesAllFrom, nodesAllFrom, List.map_append, List.map_append, map_bare_nodesFrom,
      map_bare_nodesFrom]

/-- The bare nodes of a first draft and of the others, numbered on from there. -/
theorem bareAllFrom_cons : bareAllFrom index id parent (draft :: drafts) =
    bareFrom index id parent draft ++ bareAllFrom index (id + draft.size) parent drafts := by
  rw [bareAllFrom, nodesAllFrom, List.map_append, map_bare_nodesFrom, map_bare_nodesAllFrom]

/-- `sizeAll (drafts ++ more) = sizeAll drafts + sizeAll more`. -/
theorem sizeAll_append : sizeAll (drafts ++ more) = sizeAll drafts + sizeAll more := by
  induction drafts with
  | nil => exact (Nat.zero_add _).symm
  | cons draft drafts ih => rw [List.cons_append, sizeAll, sizeAll, ih, Nat.add_assoc]

/-- Drafts behind others are numbered behind them. -/
theorem ids_append : ids id (drafts ++ more) = ids id drafts ++ ids (id + sizeAll drafts) more := by
  induction drafts generalizing id with
  | nil => rfl
  | cons draft drafts ih =>
    rw [List.cons_append, ids, ids, ih, sizeAll, Nat.add_assoc, List.cons_append]

/-- The bare nodes of drafts and of more drafts, numbered on from there. -/
theorem bareAllFrom_append : bareAllFrom index id parent (drafts ++ more) =
    bareAllFrom index id parent drafts ++ bareAllFrom index (id + sizeAll drafts) parent more := by
  induction drafts generalizing id with
  | nil => rfl
  | cons draft drafts ih =>
    rw [List.cons_append, bareAllFrom_cons, bareAllFrom_cons, ih, sizeAll, Nat.add_assoc,
      List.append_assoc]

/-- `(bareFrom index id parent draft).length = draft.size`. -/
theorem length_bareFrom : (bareFrom index id parent draft).length = draft.size := by
  rw [bareFrom, List.length_map, length_nodesFrom]

/-- `(bareAllFrom index id parent drafts).length = sizeAll drafts`. -/
theorem length_bareAllFrom : (bareAllFrom index id parent drafts).length = sizeAll drafts := by
  rw [bareAllFrom, List.length_map, length_nodesAllFrom]

/-- The nodes of a draft are its own, those of its attributes and those of its content. -/
theorem bareFrom_node (part : Part) (span : Span) (path : Path) (attributes content : List Draft) :
    bareFrom index id parent (.node part span path attributes content) =
      ownNode index id parent none none (.node part span path attributes content) ::
        (bareAllFrom index (id + 1) (some id) attributes ++
          bareAllFrom index (id + 1 + sizeAll attributes) (some id) content) := by
  rw [bareFrom, nodesFrom_node, List.map_cons, List.map_append]
  rfl

end Draft

namespace Assembly

open Draft

variable {nodes : Array Node} {parent : Option Nat} {id : Nat}

/-! ## Pushing -/

/-- Nodes pushed behind nodes that have been pushed. -/
theorem append_append (nodes : Array Node) (xs ys : List Node) :
    nodes ++ xs.toArray ++ ys.toArray = nodes ++ (xs ++ ys).toArray := by
  rw [Array.append_assoc, List.append_toArray xs]

/-- `(nodes ++ xs.toArray).size = nodes.size + xs.length`. -/
theorem size_append (nodes : Array Node) (xs : List Node) :
    (nodes ++ xs.toArray).size = nodes.size + xs.length :=
  Array.size_append

/-- The draft of what is pushed. -/
def leafDraft (leaf : Part × Span × Path) : Draft := .leaf leaf.1 leaf.2.1 leaf.2.2

/-- **What is pushed one after another are the nodes of drafts to which nothing belongs.** -/
theorem pushAll_eq (index : Index) (parent : Nat) (nodes : Array Node)
    (leaves : List (Part × Span × Path)) :
    pushAll index parent nodes leaves =
      (nodes ++ (bareAllFrom index nodes.size (some parent) (leaves.map leafDraft)).toArray,
        ids nodes.size (leaves.map leafDraft)) := by
  induction leaves generalizing nodes with
  | nil => simp [pushAll, bareAllFrom, nodesAllFrom, ids]
  | cons leaf leaves ih =>
    obtain ⟨part, span, path⟩ := leaf
    have hsize : (leafDraft (part, span, path)).size = 1 := rfl
    have hown : push index nodes (some parent) part span path =
        nodes ++ (bareFrom index nodes.size (some parent) (leafDraft (part, span, path))).toArray :=
      Array.push_eq_append
    have hnext : (push index nodes (some parent) part span path).size = nodes.size + 1 :=
      Array.size_push ..
    rw [pushAll, ih, hnext, hown, List.map_cons, bareAllFrom_cons, ids, hsize, append_append]

/-- The draft of an attribute. -/
theorem leafDraft_attributeLeaf (path : Path) (attr : Markup.Attribute) :
    leafDraft (attributeLeaf index path attr) = attributeDraft index path attr :=
  rfl

/-- The leaves of attributes are their drafts. -/
theorem map_leafDraft_attributes (path : Path) (attributes : List Markup.Attribute) :
    (attributes.map (attributeLeaf index path)).map leafDraft =
      attributes.map (attributeDraft index path) := by
  rw [List.map_map]
  rfl

/-- A run is pushed in the parts it is made of. -/
theorem textRuns_append (path : Path) (start : Nat) {leading core trailing run : List Char}
    (hrun : run = leading ++ (core ++ trailing)) (hcore : core ≠ [])
    (hleading : (run.takeWhile isBlank).length = leading.length)
    (htrailing : (run.reverse.takeWhile isBlank).length = trailing.length) :
    (textRuns path start run).map leafDraft = whitespaceDraft path start leading ++
      textDraft path (start + leading.length) core ++
      whitespaceDraft path (start + leading.length + core.length) trailing := by
  have hlength : run.length = leading.length + core.length + trailing.length := by
    rw [hrun, List.length_append, List.length_append, Nat.add_assoc]
  have hpos : 0 < core.length := List.length_pos_iff.mpr hcore
  have hempty : run.isEmpty = false := by
    rw [List.isEmpty_eq_false_iff, ← List.length_pos_iff]
    omega
  -- where the cuts fall, and what lies between them
  have hstop : run.length - trailing.length = leading.length + core.length := by omega
  have htake : run.take leading.length = leading := by rw [hrun, List.take_left]
  have hmiddle : (run.take (leading.length + core.length)).drop leading.length = core := by
    rw [hrun, List.take_length_add_append, List.drop_left, List.take_left]
  have hdrop : run.drop (leading.length + core.length) = trailing := by
    rw [hrun, List.drop_length_add_append, List.drop_left]
  have htext : textDraft path (start + leading.length) core =
      [.leaf (.text (String.ofList core)) ⟨start + leading.length, start + leading.length + core.length⟩
        (path.join "#text")] := by
    rw [textDraft, if_neg (by simpa using hcore)]
  have hblank : ∀ (place : Nat) (blanks : List Char), (if 0 < blanks.length then
      [whitespaceRun path place blanks] else []).map leafDraft = whitespaceDraft path place blanks := by
    intro place blanks
    cases blanks <;> rfl
  rw [textRuns, hleading, htrailing, hempty, if_neg Bool.false_ne_true, if_neg (by omega), hstop,
    htake, hmiddle, hdrop, List.map_append, List.map_cons, hblank, hblank, htext, List.append_assoc,
    Nat.add_assoc]
  rfl

/-- **A run falls into the same parts**, whether blanks are counted from both ends or taken off. -/
theorem textRuns_eq (path : Path) (start : Nat) (run : List Char) :
    (textRuns path start run).map leafDraft = textDrafts path start run := by
  obtain ⟨leading, hleading⟩ : ∃ leading, run.takeWhile isBlank = leading := ⟨_, rfl⟩
  obtain ⟨rest, hrest⟩ : ∃ rest, run.dropWhile isBlank = rest := ⟨_, rfl⟩
  obtain ⟨trailing, htrailing⟩ : ∃ trailing, (rest.reverse.takeWhile isBlank).reverse = trailing :=
    ⟨_, rfl⟩
  obtain ⟨core, hcore⟩ : ∃ core, (rest.reverse.dropWhile isBlank).reverse = core := ⟨_, rfl⟩
  have hrun : run = leading ++ rest := by
    rw [← hleading, ← hrest, List.takeWhile_append_dropWhile]
  have hparts : rest = core ++ trailing := by
    rw [← htrailing, ← hcore, ← List.reverse_append, List.takeWhile_append_dropWhile,
      List.reverse_reverse]
  rw [textDrafts, hleading, hrest, htrailing, hcore]
  cases rest with
  | nil =>
    -- only blanks, or nothing
    obtain ⟨rfl, rfl⟩ := List.append_eq_nil_iff.mp hparts.symm
    rw [List.append_nil] at hrun
    rw [textRuns, hleading, hrun]
    cases leading with
    | nil => rfl
    | cons c leading => simp [whitespaceRun, whitespaceDraft, textDraft, leafDraft]
  | cons c rest =>
    -- what is left of the blanks in front starts with a character that is none
    have hc : isBlank c = false := by
      have := List.head?_dropWhile_not isBlank run
      rwa [hrest] at this
    have hlast : ((c :: rest).reverse.takeWhile isBlank).length ≠ (c :: rest).reverse.length := by
      intro hall
      have hmem : c ∈ (c :: rest).reverse.takeWhile isBlank := by
        rw [(List.takeWhile_prefix _).eq_of_length hall]
        simp
      rw [List.mem_takeWhile_imp hmem] at hc
      cases hc
    refine textRuns_append path start (hparts ▸ hrun) ?_ (congrArg List.length hleading) ?_
    · rintro rfl
      rw [List.nil_append] at hparts
      rw [← hparts] at htrailing
      refine hlast ?_
      rw [List.length_reverse, ← List.length_reverse, htrailing]
    · rw [hrun, List.reverse_append, List.takeWhile_append, if_neg hlast, ← htrailing,
        List.length_reverse]

/-- What is written into the first node behind others. -/
theorem patch_append {own : Node} (hown : own.part.isElement = true) (rest : List Node)
    (change : Node → Node) :
    patch (nodes ++ (own :: rest).toArray) nodes.size change =
      .ok (nodes ++ (change own :: rest).toArray) := by
  have hlt : nodes.size < (nodes ++ (own :: rest).toArray).size := by simp
  rw [patch, write, if_pos hlt]
  congr 1
  ext i
  · simp
  · grind

/-! ## Opening and closing -/

/-- The node of an element before its content is known. -/
def openedNode (index : Index) (id : Nat) (parent : Option Nat) (around : Path)
    (element : Markup.Element) : Node :=
  ownNode index id parent none none
    (.node (.element (elementPart index element)) (shapeOf index element).2
      (around.join (segmentOf element))
      (element.attributes.map (attributeDraft index (around.join (segmentOf element)))) [])

/-- **An element is opened with its attributes**: their nodes come right behind its own, which knows their
numbers. -/
theorem openElement_eq (nodes : Array Node) (element : Markup.Element) (parent : Option Nat)
    (around : Path) :
    openElement index nodes element parent around = .ok
      (nodes ++ (openedNode index nodes.size parent around element ::
          bareAllFrom index (nodes.size + 1) (some nodes.size)
            (element.attributes.map (attributeDraft index (around.join (segmentOf element))))).toArray,
        ⟨nodes.size, element, (shapeOf index element).2, around.join (segmentOf element), 0, []⟩) := by
  have hpush (part : Part) (span : Span) (path : Path) :
      push index nodes parent part span path =
        nodes ++ [ownNode index nodes.size parent none none (.leaf part span path)].toArray :=
    Array.push_eq_append
  have hsize (part : Part) (span : Span) (path : Path) :
      (push index nodes parent part span path).size = nodes.size + 1 := Array.size_push ..
  rw [openElement]
  simp only [pushAll_eq, hsize, map_leafDraft_attributes]
  rw [hpush, append_append, List.singleton_append, patch_append rfl]
  rfl

/-! ## The walk -/

/-- The number of turns for what stands between the tags of an element. -/
def itemTurns (document : Markup.Document) (element : Markup.Element) : Markup.Content → Nat
  | .element id =>
    match document.get? id with
    | some child =>
      if element.id < child.id ∧ child.id < document.elements.size then turns document child + 1
      else 1
    | none => 1
  | _ => 1

/-- The turns an element takes are those of its content and one to close it. -/
theorem turns_eq (document : Markup.Document) (element : Markup.Element) :
    turns document element = total (element.content.map (itemTurns document element)) + 1 := by
  rw [turns]
  rfl

/-- **The elements in an element are there and come after it.** -/
def Descending (document : Markup.Document) : Prop :=
  ∀ {i : Nat} {e : Markup.Element} {id : Nat}, document.get? i = some e → .element id ∈ e.content →
    ∃ child, document.get? id = some child ∧ e.id < child.id ∧ child.id < document.elements.size

/-- **The turns of an element come to its nodes**: from its opening on, they push the nodes of its draft and
leave its number with the element around it, whatever is open and whatever is to come. -/
def Walks (document : Markup.Document) (index : Index) (e : Markup.Element) : Prop :=
  ∀ (nodes : Array Node) (parent : Option Nat) (around : Path) (frames : List Frame) (left : Nat),
    (openElement index nodes e parent around >>= fun (nodes, frame) =>
        run document index (turns document e + left) nodes (frame :: frames)) =
      run document index left
        (nodes ++ (bareFrom index nodes.size parent (ofElement document index around e)).toArray)
        (adopt nodes.size frames)

/-- A frame after some of its content. -/
def Frame.past (frame : Frame) (count : Nat) (ids : List Nat) : Frame :=
  { frame with next := frame.next + count, content := frame.content ++ ids }

/-- The drafts of what stands between the tags of the element that is being walked. -/
def Frame.drafts (document : Markup.Document) (index : Index) (frame : Frame) :
    Markup.Content → List Draft :=
  Markup.Content.drafts document index frame.element frame.path frame.span

/-- **One thing in an element becomes its nodes**, if the elements in it do. -/
theorem run_item (frame : Frame) {item : Markup.Content} (descending : Descending document)
    {i : Nat} (hframe : document.get? i = some frame.element)
    (hitem : frame.element.content[frame.next]? = some item)
    (hwalks : ∀ id child, item = .element id → document.get? id = some child →
      Walks document index child) (nodes : Array Node) (frames : List Frame) (left : Nat) :
    run document index (itemTurns document frame.element item + left) nodes (frame :: frames) =
      run document index left
        (nodes ++ (bareAllFrom index nodes.size (some frame.id)
          (frame.drafts document index item)).toArray)
        (frame.past 1 (ids nodes.size (frame.drafts document index item)) :: frames) := by
  cases item with
  | element id =>
    obtain ⟨child, hchild, hlater⟩ := descending hframe (List.mem_of_getElem? hitem)
    -- the child takes its own turns, after the one that opened it
    have hturns : itemTurns document frame.element (.element id) + left =
        turns document child + left + 1 := by
      rw [itemTurns, hchild]
      simp only [if_pos hlater]
      omega
    have hdrafts : frame.drafts document index (.element id) =
        [ofElement document index frame.path child] := by
      rw [Frame.drafts, Markup.Content.drafts, hchild]
      simp only [if_pos hlater]
    -- the walk of the child comes back to this frame, one item further on
    have hwalk := hwalks id child rfl hchild nodes (some frame.id) frame.path
      ({ frame with next := frame.next + 1 } :: frames) left
    have hnodes : bareAllFrom index nodes.size (some frame.id) [ofElement document index frame.path child] =
        bareFrom index nodes.size (some frame.id) (ofElement document index frame.path child) := by
      rw [bareAllFrom_cons]
      exact List.append_nil _
    rw [hturns, hdrafts, hnodes, run, turn, hitem]
    simp only [hchild]
    rw [openElement_eq] at hwalk ⊢
    exact hwalk
  | text content place | cdata content place =>
    -- the runs are pushed at once, and the frame learns of them
    have hpush : pushText index nodes { frame with next := frame.next + 1 } content place =
        (nodes ++ (bareAllFrom index nodes.size (some frame.id)
            (frame.drafts document index (.text content place))).toArray,
          frame.past 1 (ids nodes.size (frame.drafts document index (.text content place)))) := by
      rw [pushText, Frame.drafts, Markup.Content.drafts]
      split
      · simp only [pushAll_eq, textRuns_eq, Frame.past]
      · simp [bareAllFrom, nodesAllFrom, ids, Frame.past]
    show run document index (1 + left) nodes (frame :: frames) = _
    rw [Nat.add_comm, run, turn, hitem]
    simp only [hpush]
    rfl
  | comment content place =>
    -- a comment leaves no node
    have hnodes : nodes ++ (bareAllFrom index nodes.size (some frame.id)
        (frame.drafts document index (.comment content place))).toArray = nodes := Array.append_empty
    have hframe' : frame.past 1 (ids nodes.size (frame.drafts document index (.comment content place))) =
        { frame with next := frame.next + 1 } := by
      rw [Frame.past, Frame.drafts, Markup.Content.drafts, ids, List.append_nil]
    show run document index (1 + left) nodes (frame :: frames) = _
    rw [Nat.add_comm, run, turn, hitem, hnodes, hframe']
    rfl

/-- **What stands between the tags of an element becomes its nodes**, item by item. -/
theorem run_content {items : List Markup.Content} (frame : Frame)
    (descending : Descending document) {i : Nat} (hframe : document.get? i = some frame.element)
    (hitems : frame.element.content.drop frame.next = items)
    (hwalks : ∀ id child, .element id ∈ items → document.get? id = some child →
      Walks document index child) (nodes : Array Node) (frames : List Frame) (left : Nat) :
    run document index (total (items.map (itemTurns document frame.element)) + left) nodes
        (frame :: frames) =
      run document index left
        (nodes ++ (bareAllFrom index nodes.size (some frame.id)
          (items.flatMap (frame.drafts document index))).toArray)
        (frame.past items.length (ids nodes.size (items.flatMap (frame.drafts document index))) ::
          frames) := by
  induction items generalizing frame nodes with
  | nil => simp [total, bareAllFrom, nodesAllFrom, ids, Frame.past]
  | cons item items ih =>
    have hitem : frame.element.content[frame.next]? = some item := by
      rw [← List.head?_drop, hitems]
      rfl
    have hrest : frame.element.content.drop (frame.next + 1) = items := by
      rw [← List.tail_drop, hitems]
      rfl
    -- the first item, and then the others from the frame it leaves behind
    have hstep := run_item frame descending hframe hitem
      (fun id child hid => hwalks id child (hid ▸ List.mem_cons_self)) nodes frames
      (total (items.map (itemTurns document frame.element)) + left)
    have hlater := ih (frame.past 1 (ids nodes.size (frame.drafts document index item)))
      hframe hrest (fun id child hid => hwalks id child (List.mem_cons_of_mem _ hid))
      (nodes ++ (bareAllFrom index nodes.size (some frame.id)
        (frame.drafts document index item)).toArray)
    rw [List.map_cons, total, Nat.add_assoc, hstep]
    refine hlater.trans ?_
    have hsize : (nodes ++ (bareAllFrom index nodes.size (some frame.id)
        (frame.drafts document index item)).toArray).size =
        nodes.size + sizeAll (frame.drafts document index item) := by
      rw [size_append, length_bareAllFrom]
    have hdrafts : (frame.past 1 (ids nodes.size (frame.drafts document index item))).drafts document
        index = frame.drafts document index := rfl
    rw [hsize, hdrafts, append_append, List.flatMap_cons, bareAllFrom_append, ids_append]
    simp only [Frame.past, List.append_assoc, List.length_cons, Nat.add_assoc, Nat.add_comm 1]

/-- **An element is closed** once there is nothing more in it. -/
theorem run_close {frame : Frame} (hend : frame.element.content[frame.next]? = none)
    {nodes closed : Array Node}
    (hclosed : patch nodes frame.id (fun node => { node with content := frame.content }) = .ok closed)
    (frames : List Frame) (left : Nat) :
    run document index (1 + left) nodes (frame :: frames) =
      run document index left closed (adopt frame.id frames) := by
  rw [Nat.add_comm, run, turn, hend]
  simp only [hclosed]
  rfl

/-- **The turns of every element come to its nodes.** -/
theorem walks (descending : Descending document) {i : Nat} {e : Markup.Element}
    (he : document.get? i = some e) : Walks document index e := by
  -- by how many elements may still come behind the element
  induction hbehind : document.elements.size - e.id using Nat.strongRecOn generalizing i e with
  | _ behind ih =>
    intro nodes parent around frames left
    have hchildren : ∀ id child, .element id ∈ e.content → document.get? id = some child →
        Walks document index child := by
      intro id child hid hchild
      obtain ⟨child', hchild', hlater, hsize⟩ := descending he hid
      obtain rfl : child' = child := Option.some.inj (hchild'.symm.trans hchild)
      exact ih _ (by omega) hchild rfl
    have hopen : openElement index nodes e parent around = _ := openElement_eq nodes e parent around
    generalize hpath : around.join (segmentOf e) = path at hopen
    generalize hattributes : e.attributes.map (attributeDraft index path) = attributes at hopen
    -- its content comes behind its attributes
    have hcontent := run_content ⟨nodes.size, e, (shapeOf index e).2, path, 0, []⟩ descending he
      (show List.drop 0 e.content = e.content from rfl) hchildren
      (nodes ++ (openedNode index nodes.size parent around e ::
        bareAllFrom index (nodes.size + 1) (some nodes.size) attributes).toArray) frames (1 + left)
    have hsize : (nodes ++ (openedNode index nodes.size parent around e ::
        bareAllFrom index (nodes.size + 1) (some nodes.size) attributes).toArray).size =
        nodes.size + 1 + sizeAll attributes := by
      rw [size_append, List.length_cons, length_bareAllFrom, Nat.add_right_comm, Nat.add_assoc]
    rw [hsize, append_append, List.cons_append] at hcontent
    rw [hopen, turns_eq, Nat.add_assoc]
    refine hcontent.trans (run_close ?_ ?_ frames left)
    · exact List.getElem?_eq_none (Nat.le_of_eq (Nat.zero_add _).symm)
    · refine (patch_append rfl _ _).trans ?_
      rw [Markup.ofElement_eq, hpath, hattributes, bareFrom_node, openedNode, hpath, hattributes]
      rfl

/-- **Every outermost element becomes its nodes.** -/
theorem pushTree_eq (descending : Descending document) {i : Nat} {root : Markup.Element}
    (hroot : document.get? i = some root) (nodes : Array Node) :
    pushTree document index nodes root = .ok
      (nodes ++ (bareFrom index nodes.size none (ofElement document index Path.root root)).toArray,
        nodes.size) := by
  have hwalk : (openElement index nodes root none Path.root >>= fun (nodes, frame) =>
      run document index (turns document root + 0) nodes [frame]) = .ok
        (nodes ++ (bareFrom index nodes.size none (ofElement document index Path.root root)).toArray) :=
    walks descending hroot nodes none Path.root [] 0
  rw [openElement_eq] at hwalk
  rw [pushTree, openElement_eq]
  exact congrArg (· >>= fun nodes' => Except.ok (nodes', nodes.size)) hwalk

/-- **The walk pushes the nodes of the drafts** of outermost elements, one after another. -/
theorem pushTrees_eq (descending : Descending document) {roots : List Nat}
    (hroots : ∀ root ∈ roots, ∃ e, document.get? root = some e) (nodes : Array Node) :
    pushTrees document index nodes roots = .ok
      (nodes ++ (bareAllFrom index nodes.size none
          ((roots.filterMap document.get?).map (ofElement document index Path.root))).toArray,
        ids nodes.size ((roots.filterMap document.get?).map (ofElement document index Path.root))) := by
  induction roots generalizing nodes with
  | nil => simp [pushTrees, bareAllFrom, nodesAllFrom, ids, pure, Except.pure]
  | cons root roots ih =>
    obtain ⟨⟨e, he⟩, hrest⟩ := List.forall_mem_cons.mp hroots
    have hsize : (nodes ++
        (bareFrom index nodes.size none (ofElement document index Path.root e)).toArray).size =
        nodes.size + (ofElement document index Path.root e).size := by
      rw [size_append, length_bareFrom]
    rw [pushTrees, he]
    simp only [pushTree_eq descending he, List.filterMap_cons_some he, List.map_cons, bareAllFrom_cons,
      ids]
    -- the later trees start where the first one ended
    show (pushTrees document index _ roots >>= fun later =>
      Except.ok (later.1, nodes.size :: later.2)) = _
    rw [ih hrest, hsize, append_append]
    rfl

/-- **The walk through a document pushes the nodes of its drafts.** -/
theorem pushTrees_document (descending : Descending document)
    (hroots : ∀ root ∈ document.roots, ∃ e, document.get? root = some e) :
    pushTrees document index #[] document.roots = .ok
      ((bareAllFrom index 0 none (ofDocument document index)).toArray,
        (Model.ofDocument document index).roots) := by
  rw [pushTrees_eq descending hroots, Array.empty_append]
  rfl

end Assembly

end ProjectLens
