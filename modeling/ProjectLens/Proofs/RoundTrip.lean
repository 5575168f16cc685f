import ProjectLens.Proofs.Building
import ProjectLens.Proofs.Trees

/-! # Trees are read back

The markup a tree is written as is read back as that tree: the elements of the document are those of
the tree in the order in which their tags start, with the same names, attributes, texts and nesting.

* `Element.sketch`: what an element says, apart from where it stands;
* `Tree.sketches`: what the elements of a tree should say;
* `View`, `View.Leads`: what matters of a stage of reading, and where it leads;
* `leads_element`, `readsBack`: elements and their content are read back, by recursion on the tree;
* `readDocument_markup`: the whole of it. -/

namespace ProjectLens.Markup

variable {index : Index}

/-! ## What elements say -/

/-- What stands in an element, apart from where. -/
inductive Item where
  /-- Another element. -/
  | element (id : Nat)
  /-- Text. -/
  | text (text : String)
  /-- A character data section or a comment. -/
  | other
  deriving DecidableEq, Repr

/-- **What an element says**, apart from where it stands. -/
structure Sketch where
  /-- The name, with its qualifier. -/
  name : String
  /-- What stands before the colon of the name. -/
  qualifier : String
  /-- Names and values of the attributes in order. -/
  attributes : List (String × String)
  /-- Whether the start tag closes itself. -/
  selfClosing : Bool
  /-- Whether it is closed. -/
  closed : Bool
  /-- The element around it. -/
  parent : Option Nat
  /-- What stands in it, in order. -/
  content : List Item
  deriving DecidableEq, Repr

/-- Content, apart from where it stands. -/
def Content.item : Content → Item
  | .element id => .element id
  | .text run _ => .text run
  | .cdata _ _ | .comment _ _ => .other

/-- What an element says. -/
def Element.sketch (e : Element) : Sketch :=
  ⟨e.name, e.qualifier, e.attributes.map fun a => (a.name, a.value), e.selfClosing, e.isClosed,
    e.parent, e.content.map Content.item⟩

namespace Sketch

/-- An element that has just been started. -/
def opened (name : Name) (parent : Option Nat) : Sketch :=
  ⟨String.ofList name.chars, String.ofList name.qualifierChars, [], false, false, parent, []⟩

/-- The element with more attributes. -/
def withAttributes (x : Sketch) (attributes : List (Name × Value)) : Sketch :=
  { x with
    attributes := x.attributes ++
      attributes.map fun a => (String.ofList a.1.chars, String.ofList a.2.chars) }

/-- The element with more in it. -/
def withItems (x : Sketch) (items : List Item) : Sketch := { x with content := x.content ++ items }

/-- The element, closed. -/
def close (selfClosing : Bool) (x : Sketch) : Sketch :=
  { x with selfClosing := x.selfClosing || selfClosing, closed := true }

/-- `x.withAttributes [] = x`. -/
@[simp] theorem withAttributes_nil (x : Sketch) : x.withAttributes [] = x := by
  simp [withAttributes]

/-- Attributes added twice are added in turn. -/
@[simp] theorem withAttributes_withAttributes (x : Sketch) (attributes more : List (Name × Value)) :
    (x.withAttributes attributes).withAttributes more = x.withAttributes (attributes ++ more) := by
  simp [withAttributes]

/-- `x.withItems [] = x`. -/
@[simp] theorem withItems_nil (x : Sketch) : x.withItems [] = x := by
  simp [withItems]

/-- Items added twice are added in turn. -/
@[simp] theorem withItems_withItems (x : Sketch) (items more : List Item) :
    (x.withItems items).withItems more = x.withItems (items ++ more) := by
  simp [withItems]

end Sketch

/-! ## What trees say -/

namespace Tree

mutual

/-- Number of elements in a tree. -/
def size : Tree → Nat
  | .text _ => 0
  | .element _ _ _ content => sizeAll content + 1

/-- Number of elements in some trees. -/
def sizeAll : List Tree → Nat
  | [] => 0
  | tree :: rest => tree.size + sizeAll rest

end

/-- What stands in an element, the first element in it having place `id`. -/
def items (id : Nat) : List Tree → List Item
  | [] => []
  | .text run :: rest => .text (String.ofList run.chars) :: items id rest
  | .element _ _ _ content :: rest => .element id :: items (id + (sizeAll content + 1)) rest

mutual

/-- **What the elements of a tree say**, in the order of their start tags; `id` is the place of the first
one and `parent` the place of the element around it. -/
def sketches (parent : Option Nat) (id : Nat) : Tree → List Sketch
  | .text _ => []
  | .element name attributes selfClosing content =>
    ⟨String.ofList name.chars, String.ofList name.qualifierChars,
      attributes.map fun a => (String.ofList a.1.chars, String.ofList a.2.chars), selfClosing, true,
      parent, items (id + 1) content⟩ :: sketchesAll id (id + 1) content

/-- What the elements of some trees in an element say. -/
def sketchesAll (parent id : Nat) : List Tree → List Sketch
  | [] => []
  | tree :: rest => tree.sketches (some parent) id ++ sketchesAll parent (id + tree.size) rest

end

mutual

/-- `(tree.sketches parent id).length = tree.size`: one sketch for each element. -/
theorem length_sketches (tree : Tree) (parent : Option Nat) (id : Nat) :
    (tree.sketches parent id).length = tree.size := by
  cases tree with
  | text run => rfl
  | element name attributes selfClosing content =>
    rw [sketches, size, List.length_cons, length_sketchesAll content]
termination_by sizeOf tree

/-- `(sketchesAll parent id trees).length = sizeAll trees`. -/
theorem length_sketchesAll (trees : List Tree) (parent id : Nat) :
    (sketchesAll parent id trees).length = sizeAll trees := by
  cases trees with
  | nil => rfl
  | cons tree rest =>
    rw [sketchesAll, sizeAll, List.length_append, length_sketches tree, length_sketchesAll rest]
termination_by sizeOf trees

end

end Tree

/-! ## What a reader has -/

/-- **What a reader has**, apart from where it stands, and that it had nothing to complain about. -/
structure Reader.Looks (r : Reader) (sketches : List Sketch) (roots : List Nat)
    (stack : List Frame) : Prop where
  /-- What its elements say. -/
  sketches_eq : r.elements.toList.map Element.sketch = sketches
  /-- The outermost elements. -/
  roots_eq : r.roots = roots
  /-- The open elements. -/
  stack_eq : r.stack = stack
  /-- Only traces have been left. -/
  quiet : ∀ d ∈ r.diagnostics, d.severity = .trace

/-- A change at a place changes what stands there. -/
theorem modify_append_cons {α : Type} (left right : List α) (a : α) (f : α → α) :
    (left ++ a :: right).modify left.length f = left ++ f a :: right := by
  induction left with
  | nil => rfl
  | cons first left ih =>
    rw [List.cons_append, List.length_cons, List.modify_succ_cons, ih, List.cons_append]

/-- Changing one element changes what it says. -/
theorem map_sketch_modify {elements : Array Element} {front back : List Sketch} {x : Sketch}
    {f : Element → Element} {g : Sketch → Sketch}
    (h : elements.toList.map Element.sketch = front ++ x :: back)
    (hf : ∀ e, (f e).sketch = g e.sketch) :
    (elements.modify front.length f).toList.map Element.sketch = front ++ g x :: back := by
  obtain ⟨left, right, hsplit, hleft, hright⟩ := List.map_eq_append_iff.mp h
  obtain ⟨e, right, rfl, rfl, hback⟩ := List.map_eq_cons_iff.mp hright
  rw [Array.toList_modify, hsplit, ← hleft, List.length_map, modify_append_cons, List.map_append,
    List.map_cons, hf, hback]

namespace Reader.Looks

variable {r : Reader} {front back sketches : List Sketch} {x : Sketch} {roots : List Nat}
  {stack below : List Frame}

/-- `r.elements.size = sketches.length`. -/
theorem size_eq (h : r.Looks sketches roots stack) : r.elements.size = sketches.length := by
  rw [← h.sketches_eq, List.length_map, Array.length_toList]

/-- Leaving a trace changes nothing else. -/
theorem say (h : r.Looks sketches roots stack) (span : Span) (message : String) :
    (r.say index .trace span message).Looks sketches roots stack := by
  refine { h with quiet := fun d hd => ?_ }
  rcases Array.mem_push.mp hd with hd | rfl
  · exact h.quiet d hd
  · rfl

/-- Changing an element. -/
theorem update (h : r.Looks (front ++ x :: back) roots stack) {f : Element → Element}
    {g : Sketch → Sketch} (hf : ∀ e, (f e).sketch = g e.sketch) :
    (r.update front.length f).Looks (front ++ g x :: back) roots stack :=
  { h with sketches_eq := map_sketch_modify h.sketches_eq hf }

/-- Finishing an element changes nothing a sketch shows. -/
theorem finishElement (h : r.Looks (front ++ x :: back) roots stack) :
    (r.finishElement index front.length).Looks (front ++ x :: back) roots stack :=
  (h.update (f := Element.located index) (g := id) fun _ => rfl).say _ _

/-- An element is started: it says its name, and the element around it lists it. -/
theorem openElement (index : Index) (h : r.Looks sketches roots stack) (name : Name) (offset : Nat)
    (span : Span) :
    ∃ new : Element, new.sketch = Sketch.opened name (stack.head?.map Frame.element) ∧
      (r.openElement index (name.readAt offset) span).Looks
        ((withElement r.elements new).toList.map Element.sketch) (withRoot r.elements roots new)
        (⟨sketches.length, true⟩ :: stack) := by
  refine ⟨r.added index (name.readAt offset).text (String.ofList name.qualifierChars) span
    (name.readAt offset).span, ?_, ?_, ?_, ?_, ?_⟩
  · rw [name.text_readAt, ← h.stack_eq]
    rfl
  · rw [← elements_newElement]
    rfl
  · rw [← h.roots_eq, ← roots_newElement]
    rfl
  · rw [← h.size_eq, ← h.stack_eq]
    exact congrArg (_ :: ·) (stack_newElement _ _ _ _ _)
  · intro d hd
    rcases Array.mem_push.mp hd with hd | rfl
    · rw [diagnostics_newElement] at hd
      exact h.quiet d hd
    · rfl

/-- The outermost element is started. -/
theorem openElement_root (h : r.Looks [] [] []) (name : Name) (offset : Nat) (span : Span) :
    (r.openElement index (name.readAt offset) span).Looks [Sketch.opened name none] [0]
      [⟨0, true⟩] := by
  have helements : r.elements = #[] := Array.eq_empty_of_size_eq_zero h.size_eq
  obtain ⟨new, hnew, hlooks⟩ := h.openElement index name offset span
  have hparent : new.parent = none := congrArg Sketch.parent hnew
  unfold withElement withRoot at hlooks
  rw [helements, hparent] at hlooks
  simpa [hnew] using hlooks

/-- An element inside another one is started. -/
theorem openElement_child
    (h : r.Looks (front ++ x :: back) roots (⟨front.length, false⟩ :: below)) (name : Name)
    (offset : Nat) (span : Span) :
    (r.openElement index (name.readAt offset) span).Looks
      (front ++ x.withItems [.element (front ++ x :: back).length] ::
        (back ++ [Sketch.opened name (some front.length)])) roots
      (⟨(front ++ x :: back).length, true⟩ :: ⟨front.length, false⟩ :: below) := by
  obtain ⟨new, hnew, hlooks⟩ := h.openElement index name offset span
  have hparent : new.parent = some front.length := congrArg Sketch.parent hnew
  -- the new sketch is added first, and then the parent gets it as an item
  have hpush : (r.elements.push new).toList.map Element.sketch =
      front ++ x :: (back ++ [Sketch.opened name (some front.length)]) := by
    rw [Array.toList_push, List.map_append, h.sketches_eq, List.map_cons, hnew]
    simp
  have hmodify := map_sketch_modify (f := fun e => e.withContent (.element r.elements.size))
    (g := fun y => y.withItems [.element (front ++ x :: back).length]) hpush fun e => by
      rw [h.size_eq]
      simp [Element.sketch, Element.isClosed, Element.withContent, Sketch.withItems, Content.item]
  unfold withElement withRoot at hlooks
  simp only [hparent] at hlooks
  rw [hmodify] at hlooks
  exact hlooks

/-- An attribute is added. -/
theorem addAttribute {a : Name × Value}
    (h : r.Looks (front ++ [x]) roots (⟨front.length, true⟩ :: below)) (offset : Nat)
    (valueSpan span : Span) :
    (r.addAttribute index (a.1.readAt offset) (String.ofList a.2.chars) valueSpan span).Looks
      (front ++ [x.withAttributes [a]]) roots (⟨front.length, true⟩ :: below) := by
  rw [addAttribute_eq h.stack_eq]
  refine (h.say _ _).update (g := fun x => x.withAttributes [a]) fun e => ?_
  unfold Element.sketch Element.withAttribute Sketch.withAttributes
  simp only [List.map_append, List.map_cons, List.map_nil, a.1.text_readAt]
  rfl

/-- A start tag ends. -/
theorem endStartTag (h : r.Looks (front ++ [x]) roots (⟨front.length, true⟩ :: below))
    (span : Span) : (r.endStartTag index false span).Looks (front ++ [x]) roots
      (⟨front.length, false⟩ :: below) := by
  rw [endStartTag_eq h.stack_eq, if_neg (by decide)]
  have hupdate := h.update (f := Element.withStartTag false span.stop) (g := id) fun e => by
    simp [Element.sketch, Element.withStartTag, Element.isClosed]
  exact { hupdate with stack_eq := rfl }

/-- A tag closes itself. -/
theorem endStartTag_close (h : r.Looks (front ++ [x]) roots (⟨front.length, true⟩ :: below))
    (span : Span) : (r.endStartTag index true span).Looks (front ++ [x.close true]) roots below := by
  rw [endStartTag_eq h.stack_eq, if_pos rfl]
  have hupdate := h.update (f := Element.withStartTag true span.stop) (g := Sketch.close true)
    fun e => by simp [Element.sketch, Element.withStartTag, Element.isClosed, Sketch.close]
  exact Reader.Looks.finishElement { hupdate with stack_eq := rfl }

/-- Text is kept. -/
theorem keep (h : r.Looks (front ++ x :: back) roots (⟨front.length, false⟩ :: below))
    (text : String) (span : Span) :
    (r.keep (.text text span)).Looks (front ++ x.withItems [.text text] :: back) roots
      (⟨front.length, false⟩ :: below) := by
  unfold Reader.keep
  rw [h.stack_eq]
  refine h.update (f := fun e => e.withContent (.text text span))
    (g := fun x => x.withItems [.text text]) fun e => ?_
  simp [Element.sketch, Element.isClosed, Element.withContent, Sketch.withItems, Content.item]

/-- The name of an element. -/
theorem nameOf_eq (h : r.Looks (front ++ x :: back) roots stack) :
    r.nameOf front.length = x.name := by
  have hget : (r.elements.toList.map Element.sketch)[front.length]? = some x := by
    rw [h.sketches_eq]
    simp
  unfold Reader.nameOf
  rw [List.getElem?_map, Option.map_eq_some_iff] at hget
  obtain ⟨e, he, rfl⟩ := hget
  rw [← Array.getElem?_toList, he]
  rfl

/-- An end tag closes the element that was started last. -/
theorem closeElement (h : r.Looks (front ++ x :: back) roots (⟨front.length, false⟩ :: below))
    {name : Name} (hname : x.name = String.ofList name.chars) (offset : Nat) (span : Span) :
    (r.closeElement index (name.readAt offset) span).Looks (front ++ x.close false :: back) roots
      below := by
  have hsame : r.nameOf front.length = (name.readAt offset).text := by
    rw [h.nameOf_eq, hname, name.text_readAt]
  unfold Reader.closeElement
  simp only [h.stack_eq, List.dropWhile_cons, List.takeWhile_cons, hsame, ne_eq, not_true,
    decide_false, Bool.false_eq_true, if_false, List.foldl_nil]
  have hupdate := h.update (f := Element.withEndTag span) (g := Sketch.close false) fun e => by
    simp [Element.sketch, Element.withEndTag, Element.isClosed, Sketch.close]
  exact Reader.Looks.finishElement { hupdate with stack_eq := rfl }

/-- At the end nothing is left to close. -/
theorem finish (index : Index) (h : r.Looks sketches roots []) :
    (r.finish index).Looks sketches roots [] := by
  unfold Reader.finish
  simp only [h.stack_eq, List.foldl_nil]
  exact { h with stack_eq := rfl }

end Reader.Looks

/-! ## Views -/

/-- **What matters of a stage of reading.** -/
structure View where
  /-- The part of the document. -/
  phase : Phase
  /-- Number of open elements. -/
  depth : Nat
  /-- What is left to read. -/
  rest : List Char
  /-- What the elements say. -/
  sketches : List Sketch
  /-- The outermost elements. -/
  roots : List Nat
  /-- The open elements. -/
  stack : List Frame

/-- A stage of reading a whole document, as far as it matters. -/
structure Stage.Looks (stage : Stage) (view : View) : Prop where
  /-- The scanner. -/
  scanner_eq : ∃ offset, stage.scanner = ⟨view.phase, view.depth, false, ⟨offset, view.rest⟩⟩
  /-- The reader. -/
  reader : stage.reader.Looks view.sketches view.roots view.stack

namespace View

variable {v w u : View}

/-- **A view leads to another one**: from every stage that looks like the one, reading comes to a stage
that looks like the other. -/
def Leads (index : Index) (v w : View) : Prop :=
  ∀ stage : Stage, stage.Looks v → ∃ later, Relation.ReflTransGen (Stage.Next index) stage later ∧
    later.Looks w

/-- Every view leads to itself. -/
theorem Leads.refl (v : View) : Leads index v v := fun stage h => ⟨stage, .refl, h⟩

/-- `Leads index v w → Leads index w u → Leads index v u`. -/
theorem Leads.trans (h : Leads index v w) (h' : Leads index w u) : Leads index v u := by
  intro stage hstage
  obtain ⟨middle, hrun, hmiddle⟩ := h stage hstage
  obtain ⟨later, hrun', hlater⟩ := h' middle hmiddle
  exact ⟨later, hrun.trans hrun', hlater⟩

/-- One piece leads on. -/
theorem leads_of_event
    (h : ∀ offset, ∃ event after,
      Scanner.next ⟨v.phase, v.depth, false, ⟨offset, v.rest⟩⟩ =
        .event event ⟨w.phase, w.depth, false, ⟨after, w.rest⟩⟩ ∧
      ∀ r : Reader, r.Looks v.sketches v.roots v.stack →
        (r.take index event).Looks w.sketches w.roots w.stack) : Leads index v w := by
  rintro stage ⟨⟨offset, hscanner⟩, hreader⟩
  obtain ⟨event, after, hnext, htake⟩ := h offset
  exact ⟨_, .single (.event (by rw [hscanner, hnext])), ⟨after, rfl⟩, htake _ hreader⟩

end View

/-! ## Reading trees back -/

open View

variable {front back : List Sketch} {x : Sketch} {roots : List Nat} {below : List Frame}
  {depth : Nat} {tail : List Char}

/-- **The start of an element inside another one.** -/
theorem leads_open (index : Index) (front : List Sketch) (x : Sketch) (back : List Sketch)
    (roots : List Nat) (below : List Frame) (depth : Nat) (name : Name) (h : EndsName tail) :
    Leads index ⟨.content, depth, '<' :: (name.chars ++ tail), front ++ x :: back, roots,
        ⟨front.length, false⟩ :: below⟩
      ⟨.tag, depth, tail, front ++ x.withItems [.element (front ++ x :: back).length] ::
          (back ++ [Sketch.opened name (some front.length)]), roots,
        ⟨(front ++ x :: back).length, true⟩ :: ⟨front.length, false⟩ :: below⟩ := by
  refine leads_of_event fun offset => ?_
  obtain ⟨span, after, hnext⟩ := Scanner.next_name Scanner.next_tag name h
  exact ⟨_, after, hnext, fun r hr => hr.openElement_child name _ span⟩

/-- **The attributes of an element.** -/
theorem leads_attributes (attributes : List (Name × Value)) :
    Leads index ⟨.tag, depth, attributes.flatMap renderAttribute ++ tail, front ++ [x], roots,
        ⟨front.length, true⟩ :: below⟩
      ⟨.tag, depth, tail, front ++ [x.withAttributes attributes], roots,
        ⟨front.length, true⟩ :: below⟩ := by
  induction attributes generalizing x with
  | nil =>
    rw [Sketch.withAttributes_nil]
    exact Leads.refl _
  | cons a attributes ih =>
    have hrest := ih (x := x.withAttributes [a])
    rw [Sketch.withAttributes_withAttributes] at hrest
    rw [List.flatMap_cons, List.append_assoc]
    refine Leads.trans (leads_of_event fun offset => ?_) hrest
    obtain ⟨valueSpan, span, after, hnext⟩ := Scanner.next_attribute a offset
      (attributes.flatMap renderAttribute ++ tail)
    exact ⟨_, after, hnext, fun r hr => hr.addAttribute _ valueSpan span⟩

/-- **The end of a start tag.** -/
theorem leads_tagEnd :
    Leads index ⟨.tag, depth, '>' :: tail, front ++ [x], roots, ⟨front.length, true⟩ :: below⟩
      ⟨.content, depth + 1, tail, front ++ [x], roots, ⟨front.length, false⟩ :: below⟩ := by
  refine leads_of_event fun offset => ?_
  obtain ⟨span, after, hnext⟩ := Scanner.next_tagEnd depth offset tail
  exact ⟨_, after, hnext, fun r hr => hr.endStartTag span⟩

/-- **The end of a tag that closes itself.** -/
theorem leads_tagClose :
    Leads index ⟨.tag, depth, '/' :: '>' :: tail, front ++ [x], roots, ⟨front.length, true⟩ :: below⟩
      ⟨Phase.after depth, depth, tail, front ++ [x.close true], roots, below⟩ := by
  refine leads_of_event fun offset => ?_
  obtain ⟨span, after, hnext⟩ := Scanner.next_tagClose depth offset tail
  exact ⟨_, after, hnext, fun r hr => hr.endStartTag_close span⟩

/-- **A run of text.** -/
theorem leads_run (run : Run) :
    Leads index ⟨.content, depth, run.chars ++ '<' :: tail, front ++ x :: back, roots,
        ⟨front.length, false⟩ :: below⟩
      ⟨.content, depth, '<' :: tail,
        front ++ x.withItems [.text (String.ofList run.chars)] :: back, roots,
        ⟨front.length, false⟩ :: below⟩ := by
  refine leads_of_event fun offset => ?_
  obtain ⟨span, after, hnext⟩ := Scanner.next_run run depth offset tail
  exact ⟨_, after, hnext, fun r hr => hr.keep _ span⟩

/-- **An end tag.** -/
theorem leads_endTag {name : Name} (hname : x.name = String.ofList name.chars) :
    Leads index ⟨.content, depth + 1, '<' :: '/' :: (name.chars ++ '>' :: tail),
        front ++ x :: back, roots, ⟨front.length, false⟩ :: below⟩
      ⟨Phase.after depth, depth, tail, front ++ x.close false :: back, roots, below⟩ := by
  refine leads_of_event fun offset => ?_
  obtain ⟨span, after, hnext⟩ := Scanner.next_endTag name depth offset tail
  exact ⟨_, after, hnext, fun r hr => hr.closeElement hname _ span⟩

/-- An element as it is written, after its name. -/
def renderRest (name : Name) (attributes : List (Name × Value)) (selfClosing : Bool)
    (content : List Tree) : List Char :=
  attributes.flatMap renderAttribute ++
    if selfClosing then ['/', '>']
    else '>' :: (Tree.renderAll content ++ '<' :: '/' :: (name.chars ++ ['>']))

/-- What is written behind a name ends the name: a blank, `/` or `>`. -/
theorem endsName_renderRest (name : Name) (attributes : List (Name × Value)) (selfClosing : Bool)
    (content : List Tree) (tail : List Char) :
    EndsName (renderRest name attributes selfClosing content ++ tail) := by
  unfold renderRest
  cases attributes with
  | cons a attributes => exact endsName_cons (by decide)
  | nil =>
    cases selfClosing with
    | true => exact endsName_cons (by decide)
    | false => exact endsName_cons (by decide)

/-- After text comes a tag. -/
theorem exists_tag {rest : List Tree} (h : rest.head?.any Tree.isText = false) (tail : List Char) :
    ∃ more, Tree.renderAll rest ++ '<' :: tail = '<' :: more := by
  cases rest with
  | nil => exact ⟨tail, rfl⟩
  | cons tree rest =>
    cases tree with
    | text run => cases h
    | element name attributes selfClosing content => exact ⟨_, rfl⟩

/-- **The content of an element is read back**: from the end of its start tag reading comes to its end
tag, with what stands in it added. -/
def ReadsBack (index : Index) (content : List Tree) : Prop :=
  ∀ (front : List Sketch) (x : Sketch) (back : List Sketch) (roots : List Nat) (below : List Frame)
    (depth : Nat) (tail : List Char),
    Leads index ⟨.content, depth + 1, Tree.renderAll content ++ '<' :: tail, front ++ x :: back,
        roots, ⟨front.length, false⟩ :: below⟩
      ⟨.content, depth + 1, '<' :: tail,
        front ++ x.withItems (Tree.items (front ++ x :: back).length content) ::
          (back ++ Tree.sketchesAll front.length (front ++ x :: back).length content),
        roots, ⟨front.length, false⟩ :: below⟩

/-- **An element is read back** when its content is, once its name has been read. -/
theorem leads_element (name : Name) (attributes : List (Name × Value)) {selfClosing : Bool}
    {content : List Tree} (hclosing : selfClosing = true → content = [])
    (hcontent : ReadsBack index content) (parent : Option Nat) (front : List Sketch)
    (roots : List Nat) (below : List Frame) (depth : Nat) (tail : List Char) :
    Leads index ⟨.tag, depth, renderRest name attributes selfClosing content ++ tail,
        front ++ [Sketch.opened name parent], roots, ⟨front.length, true⟩ :: below⟩
      ⟨Phase.after depth, depth, tail,
        front ++ (Tree.element name attributes selfClosing content).sketches parent front.length,
        roots, below⟩ := by
  rw [renderRest, List.append_assoc]
  refine (leads_attributes attributes).trans ?_
  cases selfClosing with
  | true =>
    obtain rfl := hclosing rfl
    exact leads_tagClose
  | false =>
    -- from the end of the start tag on the content is read, and then the end tag
    have hinside := hcontent front ((Sketch.opened name parent).withAttributes attributes) [] roots
      below depth ('/' :: (name.chars ++ '>' :: tail))
    rw [List.length_append, List.length_singleton, List.nil_append] at hinside
    have hrest : (if false = true then ['/', '>']
          else '>' :: (Tree.renderAll content ++ '<' :: '/' :: (name.chars ++ ['>']))) ++ tail =
        '>' :: (Tree.renderAll content ++ '<' :: '/' :: (name.chars ++ '>' :: tail)) := by
      simp
    rw [hrest]
    exact leads_tagEnd.trans (hinside.trans (leads_endTag rfl))

/-- Text is read back before what is. -/
theorem ReadsBack.text {rest : List Tree} (h : ReadsBack index rest) (run : Run)
    (hapart : rest.head?.any Tree.isText = false) : ReadsBack index (.text run :: rest) := by
  intro front x back roots below depth tail
  obtain ⟨more, hmore⟩ := exists_tag hapart tail
  have hrest := h front (x.withItems [.text (String.ofList run.chars)]) back roots below depth tail
  have hlength : (front ++ x.withItems [.text (String.ofList run.chars)] :: back).length =
      (front ++ x :: back).length := by simp
  rw [hlength, hmore, Sketch.withItems_withItems] at hrest
  rw [Tree.renderAll, Tree.render, List.append_assoc, hmore]
  exact (leads_run run).trans hrest

/-- An element is read back before what is. -/
theorem ReadsBack.element {name : Name} {attributes : List (Name × Value)} {selfClosing : Bool}
    {inside rest : List Tree} (h : ReadsBack index rest)
    (hclosing : selfClosing = true → inside = []) (hinside : ReadsBack index inside) :
    ReadsBack index (.element name attributes selfClosing inside :: rest) := by
  intro front x back roots below depth tail
  generalize htree : Tree.element name attributes selfClosing inside = tree
  generalize hid : (front ++ x :: back).length = id
  have hends := endsName_renderRest name attributes selfClosing inside
    (Tree.renderAll rest ++ '<' :: tail)
  have hopen := leads_open index front x back roots below (depth + 1) name hends
  -- the new element stands last
  have helement := leads_element name attributes hclosing hinside (some front.length)
    (front ++ x.withItems [.element id] :: back) roots (⟨front.length, false⟩ :: below) (depth + 1)
    (Tree.renderAll rest ++ '<' :: tail)
  have hplace : (front ++ x.withItems [.element id] :: back).length = id := by
    rw [← hid]
    simp
  rw [hplace, List.append_assoc, List.append_assoc, List.cons_append, List.cons_append, htree]
    at helement
  rw [hid] at hopen
  have hrest := h front (x.withItems [.element id])
    (back ++ tree.sketches (some front.length) id) roots below depth tail
  have hlater : (front ++ x.withItems [.element id] ::
      (back ++ tree.sketches (some front.length) id)).length = id + tree.size := by
    rw [← List.cons_append, ← List.append_assoc, List.length_append, hplace, tree.length_sketches]
  rw [hlater, Sketch.withItems_withItems, List.append_assoc] at hrest
  have hrender : Tree.renderAll (tree :: rest) ++ '<' :: tail = '<' :: (name.chars ++
      (renderRest name attributes selfClosing inside ++ (Tree.renderAll rest ++ '<' :: tail))) := by
    rw [← htree, Tree.renderAll, Tree.render, renderRest]
    simp
  have hitems : Tree.items id (tree :: rest) = [.element id] ++ Tree.items (id + tree.size) rest := by
    rw [← htree]
    rfl
  rw [hrender, hitems, Tree.sketchesAll]
  exact hopen.trans (helement.trans hrest)

/-- **The content of every element is read back.** -/
theorem readsBack (index : Index) (content : List Tree) (valid : Tree.ValidAll content) :
    ReadsBack index content := by
  match content with
  | [] =>
    intro front x back roots below depth tail
    rw [Tree.items, Tree.sketchesAll, Sketch.withItems_nil, List.append_nil]
    exact Leads.refl _
  | .text run :: rest =>
    obtain ⟨-, hapart, hrest⟩ := valid
    exact (readsBack index rest hrest).text run (hapart rfl)
  | .element name attributes selfClosing inside :: rest =>
    obtain ⟨⟨hclosing, hinside⟩, -, hrest⟩ := valid
    exact (readsBack index rest hrest).element hclosing (readsBack index inside hinside)
termination_by sizeOf content

/-! ## Whole documents -/

/-- The markup of a tree as a text. -/
def Tree.markup (tree : Tree) : String := String.ofList tree.render

/-- What a document looks like when reading comes to the end of its text. -/
theorem readDocument_of_leads {rest : List Char} {sketches : List Sketch} {roots : List Nat}
    (h : Leads (Index.ofChars ('<' :: rest)) ⟨.opening, 0, '<' :: rest, [], [], []⟩
      ⟨.epilog, 0, [], sketches, roots, []⟩) :
    (readDocument (Index.ofChars ('<' :: rest))).1.roots = roots ∧
      (readDocument (Index.ofChars ('<' :: rest))).1.elements.toList.map Element.sketch = sketches ∧
      ∀ d ∈ (readDocument (Index.ofChars ('<' :: rest))).2, d.severity = .trace := by
  generalize hindex : Index.ofChars ('<' :: rest) = index at h ⊢
  have hstart : (Stage.start index).Looks ⟨.opening, 0, '<' :: rest, [], [], []⟩ := by
    rw [← hindex]
    exact ⟨⟨0, rfl⟩, rfl, rfl, rfl, nofun⟩
  obtain ⟨last, hrun, ⟨offset, hscanner⟩, hreader⟩ := h _ hstart
  have hends : last.Ends index (last.reader.finish index) := .done (by rw [hscanner]; rfl)
  have hfinish := hreader.finish index
  rw [Stage.readDocument_eq, Stage.read_run (Stage.standing_start index) hrun, hends.read_eq]
  exact ⟨hfinish.roots_eq, hfinish.sketches_eq, fun d hd => hfinish.quiet d (by simpa using hd)⟩

/-- **The outermost element is read back.** -/
theorem leads_document {name : Name} {attributes : List (Name × Value)} {selfClosing : Bool}
    {content : List Tree} (valid : (Tree.element name attributes selfClosing content).Valid) :
    Leads index
      ⟨.opening, 0, (Tree.element name attributes selfClosing content).render, [], [], []⟩
      ⟨.epilog, 0, [], (Tree.element name attributes selfClosing content).sketches none 0, [0],
        []⟩ := by
  obtain ⟨hclosing, hcontent⟩ := valid
  have hrest := endsName_renderRest name attributes selfClosing content []
  have helement := leads_element name attributes hclosing (readsBack index content hcontent) none
    [] [0] [] 0 []
  rw [List.append_nil] at hrest helement
  refine Leads.trans (leads_of_event fun offset => ?_) helement
  obtain ⟨span, after, hnext⟩ := Scanner.next_name Scanner.next_opening name hrest
  exact ⟨_, after, hnext, fun r hr => hr.openElement_root name _ span⟩

/-- **Every tree is read back from its markup**: there is one outermost element, the elements say what
those of the tree do, and there is nothing to complain about. -/
theorem readDocument_markup (tree : Tree) (root : tree.isText = false) (valid : tree.Valid) :
    (readDocument (Index.ofText tree.markup)).1.roots = [0] ∧
      (readDocument (Index.ofText tree.markup)).1.elements.toList.map Element.sketch =
        tree.sketches none 0 ∧
      ∀ d ∈ (readDocument (Index.ofText tree.markup)).2, d.severity = .trace := by
  cases tree with
  | text run => cases root
  | element name attributes selfClosing content =>
    rw [Tree.markup, Index.ofText, String.toList_ofList]
    exact readDocument_of_leads (leads_document valid)

/-- An element with a qualifier, an attribute, texts, and elements of its own name in it. -/
def nestedTree : Tree :=
  let n : NamePart := ⟨['n'], by decide, by simp [continuesName, startsName, inRanges]⟩
  let a : NamePart := ⟨['a'], by decide, by simp [continuesName, startsName, inRanges]⟩
  let v : NamePart := ⟨['v'], by decide, by simp [continuesName, startsName, inRanges]⟩
  let value : Value := ⟨['1', '>', '2'], by simp [isChar]⟩
  let brackets : Run := ⟨[']', ']'], by decide, by simp [isChar], by decide⟩
  let accented : Run := ⟨['é'], by decide, by simp [isChar], by decide⟩
  .element ⟨some n, a⟩ [(⟨none, v⟩, value)] false
    [.text brackets, .element ⟨some n, a⟩ [] true [],
      .element ⟨some n, a⟩ [] false [.text accented]]

/-- A tree of three elements with a `>` in a value and a `]]` before a tag, read back from what is
written for it. -/
theorem readDocument_markup_nestedTree :
    nestedTree.markup = "<n:a v=\"1>2\">]]<n:a/><n:a>é</n:a></n:a>" ∧
      nestedTree.isText = false ∧ nestedTree.Valid ∧
      (readDocument (Index.ofText nestedTree.markup)).1.roots = [0] ∧
      (readDocument (Index.ofText nestedTree.markup)).1.elements.toList.map Element.sketch =
        nestedTree.sketches none 0 ∧
      ∀ d ∈ (readDocument (Index.ofText nestedTree.markup)).2, d.severity = .trace := by
  have valid : nestedTree.Valid := by
    simp [nestedTree, Tree.Valid, Tree.ValidAll, Tree.isText]
  exact ⟨rfl, rfl, valid, readDocument_markup nestedTree rfl valid⟩

end ProjectLens.Markup
