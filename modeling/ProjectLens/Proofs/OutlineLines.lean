import Mathlib.Data.List.Basic
import ProjectLens.Proofs.Drawing

/-! # Reading an outline back from its lines

Line breaks end the lines of an outline, so if its texts have none the lines can be told from the
drawing. Below an item, the lines that start with a connector are those of its children, and those that
start with a cell belong to the child above them. So the whole tree can be told from the lines.

* `MadeOf`, `MadeOf.unique`: texts made of lines, in one way only;
* `exists_madeOf_iff`: whether a text is made of as many lines as it has pieces;
* `Outline.lines`, `Outline.draw_eq_join_lines`: the lines of an outline of texts, from the children up;
* `Outline.linesBelow_injective`: outlines with the same lines are the same;
* `Outline.map_eq_of_draw_eq`: an outline can be told from its drawing. -/

namespace ProjectLens

/-! ## Texts made of lines -/

/-- **A text is made of lines**: a line break ends each of them, and there is no other one. -/
structure MadeOf (text : String) (lines : List String) : Prop where
  /-- The text is the lines with their ends. -/
  text_eq : text = String.join (lines.map (· ++ "\n"))
  /-- No line has a line break in it. -/
  unbroken : ∀ line ∈ lines, '\n' ∉ line.toList

/-- A list can be cut in one way only where something fails that holds of all that comes before. -/
theorem eq_and_eq_of_append_eq {α : Type} {p : α → Bool} {front rest front' rest' : List α}
    (hfront : ∀ a ∈ front, p a = true) (hfront' : ∀ a ∈ front', p a = true)
    (hrest : ∀ a ∈ rest.head?, p a = false) (hrest' : ∀ a ∈ rest'.head?, p a = false)
    (heq : front ++ rest = front' ++ rest') : front = front' ∧ rest = rest' := by
  have hnil {l : List α} (hl : ∀ a ∈ l.head?, p a = false) : l.takeWhile p = [] := by
    cases l with
    | nil => rfl
    | cons a l => exact List.takeWhile_cons_of_neg (by simp [hl a rfl])
  have hcut := congrArg (List.takeWhile p) heq
  rw [List.takeWhile_append_of_pos hfront, List.takeWhile_append_of_pos hfront', hnil hrest,
    hnil hrest', List.append_nil, List.append_nil] at hcut
  subst hcut
  exact ⟨rfl, List.append_cancel_left heq⟩

/-- **The lines can be told from the text.** -/
theorem MadeOf.unique {text : String} {lines others : List String} (h : MadeOf text lines)
    (hothers : MadeOf text others) : lines = others := by
  obtain ⟨htext, hlines⟩ := h
  obtain ⟨htext', hothers⟩ := hothers
  rw [htext] at htext'
  clear htext
  have hcons (line : String) (rest : List String) :
      (String.join ((line :: rest).map (· ++ "\n"))).toList =
        line.toList ++ '\n' :: (String.join (rest.map (· ++ "\n"))).toList := by
    rw [List.map_cons, String.join_cons, String.toList_append, String.toList_append, List.append_assoc]
    rfl
  have hunbroken {line : String} (hline : '\n' ∉ line.toList) : ∀ c ∈ line.toList, (c != '\n') = true :=
    fun c hc => bne_iff_ne.mpr (ne_of_mem_of_not_mem hc hline)
  -- a line ends at the first line break, so the first lines agree
  induction lines generalizing others with
  | nil =>
    cases others with
    | nil => rfl
    | cons other others =>
      have heq := congrArg String.toList htext'
      rw [hcons] at heq
      simp at heq
  | cons line lines ih =>
    cases others with
    | nil =>
      have heq := congrArg String.toList htext'
      rw [hcons] at heq
      simp at heq
    | cons other others =>
      have heq := congrArg String.toList htext'
      rw [hcons, hcons] at heq
      obtain ⟨hline, hrest⟩ := eq_and_eq_of_append_eq (hunbroken (hlines _ List.mem_cons_self))
        (hunbroken (hothers _ List.mem_cons_self)) (by simp) (by simp) heq
      rw [String.toList_inj.mp hline, ih (fun _ h => hlines _ (List.mem_cons_of_mem _ h))
        (String.toList_inj.mp (List.cons.inj hrest).2)
        (fun _ h => hothers _ (List.mem_cons_of_mem _ h))]

/-- A text has the line breaks that end its lines, and those in its lines. -/
theorem count_join_lines (lines : List String) :
    (String.join (lines.map (· ++ "\n"))).toList.count '\n' =
      lines.length + (lines.flatMap String.toList).count '\n' := by
  induction lines with
  | nil => rfl
  | cons line rest ih =>
    have hend : ("\n".toList).count '\n' = 1 := by decide
    rw [List.map_cons, String.join_cons, String.toList_append, List.count_append, ih,
      String.toList_append, List.count_append, hend, List.length_cons, List.flatMap_cons, List.count_append]
    omega

/-- **Lines with line breaks in them are more than they are meant to be.** A text of some pieces, each
with a line break at its end, is made of as many lines just if no piece has another line break. -/
theorem exists_madeOf_iff {pieces : List String} :
    (∃ lines, MadeOf (String.join (pieces.map (· ++ "\n"))) lines ∧ lines.length = pieces.length) ↔
      ∀ piece ∈ pieces, '\n' ∉ piece.toList := by
  constructor
  · rintro ⟨lines, ⟨htext, hlines⟩, hlength⟩ piece hpiece hbreak
    have hcount := congrArg (fun text : String => text.toList.count '\n') htext
    simp only [count_join_lines] at hcount
    have hunbroken : (lines.flatMap String.toList).count '\n' = 0 := by
      rw [List.count_eq_zero, List.mem_flatMap]
      rintro ⟨line, hline, hmem⟩
      exact hlines line hline hmem
    have hzero : (pieces.flatMap String.toList).count '\n' = 0 := by omega
    exact List.count_eq_zero.mp hzero (List.mem_flatMap.mpr ⟨piece, hpiece, hbreak⟩)
  · exact fun hpieces => ⟨pieces, ⟨rfl, hpieces⟩, rfl⟩

namespace Outline

variable {α β : Type}

/-! ## Outlines of texts -/

mutual

/-- The outline with an item for each item. -/
def map (f : α → β) : Outline α → Outline β
  | .node item children => .node (f item) (mapAll f children)

/-- The outlines with an item for each item. -/
def mapAll (f : α → β) : List (Outline α) → List (Outline β)
  | [] => []
  | outline :: rest => outline.map f :: mapAll f rest

end

/-- `(mapAll f outlines).isEmpty = outlines.isEmpty`. -/
theorem isEmpty_mapAll (f : α → β) (outlines : List (Outline α)) :
    (mapAll f outlines).isEmpty = outlines.isEmpty := by
  cases outlines <;> rfl

mutual

/-- Items can be turned into texts before they are drawn. -/
theorem drawing_map (render : α → String) (margin : String) (last : Option Bool) :
    (outline : Outline α) → drawing id margin last (outline.map render) =
      drawing render margin last outline
  | .node item children => by
    rw [map, drawing, drawing, drawingAll_mapAll render _ children, id]

/-- Drawing with texts in place of the items is drawing the items as these texts. -/
theorem drawingAll_mapAll (render : α → String) (margin : String) :
    (outlines : List (Outline α)) → drawingAll id margin (mapAll render outlines) =
      drawingAll render margin outlines
  | [] => rfl
  | outline :: rest => by
    rw [mapAll, drawingAll, drawingAll, isEmpty_mapAll, drawing_map render _ _ outline,
      drawingAll_mapAll render _ rest]

end

mutual

/-- `(outline.map f).items = outline.items.map f`. -/
theorem items_map (f : α → β) : (outline : Outline α) → (outline.map f).items = outline.items.map f
  | .node item children => by rw [map, items, items, itemsAll_mapAll f children, List.map_cons]

/-- `itemsAll (mapAll f outlines) = (itemsAll outlines).map f`. -/
theorem itemsAll_mapAll (f : α → β) :
    (outlines : List (Outline α)) → itemsAll (mapAll f outlines) = (itemsAll outlines).map f
  | [] => rfl
  | outline :: rest => by
    rw [mapAll, itemsAll, itemsAll, items_map f outline, itemsAll_mapAll f rest, List.map_append]

end

/-! ## The lines of an outline of texts -/

/-- The lines of the outlines below an item, without the margin of that item. -/
def linesBelow : List (Outline String) → List String
  | [] => []
  | .node text children :: rest =>
    (connector "" (some rest.isEmpty) ++ text) ::
      (linesBelow children).map (innerMargin "" (some rest.isEmpty) ++ ·) ++ linesBelow rest

/-- The lines of an outline. -/
def lines : Outline String → List String
  | .node text children => text :: linesBelow children

/-- The drawing below a node is its lines, each with the margin in front and a line break behind. -/
theorem drawingAll_eq_join (margin : String) (outlines : List (Outline String)) :
    drawingAll id margin outlines =
      String.join ((linesBelow outlines).map fun line => margin ++ line ++ "\n") := by
  fun_induction linesBelow outlines generalizing margin with
  | case1 => rfl
  | case2 text children rest ihChildren ihRest =>
    rw [drawingAll, drawing, ihChildren, ihRest]
    simp [String.join_append, connector, innerMargin, String.append_assoc, Function.comp_def]

/-- `outline.draw id = String.join (outline.lines.map (· ++ "\n"))`. -/
theorem draw_eq_join_lines (outline : Outline String) :
    outline.draw id = String.join (outline.lines.map (· ++ "\n")) := by
  obtain ⟨text, children⟩ := outline
  rw [draw_eq_drawing, drawing, drawingAll_eq_join, lines]
  simp [connector, innerMargin]

/-- Whether a line is that of a child: it starts with a connector. -/
def opens (line : String) : Bool :=
  line.toList.head? = some '├' || line.toList.head? = some '└'

/-- What begins with a connector opens a child, -/
theorem opens_connector (last : Bool) (text : String) :
    opens (connector "" (some last) ++ text) = true := by
  cases last <;> simp [opens, connector]

/-- and what begins with a margin does not. -/
theorem not_opens_innerMargin (last : Bool) (line : String) :
    opens (innerMargin "" (some last) ++ line) = false := by
  cases last <;> simp [opens, innerMargin]

/-- The first line below an item is that of a child. -/
theorem opens_of_mem_head? {outlines : List (Outline String)} :
    ∀ line ∈ (linesBelow outlines).head?, opens line = true := by
  cases outlines with
  | nil => simp [linesBelow]
  | cons outline rest =>
    obtain ⟨text, children⟩ := outline
    simp [linesBelow, opens_connector]

/-- A connector is told from the line it starts. -/
theorem connector_append_inj {last last' : Bool} {text text' : String}
    (heq : connector "" (some last) ++ text = connector "" (some last') ++ text') :
    last = last' ∧ text = text' := by
  have hlist := congrArg String.toList heq
  cases last <;> cases last' <;> simp [connector] at hlist ⊢ <;> exact String.toList_inj.mp hlist

/-- **Outlines with the same lines are the same**, whatever their texts are. -/
theorem linesBelow_injective : Function.Injective linesBelow := by
  intro outlines
  fun_induction linesBelow outlines with
  | case1 =>
    intro others heq
    cases others with
    | nil => rfl
    | cons other others =>
      obtain ⟨text, children⟩ := other
      rw [linesBelow] at heq
      cases heq
  | case2 text children rest ihChildren ihRest =>
    intro others heq
    cases others with
    | nil =>
      rw [linesBelow] at heq
      cases heq
    | cons other others =>
      obtain ⟨text', children'⟩ := other
      rw [linesBelow, List.cons_append, List.cons_append] at heq
      obtain ⟨hfirst, htail⟩ := List.cons.inj heq
      obtain ⟨hlast, rfl⟩ := connector_append_inj hfirst
      -- the next line with a connector is that of the next child
      have hinner (outlines : List (Outline String)) (last : Bool) :
          ∀ line ∈ (linesBelow outlines).map (innerMargin "" (some last) ++ ·),
            (!opens line) = true := by
        intro line hline
        obtain ⟨inner, -, rfl⟩ := List.mem_map.mp hline
        rw [not_opens_innerMargin, Bool.not_false]
      have houter {outlines : List (Outline String)} :
          ∀ line ∈ (linesBelow outlines).head?, (!opens line) = false := fun line hline => by
        rw [opens_of_mem_head? line hline, Bool.not_true]
      obtain ⟨hchildren, hrest⟩ :=
        eq_and_eq_of_append_eq (hinner _ _) (hinner _ _) houter houter htail
      rw [hlast] at hchildren
      have hmargin : Function.Injective (innerMargin "" (some others.isEmpty) ++ ·) :=
        fun _ _ h => String.append_right_inj _ |>.mp h
      rw [ihChildren (List.map_injective_iff.mpr hmargin hchildren), ihRest hrest]

/-- The texts are all that can break a line. -/
theorem unbroken_linesBelow {outlines : List (Outline String)}
    (hitems : ∀ text ∈ itemsAll outlines, '\n' ∉ text.toList) :
    ∀ line ∈ linesBelow outlines, '\n' ∉ line.toList := by
  have hconnector (last : Bool) : '\n' ∉ (connector "" (some last)).toList := by
    cases last <;> decide
  have hmargin (last : Bool) : '\n' ∉ (innerMargin "" (some last)).toList := by
    cases last <;> decide
  fun_induction linesBelow outlines with
  | case1 => simp
  | case2 text children rest ihChildren ihRest =>
    simp only [itemsAll, items, List.cons_append, List.mem_cons, List.mem_append, or_imp,
      forall_and, forall_eq] at hitems
    obtain ⟨htext, hchildren, hrest⟩ := hitems
    simp only [List.cons_append, List.mem_cons, List.mem_append, List.mem_map, forall_eq_or_imp]
    refine ⟨by simp [hconnector, htext], ?_⟩
    rintro line (⟨inner, hinner, rfl⟩ | hline)
    · simp [hmargin, ihChildren hchildren inner hinner]
    · exact ihRest hrest line hline

/-- An outline of texts without line breaks is drawn as its lines. -/
theorem madeOf_draw {outline : Outline String}
    (hitems : ∀ text ∈ outline.items, '\n' ∉ text.toList) :
    MadeOf (outline.draw id) outline.lines := by
  refine ⟨draw_eq_join_lines outline, ?_⟩
  obtain ⟨text, children⟩ := outline
  rw [items, List.forall_mem_cons] at hitems
  exact List.forall_mem_cons.mpr ⟨hitems.1, unbroken_linesBelow hitems.2⟩

/-- **An outline can be told from its drawing**, if its items are drawn without line breaks. -/
theorem map_eq_of_draw_eq {render : α → String} {render' : β → String} {outline : Outline α}
    {other : Outline β} (hitems : ∀ item ∈ outline.items, '\n' ∉ (render item).toList)
    (hothers : ∀ item ∈ other.items, '\n' ∉ (render' item).toList)
    (heq : outline.draw render = other.draw render') : outline.map render = other.map render' := by
  have hdraw {γ : Type} (show' : γ → String) (drawn : Outline γ) :
      drawn.draw show' = (drawn.map show').draw id := by
    rw [draw_eq_drawing, draw_eq_drawing, drawing_map]
  have hunbroken {γ : Type} {show' : γ → String} {drawn : Outline γ}
      (h : ∀ item ∈ drawn.items, '\n' ∉ (show' item).toList) :
      ∀ text ∈ (drawn.map show').items, '\n' ∉ text.toList := by
    rw [items_map]
    exact List.forall_mem_map.mpr h
  have hmade := madeOf_draw (hunbroken hitems)
  have hmade' := madeOf_draw (hunbroken hothers)
  rw [← hdraw, heq, hdraw] at hmade
  -- one drawing has one list of lines, and these tell the outline
  have hlines := hmade.unique hmade'
  generalize outline.map render = left at hlines ⊢
  generalize other.map render' = right at hlines ⊢
  obtain ⟨text, children⟩ := left
  obtain ⟨text', children'⟩ := right
  obtain ⟨rfl, hchildren⟩ := List.cons.inj hlines
  rw [linesBelow_injective hchildren]

end Outline

end ProjectLens
