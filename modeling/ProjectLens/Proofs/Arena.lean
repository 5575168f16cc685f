import ProjectLens.Markup.Reader
import ProjectLens.Proofs.Layout

/-! # The elements of a document in the making

The elements of a document stand in one array and refer to each other by their places in it. An
element gets its parent, its depth and its start when it is added, and nothing changes them later. Its
children are all those elements that name it as their parent, in order.

* `Revises`: one element of an array is changed, and nothing else;
* `Linked`: how elements refer to each other; `Linked.revise`, `Linked.push`: what keeps that true;
* `Document.ancestors`, `Linked.depth_eq_length`: depth counts the elements around. -/

namespace ProjectLens.Markup

variable {elements elements' : Array Element} {roots : List Nat} {i j id : Nat}
  {e e' : Element}

/-! ## Changing one element -/

/-- **One element is changed**, and the others stay as they are. -/
structure Revises (elements elements' : Array Element) (id : Nat) (e e' : Element) : Prop where
  /-- No element is added. -/
  size_eq : elements'.size = elements.size
  /-- The element as it was. -/
  old : elements[id]? = some e
  /-- The element as it is now. -/
  new : elements'[id]? = some e'
  /-- Every other element. -/
  same : ∀ {i : Nat}, i ≠ id → elements'[i]? = elements[i]?

/-- Changing the element at a number revises that element only. -/
theorem revises_modify {f : Element → Element} (h : elements[id]? = some e) :
    Revises elements (elements.modify id f) id e (f e) where
  size_eq := Array.size_modify
  old := h
  new := by rw [Array.getElem?_modify, if_pos rfl, h, Option.map_some]
  same := fun hne => by rw [Array.getElem?_modify, if_neg (Ne.symm hne)]

/-- A change may be made in two steps. -/
theorem Revises.trans {elements'' : Array Element} {e'' : Element}
    (h : Revises elements elements' id e e') (h' : Revises elements' elements'' id e' e'') :
    Revises elements elements'' id e e'' where
  size_eq := h'.size_eq.trans h.size_eq
  old := h.old
  new := h'.new
  same := fun hne => (h'.same hne).trans (h.same hne)

/-- `elements[i]? = some e → i < elements.size`. -/
theorem lt_size_of_getElem? (h : elements[i]? = some e) : i < elements.size :=
  (Array.getElem?_eq_some_iff.mp h).1

/-! ## Links -/

/-- What an element has from the time it is added. -/
structure Element.SameBirth (e e' : Element) : Prop where
  /-- Its place in the array. -/
  id_eq : e'.id = e.id
  /-- Where it starts. -/
  start_eq : e'.span.start = e.span.start
  /-- The element around it. -/
  parent_eq : e'.parent = e.parent
  /-- How deep it stands. -/
  depth_eq : e'.location.depth = e.location.depth

/-- The element around an element of an array. -/
def parentOf (elements : Array Element) (id : Nat) : Option Nat := elements[id]?.bind Element.parent

/-- The elements of an array that name `parent` as the element around them, in order. -/
def childrenOf (elements : Array Element) (parent : Option Nat) : List Nat :=
  (List.range elements.size).filter fun id => parentOf elements id = parent

/-- **How elements refer to each other.** -/
structure Linked (elements : Array Element) (roots : List Nat) : Prop where
  /-- An element knows its place. -/
  id_eq : ∀ {i : Nat} {e : Element}, elements[i]? = some e → e.id = i
  /-- Elements stand in the order in which they start. -/
  start_lt : ∀ {i j : Nat} {e e' : Element}, elements[i]? = some e → elements[j]? = some e' →
    i < j → e.span.start < e'.span.start
  /-- An element comes after the one around it. -/
  parent_lt : ∀ {i p : Nat} {e : Element}, elements[i]? = some e → e.parent = some p → p < i
  /-- An outermost element is at depth zero. -/
  depth_root : ∀ {i : Nat} {e : Element}, elements[i]? = some e → e.parent = none →
    e.location.depth = 0
  /-- Any other element is one deeper than the one around it. -/
  depth_child : ∀ {i p : Nat} {e e' : Element}, elements[i]? = some e → e.parent = some p →
    elements[p]? = some e' → e.location.depth = e'.location.depth + 1
  /-- An attribute is one deeper than its element. -/
  attribute_depth : ∀ {i : Nat} {e : Element}, elements[i]? = some e → ∀ a ∈ e.attributes,
    a.location.depth = e.location.depth + 1
  /-- An element lists all those that name it. -/
  children_eq : ∀ {i : Nat} {e : Element}, elements[i]? = some e →
    e.childElements = childrenOf elements (some i)
  /-- The outermost elements are those that name none. -/
  roots_eq : roots = childrenOf elements none

/-- Revising an element changes no parent. -/
theorem Revises.parentOf_eq (h : Revises elements elements' id e e') (born : e.SameBirth e')
    (i : Nat) : parentOf elements' i = parentOf elements i := by
  unfold parentOf
  by_cases heq : i = id
  · rw [heq, h.old, h.new]
    exact born.parent_eq
  · rw [h.same heq]

/-- Nor does it change which elements have a given parent. -/
theorem Revises.childrenOf_eq (h : Revises elements elements' id e e') (born : e.SameBirth e')
    (parent : Option Nat) : childrenOf elements' parent = childrenOf elements parent := by
  unfold childrenOf
  simp only [h.size_eq, h.parentOf_eq born]

/-- Each element of the changed array was there before. -/
theorem Revises.exists_old (h : Revises elements elements' id e e') (born : e.SameBirth e')
    {x' : Element} (hx : elements'[i]? = some x') : ∃ x, elements[i]? = some x ∧ x.SameBirth x' ∧
      ((i = id ∧ x = e ∧ x' = e') ∨ x = x') := by
  by_cases heq : i = id
  · subst heq
    rw [h.new] at hx
    cases hx
    exact ⟨e, h.old, born, .inl ⟨rfl, rfl, rfl⟩⟩
  · rw [h.same heq] at hx
    exact ⟨x', hx, ⟨rfl, rfl, rfl, rfl⟩, .inr rfl⟩

/-- **Changing an element keeps the links** if it keeps what the element was added with. -/
theorem Linked.revise (h : Linked elements roots) (rev : Revises elements elements' id e e')
    (born : e.SameBirth e') (children : e'.childElements = e.childElements)
    (attributes : ∀ a ∈ e'.attributes, a.location.depth = e'.location.depth + 1) :
    Linked elements' roots where
  id_eq := fun hx => by
    obtain ⟨x, hold, same, -⟩ := rev.exists_old born hx
    rw [same.id_eq, h.id_eq hold]
  start_lt := fun hx hy hlt => by
    obtain ⟨x, hx, same, -⟩ := rev.exists_old born hx
    obtain ⟨y, hy, same', -⟩ := rev.exists_old born hy
    rw [same.start_eq, same'.start_eq]
    exact h.start_lt hx hy hlt
  parent_lt := fun hx hparent => by
    obtain ⟨x, hx, same, -⟩ := rev.exists_old born hx
    exact h.parent_lt hx (same.parent_eq ▸ hparent)
  depth_root := fun hx hparent => by
    obtain ⟨x, hx, same, -⟩ := rev.exists_old born hx
    rw [same.depth_eq]
    exact h.depth_root hx (same.parent_eq ▸ hparent)
  depth_child := fun hx hparent hp => by
    obtain ⟨x, hx, same, -⟩ := rev.exists_old born hx
    obtain ⟨p, hp, same', -⟩ := rev.exists_old born hp
    rw [same.depth_eq, same'.depth_eq]
    exact h.depth_child hx (same.parent_eq ▸ hparent) hp
  attribute_depth := fun hx => by
    -- only here it matters which element was revised
    obtain ⟨x, hold, same, ⟨-, -, rfl⟩ | rfl⟩ := rev.exists_old born hx
    · exact attributes
    · exact h.attribute_depth hold
  children_eq := fun hx => by
    rw [rev.childrenOf_eq born]
    obtain ⟨x, hold, same, ⟨-, rfl, rfl⟩ | rfl⟩ := rev.exists_old born hx
    · rw [children, h.children_eq hold]
    · exact h.children_eq hold
  roots_eq := by rw [rev.childrenOf_eq born, h.roots_eq]

/-- **An element is added** and listed by the element around it. -/
structure Adds (elements elements' : Array Element) (new : Element) : Prop where
  /-- One element more. -/
  size_eq : elements'.size = elements.size + 1
  /-- The new element comes last. -/
  new_eq : elements'[elements.size]? = some new
  /-- What the others have from the time they were added stays, and so do their attributes. -/
  old : ∀ {i : Nat} {e' : Element}, elements'[i]? = some e' → i ≠ elements.size →
    ∃ e, elements[i]? = some e ∧ e.SameBirth e' ∧ e'.attributes = e.attributes ∧
      e'.childElements = e.childElements ++ if new.parent = some i then [elements.size] else []

/-- Adding an element adds one child to the element around it. -/
theorem Adds.childrenOf_eq {new : Element} (h : Adds elements elements' new)
    (parent : Option Nat) :
    childrenOf elements' parent =
      childrenOf elements parent ++ if new.parent = parent then [elements.size] else [] := by
  have hold : ∀ id ∈ List.range elements.size,
      decide (parentOf elements' id = parent) = decide (parentOf elements id = parent) := by
    intro id hid
    have hlt := List.mem_range.mp hid
    have hlt' : id < elements'.size := by rw [h.size_eq]; omega
    obtain ⟨e, he, born, -⟩ := h.old (Array.getElem?_eq_getElem hlt') (Nat.ne_of_lt hlt)
    unfold parentOf
    rw [he, Array.getElem?_eq_getElem hlt', Option.bind_some, Option.bind_some, born.parent_eq]
  have hnew : parentOf elements' elements.size = new.parent := by
    unfold parentOf
    rw [h.new_eq, Option.bind_some]
  unfold childrenOf
  rw [h.size_eq, List.range_succ, List.filter_append, List.filter_congr hold]
  simp only [List.filter_cons, List.filter_nil, hnew, decide_eq_true_eq]

/-- **Adding an element keeps the links.** -/
theorem Linked.add {new : Element} {roots' : List Nat} (h : Linked elements roots)
    (adds : Adds elements elements' new) (id_eq : new.id = elements.size)
    (start_lt : ∀ {i : Nat} {e : Element}, elements[i]? = some e → e.span.start < new.span.start)
    (parent_lt : ∀ {p : Nat}, new.parent = some p → p < elements.size)
    (depth_root : new.parent = none → new.location.depth = 0)
    (depth_child : ∀ {p : Nat} {e : Element}, new.parent = some p → elements[p]? = some e →
      new.location.depth = e.location.depth + 1)
    (attributes : new.attributes = []) (content : new.content = [])
    (hroots : roots' = roots ++ if new.parent = none then [elements.size] else []) :
    Linked elements' roots' := by
  -- what is in the list now is the new element, or an old one whose parent part is untouched
  have hcases {i : Nat} {x' : Element} (hx : elements'[i]? = some x') :
      (i = elements.size ∧ x' = new) ∨ (i < elements.size ∧
        ∃ x, elements[i]? = some x ∧ x.SameBirth x' ∧ x'.attributes = x.attributes ∧
          x'.childElements = x.childElements ++
            if new.parent = some i then [elements.size] else []) := by
    by_cases heq : i = elements.size
    · rw [heq, adds.new_eq] at hx
      exact .inl ⟨heq, (Option.some.inj hx).symm⟩
    · have hlt := lt_size_of_getElem? hx
      rw [adds.size_eq] at hlt
      exact .inr ⟨by omega, adds.old hx heq⟩
  constructor
  case id_eq =>
    intro i x hx
    rcases hcases hx with ⟨rfl, rfl⟩ | ⟨-, x, hx, born, -⟩
    · exact id_eq
    · rw [born.id_eq, h.id_eq hx]
  case start_lt =>
    intro i j x y hx hy hlt
    rcases hcases hx with ⟨rfl, rfl⟩ | ⟨-, x, hx, born, -⟩
    · rcases hcases hy with ⟨rfl, rfl⟩ | ⟨hj, -⟩
      · exact absurd hlt (Nat.lt_irrefl _)
      · exact absurd hlt (Nat.lt_asymm hj)
    · rw [born.start_eq]
      rcases hcases hy with ⟨rfl, rfl⟩ | ⟨-, y, hy, born', -⟩
      · exact start_lt hx
      · rw [born'.start_eq]
        exact h.start_lt hx hy hlt
  case parent_lt =>
    intro i p x hx hparent
    rcases hcases hx with ⟨rfl, rfl⟩ | ⟨-, x, hx, born, -⟩
    · exact parent_lt hparent
    · exact h.parent_lt hx (born.parent_eq ▸ hparent)
  case depth_root =>
    intro i x hx hparent
    rcases hcases hx with ⟨rfl, rfl⟩ | ⟨-, x, hx, born, -⟩
    · exact depth_root hparent
    · rw [born.depth_eq]
      exact h.depth_root hx (born.parent_eq ▸ hparent)
  case depth_child =>
    intro i p x y hx hparent hy
    -- a parent is never the new element, which nothing names yet
    have hp : p < elements.size := by
      rcases hcases hx with ⟨rfl, rfl⟩ | ⟨hi, x, hx, born, -⟩
      · exact parent_lt hparent
      · exact Nat.lt_trans (h.parent_lt hx (born.parent_eq ▸ hparent)) hi
    obtain ⟨y, hy, born', -⟩ := adds.old hy (Nat.ne_of_lt hp)
    rw [born'.depth_eq]
    rcases hcases hx with ⟨rfl, rfl⟩ | ⟨-, x, hx, born, -⟩
    · exact depth_child hparent hy
    · rw [born.depth_eq]
      exact h.depth_child hx (born.parent_eq ▸ hparent) hy
  case attribute_depth =>
    intro i x hx a ha
    rcases hcases hx with ⟨rfl, rfl⟩ | ⟨-, x, hx, born, hattributes, -⟩
    · rw [attributes] at ha
      cases ha
    · rw [born.depth_eq]
      exact h.attribute_depth hx a (hattributes ▸ ha)
  case children_eq =>
    intro i x hx
    rw [adds.childrenOf_eq]
    rcases hcases hx with ⟨rfl, rfl⟩ | ⟨-, x, hx, born, -, hchildren⟩
    · -- nothing can name the new element yet
      have hnone : childrenOf elements (some elements.size) = [] := by
        refine List.filter_eq_nil_iff.mpr fun id hid => ?_
        intro hparent
        have hlt := List.mem_range.mp hid
        rw [decide_eq_true_eq, parentOf, Array.getElem?_eq_getElem hlt, Option.bind_some]
          at hparent
        have := h.parent_lt (Array.getElem?_eq_getElem hlt) hparent
        omega
      have hself : ¬ x.parent = some elements.size := fun hparent =>
        Nat.lt_irrefl _ (parent_lt hparent)
      rw [hnone, if_neg hself, Element.childElements, content]
      rfl
    · rw [hchildren, h.children_eq hx]
  case roots_eq => rw [adds.childrenOf_eq, hroots, h.roots_eq]

/-! ## What follows from the links -/

/-- The elements with a given parent are those that name it. -/
theorem mem_childrenOf {parent : Option Nat} :
    i ∈ childrenOf elements parent ↔ i < elements.size ∧ parentOf elements i = parent := by
  unfold childrenOf
  rw [List.mem_filter, List.mem_range, decide_eq_true_eq]

/-- An element is listed once by the element around it, and by no other. -/
theorem count_childrenOf (he : elements[i]? = some e) (parent : Option Nat) :
    (childrenOf elements parent).count i = if e.parent = parent then 1 else 0 := by
  have hnodup : (childrenOf elements parent).Nodup := List.nodup_range.filter _
  have hmem : i ∈ childrenOf elements parent ↔ e.parent = parent := by
    rw [mem_childrenOf, parentOf, he, Option.bind_some]
    exact ⟨fun h => h.2, fun h => ⟨lt_size_of_getElem? he, h⟩⟩
  rw [hnodup.count]
  simp only [hmem]

/-- The elements around an element, from the innermost one on. -/
def Document.ancestors (document : Document) (id : Nat) : List Nat :=
  match (document.get? id).bind Element.parent with
  | none => []
  | some parent => if parent < id then parent :: document.ancestors parent else []
termination_by id

/-- Around an element stand the one around it and all those around that one. -/
theorem Linked.ancestors_eq {document : Document} (h : Linked document.elements document.roots)
    (he : document.get? i = some e) : document.ancestors i =
      match e.parent with
      | none => []
      | some parent => parent :: document.ancestors parent := by
  rw [Document.ancestors, he, Option.bind_some]
  cases hparent : e.parent with
  | none => rfl
  | some parent => exact if_pos (h.parent_lt he hparent)

/-- **Depth counts the elements around.** -/
theorem Linked.depth_eq_length {document : Document} (h : Linked document.elements document.roots)
    (he : document.get? i = some e) : e.location.depth = (document.ancestors i).length := by
  induction i using Nat.strongRecOn generalizing e with
  | _ i ih =>
    rw [h.ancestors_eq he]
    cases hparent : e.parent with
    | none => exact h.depth_root he hparent
    | some p =>
      have hlt := h.parent_lt he hparent
      have hp : p < document.elements.size := Nat.lt_trans hlt (lt_size_of_getElem? he)
      have hget : document.get? p = some document.elements[p] := Array.getElem?_eq_getElem hp
      rw [List.length_cons, h.depth_child he hparent hget, ih p hlt hget]

end ProjectLens.Markup
