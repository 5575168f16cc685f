import ProjectLens.Proofs.Numbering

/-! # Where the nodes of a model are listed

The nodes that belong to an element stand in two lists, its attributes and its content, and the
outermost elements in a third kind of list. Numbers and links are given list by list, so all that the
nodes of a list know of each other follows from where the list stands among all nodes.

* `Model.Neighbours`: the nodes of a list are linked in its order;
* `Model.Lists`, `Model.lists_iff`: a node is listed by the one it belongs to;
* `Model.Listing`: every node stands in just one list, and lists are linked. -/

namespace ProjectLens

variable {index : Index}

/-! ## Links -/

namespace Model

open Draft

variable {model : Model} {parent previous : Option Nat} {i j : Nat} {n m : Node} {ids : List Nat}

/-- **The nodes of a list are linked in its order**: all of them belong to `parent`, each one knows the
ones before and after it, and `previous` comes before the first. -/
def Neighbours (model : Model) (parent : Option Nat) : Option Nat → List Nat → Prop
  | _, [] => True
  | previous, id :: ids =>
    (∃ n, model.get? id = some n ∧ n.parent = parent ∧ n.previous = previous ∧ n.next = ids.head?) ∧
      Neighbours model parent (some id) ids

namespace Neighbours

/-- What is listed is a node that belongs to the parent. -/
theorem exists_of_mem (h : model.Neighbours parent previous ids) (hi : i ∈ ids) :
    ∃ n, model.get? i = some n ∧ n.parent = parent := by
  induction ids generalizing previous with
  | nil => cases hi
  | cons id ids ih =>
    obtain ⟨⟨n, hn, hparent, -⟩, hrest⟩ := h
    rcases List.mem_cons.mp hi with rfl | hi
    · exact ⟨n, hn, hparent⟩
    · exact ih hrest hi

/-- The node after a node has that node before it. -/
theorem previous_of_next (h : model.Neighbours parent previous ids) (hi : i ∈ ids)
    (hn : model.get? i = some n) (hnext : n.next = some j) :
    ∃ m, model.get? j = some m ∧ m.previous = some i := by
  induction ids generalizing previous with
  | nil => cases hi
  | cons id ids ih =>
    obtain ⟨⟨own, hown, -, -, hhead⟩, hrest⟩ := h
    rcases List.mem_cons.mp hi with rfl | hi
    · -- the next node is the first one of the rest, and knows the node it comes after
      obtain rfl : own = n := Option.some.inj (hown.symm.trans hn)
      cases ids with
      | nil => cases hhead.symm.trans hnext
      | cons id ids =>
        obtain rfl : id = j := Option.some.inj (hhead.symm.trans hnext)
        obtain ⟨⟨m, hm, -, hprevious, -⟩, -⟩ := hrest
        exact ⟨m, hm, hprevious⟩
    · exact ih hrest hi

/-- The node before a node has that node after it, the first node apart. -/
theorem next_of_previous (h : model.Neighbours parent previous ids) (hj : j ∈ ids)
    (hm : model.get? j = some m) (hprevious : m.previous = some i) :
    (previous = some i ∧ ids.head? = some j) ∨ ∃ n, model.get? i = some n ∧ n.next = some j := by
  induction ids generalizing previous with
  | nil => cases hj
  | cons id ids ih =>
    obtain ⟨⟨own, hown, -, hbefore, hhead⟩, hrest⟩ := h
    rcases List.mem_cons.mp hj with rfl | hj
    · obtain rfl : own = m := Option.some.inj (hown.symm.trans hm)
      exact .inl ⟨hbefore.symm.trans hprevious, rfl⟩
    · rcases ih hrest hj with ⟨heq, hfirst⟩ | hfound
      · -- what comes before the rest is the first node of the list
        cases heq
        exact .inr ⟨own, hown, hhead.trans hfirst⟩
      · exact .inr hfound

end Neighbours

/-! ## Lists -/

/-- **A node is listed** in the one that it belongs to, or among the outermost ones. -/
def Lists (model : Model) : Option Nat → Nat → Prop
  | none, id => id ∈ model.roots
  | some parent, id => ∃ m, model.get? parent = some m ∧ id ∈ m.attributes ++ m.content

/-- **Every node stands in just one list**, that of the node around it, and lists are linked in their
order. -/
structure Listing (model : Model) : Prop where
  /-- A node knows its number. -/
  id_eq : ∀ {i : Nat} {n : Node}, model.get? i = some n → n.id = i
  /-- A node that belongs to another one comes after it. -/
  parent : ∀ {i p : Nat} {n : Node}, model.get? i = some n → n.parent = some p →
    p < i ∧ ∃ m, model.get? p = some m
  /-- A node that belongs to no other one is listed once among the outermost ones, and no other is. -/
  count_roots : ∀ {i : Nat} {n : Node}, model.get? i = some n →
    model.roots.count i = if n.parent = none then 1 else 0
  /-- Any other node is listed once by the one it belongs to, in one of its lists, and by no other. -/
  count_listed : ∀ {i p : Nat} {n m : Node}, model.get? i = some n → model.get? p = some m →
    m.attributes.count i + m.content.count i = if n.parent = some p then 1 else 0
  /-- The outermost nodes are neighbours. -/
  roots_row : model.Neighbours none none model.roots
  /-- The attributes of a node are neighbours. -/
  attributes_row : ∀ {i : Nat} {n : Node}, model.get? i = some n →
    model.Neighbours (some i) none n.attributes
  /-- The content of a node is a row of neighbours. -/
  content_row : ∀ {i : Nat} {n : Node}, model.get? i = some n →
    model.Neighbours (some i) none n.content
  /-- The node after a node is one. -/
  next_get : ∀ {i j : Nat} {n : Node}, model.get? i = some n → n.next = some j →
    ∃ m, model.get? j = some m
  /-- The node before a node is one. -/
  previous_get : ∀ {i j : Nat} {n : Node}, model.get? i = some n → n.previous = some j →
    ∃ m, model.get? j = some m
  /-- A node comes after another one just if that one comes before it. -/
  next_iff : ∀ {i j : Nat} {n m : Node}, model.get? i = some n → model.get? j = some m →
    (n.next = some j ↔ m.previous = some i)

variable {document : Markup.Document}

/-- The nodes of a row are neighbours. -/
theorem neighbours_of_row {id : Nat} {drafts : List Draft}
    (row : Row (Draft.ofDocument document index) id parent previous drafts) :
    (ofDocument document index).Neighbours parent previous (Draft.ids id drafts) := by
  induction drafts generalizing id previous with
  | nil => trivial
  | cons draft drafts ih =>
    refine ⟨⟨_, get?_of_row row, ?_⟩, ih row.tail⟩
    cases draft
    exact ⟨rfl, rfl, rfl⟩

/-- The nodes of a row are what its drafts are. -/
theorem map_mark_of_row {id : Nat} {drafts : List Draft}
    (row : Row (Draft.ofDocument document index) id parent previous drafts) :
    ((Draft.ids id drafts).filterMap (ofDocument document index).get?).map Node.mark =
      drafts.map Draft.mark := by
  induction drafts generalizing id previous with
  | nil => rfl
  | cons draft drafts ih =>
    rw [Draft.ids, List.filterMap_cons_some (get?_of_row row), List.map_cons, mark_ownNode,
      ih row.tail, List.map_cons]

/-- **The nodes of a row are listed.** -/
theorem lists_of_row {id : Nat} {drafts : List Draft}
    (row : Row (Draft.ofDocument document index) id parent previous drafts) :
    ∀ i ∈ Draft.ids id drafts, (ofDocument document index).Lists parent i := by
  induction row with
  | outermost => exact fun i hi => hi
  | tail _ ih => exact fun i hi => ih i (List.mem_cons_of_mem _ hi)
  | attributes row _ => exact fun i hi => ⟨_, get?_of_row row, List.mem_append_left _ hi⟩
  | content row _ => exact fun i hi => ⟨_, get?_of_row row, List.mem_append_right _ hi⟩

/-- The node around a node lists it. -/
theorem lists_parent (hn : (ofDocument document index).get? i = some n) :
    (ofDocument document index).Lists n.parent i := by
  obtain ⟨parent, previous, draft, drafts, row, rfl⟩ := exists_row hn
  cases draft
  exact lists_of_row row i List.mem_cons_self

/-- Both lists of a node are linked in their order, and no node is listed twice. -/
theorem lists_of_get (hn : (ofDocument document index).get? i = some n) :
    (ofDocument document index).Neighbours (some i) none n.attributes ∧
      (ofDocument document index).Neighbours (some i) none n.content ∧
      (n.attributes ++ n.content).Nodup := by
  obtain ⟨parent, previous, draft, drafts, row, rfl⟩ := exists_row hn
  cases draft with
  | node part span path attributes content =>
    refine ⟨neighbours_of_row row.attributes, neighbours_of_row row.content, ?_⟩
    refine List.nodup_append.mpr ⟨nodup_ids _ _, nodup_ids _ _, fun a ha b hb heq => ?_⟩
    have := bounds_of_mem_ids ha
    have := bounds_of_mem_ids hb
    omega

/-- Where a node is listed all nodes are linked in order. -/
theorem Lists.exists_neighbours (h : (ofDocument document index).Lists parent i) :
    ∃ ids, (ofDocument document index).Neighbours parent none ids ∧ i ∈ ids := by
  cases parent with
  | none => exact ⟨_, neighbours_of_row .outermost, h⟩
  | some p =>
    obtain ⟨m, hm, hmem⟩ := h
    obtain ⟨hattributes, hcontent, -⟩ := lists_of_get hm
    rcases List.mem_append.mp hmem with hmem | hmem
    · exact ⟨_, hattributes, hmem⟩
    · exact ⟨_, hcontent, hmem⟩

/-- **A node is listed by the one it belongs to and by no other.** -/
theorem lists_iff (parent : Option Nat) (hn : (ofDocument document index).get? i = some n) :
    (ofDocument document index).Lists parent i ↔ n.parent = parent := by
  constructor
  · intro h
    obtain ⟨ids, hids, hmem⟩ := h.exists_neighbours
    obtain ⟨m, hm, hparent⟩ := hids.exists_of_mem hmem
    obtain rfl : m = n := Option.some.inj (hm.symm.trans hn)
    exact hparent
  · rintro rfl
    exact lists_parent hn

/-- In the model of a document, `n.next = some j` makes `n` the previous sibling of the node at
`j`, -/
theorem previous_of_next (hn : (ofDocument document index).get? i = some n)
    (hnext : n.next = some j) :
    ∃ m, (ofDocument document index).get? j = some m ∧ m.previous = some i := by
  obtain ⟨ids, hids, hmem⟩ := (lists_parent hn).exists_neighbours
  exact hids.previous_of_next hmem hn hnext

/-- and the other way round. -/
theorem next_of_previous (hm : (ofDocument document index).get? j = some m)
    (hprevious : m.previous = some i) :
    ∃ n, (ofDocument document index).get? i = some n ∧ n.next = some j := by
  obtain ⟨ids, hids, hmem⟩ := (lists_parent hm).exists_neighbours
  rcases hids.next_of_previous hmem hm hprevious with ⟨hnone, -⟩ | hfound
  · cases hnone
  · exact hfound

/-- **Every model is a listing of its nodes.** -/
theorem listing_ofDocument (document : Markup.Document) (index : Index) :
    (ofDocument document index).Listing := by
  have numbered := numbered_ofDocument document index
  constructor
  case id_eq => exact numbered.id_eq
  case parent =>
    intro i p n hn hparent
    obtain ⟨m, hm, -⟩ := (lists_iff (some p) hn).mpr hparent
    exact ⟨numbered.parent_lt hn hparent, m, hm⟩
  case count_roots =>
    intro i n hn
    -- a node is a root just when it has no parent, and roots are listed once
    have hnodup : (ofDocument document index).roots.Nodup := nodup_ids 0 _
    have hmem : i ∈ (ofDocument document index).roots ↔ n.parent = none :=
      lists_iff none hn
    rw [hnodup.count]
    simp only [hmem]
  case count_listed =>
    intro i p n m hn hm
    -- the same of the two lists of its parent, which share nothing
    obtain ⟨-, -, hnodup⟩ := lists_of_get hm
    have hmem : i ∈ m.attributes ++ m.content ↔ n.parent = some p := by
      rw [← lists_iff (some p) hn, Lists, hm]
      simp only [Option.some.injEq, exists_eq_left']
    rw [← List.count_append, hnodup.count]
    simp only [hmem]
  case roots_row => exact neighbours_of_row .outermost
  case attributes_row => exact fun hn => (lists_of_get hn).1
  case content_row => exact fun hn => (lists_of_get hn).2.1
  case next_get =>
    intro i j n hn hnext
    obtain ⟨m, hm, -⟩ := previous_of_next hn hnext
    exact ⟨m, hm⟩
  case previous_get =>
    intro i j n hn hprevious
    obtain ⟨m, hm, -⟩ := next_of_previous hn hprevious
    exact ⟨m, hm⟩
  case next_iff =>
    intro i j n m hn hm
    constructor
    · intro hnext
      obtain ⟨m', hm', hprevious⟩ := previous_of_next hn hnext
      obtain rfl : m' = m := Option.some.inj (hm'.symm.trans hm)
      exact hprevious
    · intro hprevious
      obtain ⟨n', hn', hnext⟩ := next_of_previous hm hprevious
      obtain rfl : n' = n := Option.some.inj (hn'.symm.trans hn)
      exact hnext

end Model

end ProjectLens
