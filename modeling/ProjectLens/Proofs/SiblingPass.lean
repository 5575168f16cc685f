import ProjectLens.Proofs.Assembling
import ProjectLens.Proofs.Inventory

/-! # The links are written after the walk

When all nodes have been pushed and patched, what comes before and after each of them is written list by
list: the attributes and the content of every element in the order of discovery, and then the outermost
elements. Each write gives a node the links it has in the model. Since every node stands in one of these
lists, no node is left without them, and what has been put together is the model.

* `Assembly.Partly`: some of the nodes have their links; `Assembly.linkList_partly`: a list is linked;
* `Assembly.mem_listsOf`: every node stands in one of the lists;
* `Assembly.orderOf_nodes`: the numbers by range are those of the sorted nodes;
* `Assembly.build_eq`, `Snapshot.assembled_ofText`: **all of it gives the model**. -/

namespace ProjectLens

open Draft

variable {index : Index} {document : Markup.Document} {model : Model} {nodes : Array Node}

/-! ## Lists -/

/-- The links of a node are read off its place in its list. -/
theorem Model.Neighbours.at_place {parent previous : Option Nat} {ids : List Nat} {place id : Nat}
    (h : model.Neighbours parent previous ids) (hid : ids[place]? = some id) :
    ∃ n, model.get? id = some n ∧ n.previous = (if place = 0 then previous else ids[place - 1]?) ∧
      n.next = ids[place + 1]? := by
  induction ids generalizing previous place with
  | nil => cases hid
  | cons first ids ih =>
    obtain ⟨⟨n, hn, -, hprevious, hnext⟩, hrest⟩ := h
    cases place with
    | zero =>
      cases hid
      exact ⟨n, hn, hprevious, by rw [hnext, List.head?_eq_getElem?]; rfl⟩
    | succ place =>
      obtain ⟨m, hm, hbefore, hafter⟩ := ih hrest hid
      refine ⟨m, hm, ?_, hafter⟩
      rw [hbefore, if_neg (Nat.succ_ne_zero place)]
      -- the second one comes after the first one
      cases place with
      | zero => rfl
      | succ place => rfl

namespace Assembly

/-- **Some of the nodes of a model have their links**, those with the numbers `done`. -/
def Partly (model : Model) (done : List Nat) (nodes : Array Node) : Prop :=
  ∀ i, nodes[i]? = (model.get? i).map fun n => if i ∈ done then n else n.bare

/-- Writing the links of one more node. -/
theorem write_partly {ids done : List Nat} {parent : Option Nat} {place id : Nat}
    (row : model.Neighbours parent none ids) (hid : ids[place]? = some id)
    (h : Partly model done nodes) :
    ∃ nodes', write nodes id (linkAt ids place) = .ok nodes' ∧ Partly model (done ++ [id]) nodes' := by
  obtain ⟨n, hn, hprevious, hnext⟩ := row.at_place hid
  have hlinked : linkAt ids place n = n := by
    rw [linkAt, ← hprevious, ← hnext]
  have hold := h id
  rw [hn, Option.map_some] at hold
  obtain ⟨hlt, -⟩ := Array.getElem?_eq_some_iff.mp hold
  refine ⟨nodes.modify id (linkAt ids place), if_pos hlt, fun i => ?_⟩
  rw [Array.getElem?_modify]
  by_cases hi : id = i
  · -- whether or not the node had its links before
    subst hi
    rw [if_pos rfl, hold, hn]
    simp only [Option.map_some, List.mem_append, List.mem_singleton, or_true, if_true]
    split
    · rw [hlinked]
    · exact congrArg some hlinked
  · rw [if_neg hi, h i]
    have hmem : i ∈ done ++ [id] ↔ i ∈ done := by
      rw [List.mem_append, List.mem_singleton]
      exact or_iff_left fun heq => hi heq.symm
    simp only [hmem]

/-- Writing the links of some nodes of a list, each with its place in the list. -/
theorem foldlM_write_partly {ids done : List Nat} {parent : Option Nat} {pairs : List (Nat × Nat)}
    (row : model.Neighbours parent none ids) (hpairs : ∀ pair ∈ pairs, ids[pair.2]? = some pair.1)
    (h : Partly model done nodes) :
    ∃ nodes', pairs.foldlM (fun nodes (id, place) => write nodes id (linkAt ids place)) nodes =
      .ok nodes' ∧ Partly model (done ++ pairs.map Prod.fst) nodes' := by
  induction pairs generalizing done nodes with
  | nil => exact ⟨nodes, rfl, by rwa [List.map_nil, List.append_nil]⟩
  | cons pair pairs ih =>
    obtain ⟨id, place⟩ := pair
    obtain ⟨hplace, hrest⟩ := List.forall_mem_cons.mp hpairs
    obtain ⟨nodes', hwrite, h'⟩ := write_partly row hplace h
    obtain ⟨nodes'', hfold, h''⟩ := ih hrest h'
    refine ⟨nodes'', ?_, ?_⟩
    · rw [List.foldlM_cons]
      simp only [hwrite]
      exact hfold
    · rwa [List.append_assoc] at h''

/-- **Linking a list** gives all nodes in it their links. -/
theorem linkList_partly {ids done : List Nat} {parent : Option Nat}
    (row : model.Neighbours parent none ids) (h : Partly model done nodes) :
    ∃ nodes', linkList nodes ids = .ok nodes' ∧ Partly model (done ++ ids) nodes' := by
  have hplaces : ∀ pair ∈ ids.zipIdx, ids[pair.2]? = some pair.1 :=
    fun pair hpair => List.mk_mem_zipIdx_iff_getElem?.mp hpair
  obtain ⟨nodes', hfold, h'⟩ := foldlM_write_partly row hplaces h
  rw [List.zipIdx_map_fst] at h'
  exact ⟨nodes', hfold, h'⟩

/-- Linking several lists. -/
theorem foldlM_linkList_partly {lists : List (List Nat)} {done : List Nat}
    (rows : ∀ ids ∈ lists, ∃ parent, model.Neighbours parent none ids)
    (h : Partly model done nodes) :
    ∃ nodes', lists.foldlM linkList nodes = .ok nodes' ∧
      Partly model (done ++ lists.flatten) nodes' := by
  induction lists generalizing done nodes with
  | nil => exact ⟨nodes, rfl, by rwa [List.flatten_nil, List.append_nil]⟩
  | cons ids lists ih =>
    obtain ⟨⟨parent, row⟩, hrest⟩ := List.forall_mem_cons.mp rows
    obtain ⟨nodes', hlist, h'⟩ := linkList_partly row h
    obtain ⟨nodes'', hfold, h''⟩ := ih hrest h'
    refine ⟨nodes'', ?_, ?_⟩
    · rw [List.foldlM_cons, hlist]
      exact hfold
    · rwa [List.append_assoc] at h''

/-- Once every node has its links, the nodes are those of the model. -/
theorem Partly.eq {done : List Nat} (h : Partly model done nodes)
    (hall : ∀ {i : Nat} {n : Node}, model.get? i = some n → i ∈ done) : nodes = model.nodes := by
  refine Array.ext_getElem? fun i => ?_
  rw [h i, ← Model.get?]
  cases hn : model.get? i with
  | none => rfl
  | some n => rw [Option.map_some, if_pos (hall hn)]

/-! ## Every node stands in a list -/

/-- Only the nodes of elements list others. -/
theorem isElement_of_mem_lists {p i : Nat} {m : Node}
    (hm : (Model.ofDocument document index).get? p = some m) (hi : i ∈ m.attributes ++ m.content) :
    m.part.isElement = true := by
  obtain ⟨parent, previous, draft, drafts, row, rfl⟩ := Model.exists_row hm
  cases row.drawn draft List.mem_cons_self with
  | ofElement path he => rw [Markup.ofElement_eq]; rfl
  | ofAttribute | ofText | ofWhitespace => cases hi

/-- The nodes that have been pushed. -/
def pushed (document : Markup.Document) (index : Index) : Array Node :=
  (bareAllFrom index 0 none (ofDocument document index)).toArray

/-- Nothing is linked yet. -/
theorem partly_pushed (document : Markup.Document) (index : Index) :
    Partly (Model.ofDocument document index) [] (pushed document index) := by
  intro i
  rw [pushed, List.getElem?_toArray, bareAllFrom, List.getElem?_map, Model.get?_ofDocument]
  rfl

/-- The lists of the nodes pushed are those of the model. -/
theorem listsOf_pushed (document : Markup.Document) (index : Index) :
    listsOf (pushed document index) (Model.ofDocument document index).roots =
      listsOf (Model.ofDocument document index).nodes (Model.ofDocument document index).roots := by
  rw [listsOf, listsOf, pushed, bareAllFrom, List.filter_map, List.flatMap_map]
  rfl

/-- Every list is a row of neighbours. -/
theorem rows_of_listsOf {ids : List Nat}
    (h : ids ∈ listsOf (Model.ofDocument document index).nodes
      (Model.ofDocument document index).roots) :
    ∃ parent, (Model.ofDocument document index).Neighbours parent none ids := by
  have listing := Model.listing_ofDocument document index
  rw [listsOf, List.mem_append, List.mem_singleton, List.mem_flatMap] at h
  rcases h with ⟨n, hn, hids⟩ | rfl
  · obtain ⟨i, hi⟩ := List.mem_iff_getElem?.mp (List.mem_of_mem_filter hn)
    rw [← Model.get?_eq] at hi
    rcases List.mem_pair.mp hids with rfl | rfl
    · exact ⟨some i, listing.attributes_row hi⟩
    · exact ⟨some i, listing.content_row hi⟩
  · exact ⟨none, listing.roots_row⟩

/-- **Every node stands in one of the lists.** -/
theorem mem_listsOf {i : Nat} {n : Node}
    (hn : (Model.ofDocument document index).get? i = some n) :
    i ∈ (listsOf (Model.ofDocument document index).nodes
      (Model.ofDocument document index).roots).flatten := by
  rw [listsOf, List.flatten_append, List.mem_append]
  -- a node is a root, or one of the lists of its parent names it
  have hlisted := Model.lists_parent hn
  cases hparent : n.parent with
  | none =>
    rw [hparent] at hlisted
    right
    rwa [List.flatten_singleton]
  | some p =>
    rw [hparent] at hlisted
    obtain ⟨m, hm, hmem⟩ := hlisted
    have helement : m ∈ (Model.ofDocument document index).nodes.toList.filter (·.part.isElement) := by
      rw [Model.get?_eq] at hm
      exact List.mem_filter.mpr ⟨List.mem_of_getElem? hm, isElement_of_mem_lists (by
        rwa [Model.get?_eq]) hmem⟩
    left
    rw [List.mem_flatten]
    rcases List.mem_append.mp hmem with hmem | hmem
    · exact ⟨m.attributes, List.mem_flatMap.mpr ⟨m, helement, by simp⟩, hmem⟩
    · exact ⟨m.content, List.mem_flatMap.mpr ⟨m, helement, by simp⟩, hmem⟩

/-! ## The order of nodes -/

/-- Ranges of which neither comes after the other are the same. -/
theorem range_eq_of_order_ne_gt {a b : Range} (hab : a.order b ≠ .gt) (hba : b.order a ≠ .gt) :
    a = b := by
  rw [Range.order_ne_gt] at hab hba
  obtain ⟨start, stop⟩ := a
  obtain ⟨start', stop'⟩ := b
  simp only at hab hba
  obtain rfl : start = start' := by grind
  obtain rfl : stop = stop' := by grind
  rfl

/-- A range compares as the same with itself alone. -/
theorem range_order_eq_iff {a b : Range} : a.order b = .eq ↔ a = b := by
  constructor
  · obtain ⟨start, stop⟩ := a
    obtain ⟨start', stop'⟩ := b
    unfold Range.order Position.order
    grind [Ordering.then]
  · rintro rfl
    unfold Range.order Position.order
    grind [Ordering.then]

/-- Comparing ranges and then numbers is comparing ranges where those that are the same keep their
places. -/
theorem order_then_compare (a b : Node × Nat) :
    decide ((a.1.range.order b.1.range).then (compare a.2 b.2) ≠ .gt) =
      List.zipIdxLE (fun a b : Node => decide (a.range.order b.range ≠ .gt)) a b := by
  cases horder : a.1.range.order b.1.range with
  | eq =>
    -- the same range, so the places decide
    have hsame := range_order_eq_iff.mp horder
    have horder' : b.1.range.order a.1.range = .eq := range_order_eq_iff.mpr hsame.symm
    simp [List.zipIdxLE, horder, horder', Ordering.then, Nat.compare_ne_gt]
  | lt =>
    have hforth : a.1.range.order b.1.range ≠ .gt := by
      rw [horder]
      decide
    have horder' : b.1.range.order a.1.range = .gt := by
      by_contra hback
      rw [range_order_eq_iff.mpr (range_eq_of_order_ne_gt hforth hback)] at horder
      cases horder
    simp [List.zipIdxLE, horder, horder', Ordering.then]
  | gt => simp [List.zipIdxLE, horder, Ordering.then]

/-- **The numbers of nodes by range are those of the sorted nodes.** -/
theorem map_orderOf (h : ∀ {i : Nat} {n : Node}, model.get? i = some n → n.id = i) :
    orderOf model.nodes = model.sorted.map Node.id := by
  have hpairs : ∀ pair ∈ model.nodes.toList.zipIdx, pair.1.id = pair.2 := by
    intro pair hpair
    have hplace := List.mk_mem_zipIdx_iff_getElem?.mp hpair
    rw [← Model.get?_eq] at hplace
    exact h hplace
  have hsame : (fun a b : Node × Nat =>
      decide ((a.1.range.order b.1.range).then (compare a.2 b.2) ≠ .gt)) =
      List.zipIdxLE fun a b : Node => decide (a.range.order b.range ≠ .gt) := by
    funext a b
    exact order_then_compare a b
  have hsorted : (model.nodes.toList.zipIdx.mergeSort
      (List.zipIdxLE fun a b : Node => decide (a.range.order b.range ≠ .gt))).map Prod.fst =
      model.sorted := List.mergeSort_zipIdx
  rw [orderOf, hsame, ← hsorted, List.map_map]
  refine List.map_congr_left fun pair hpair => ?_
  exact (hpairs pair (List.mem_mergeSort.mp hpair)).symm

/-! ## All of it -/

/-- **What is put together of a document that was read is its model**: the walk ends, no number is that of
no node, and nodes, links and order are those of the model. -/
theorem build_eq (kept : Markup.Kept index document.elements document.roots [] index.length) :
    build document index = .ok
      ⟨(Model.ofDocument document index).nodes, (Model.ofDocument document index).sorted.map Node.id,
        (Model.ofDocument document index).roots⟩ := by
  have linked := kept.linked
  -- a child has a greater number than its parent, so the walk ends
  have descending : Descending document := by
    intro i e id he hid
    have hchild : id ∈ Markup.childrenOf document.elements (some i) := by
      rw [← linked.children_eq he, Markup.mem_childElements]
      exact hid
    obtain ⟨hlt, hparent⟩ := Markup.mem_childrenOf.mp hchild
    have hget : document.get? id = some document.elements[id] := Array.getElem?_eq_getElem hlt
    have hparent' : document.elements[id].parent = some i := by
      rwa [Markup.parentOf, Array.getElem?_eq_getElem hlt] at hparent
    refine ⟨document.elements[id], hget, ?_⟩
    rw [linked.id_eq he, linked.id_eq hget]
    exact ⟨linked.parent_lt hget hparent', hlt⟩
  have hroots : ∀ root ∈ document.roots, ∃ e, document.get? root = some e := by
    intro root hroot
    rw [linked.roots_eq, Markup.mem_childrenOf] at hroot
    exact ⟨_, Array.getElem?_eq_getElem hroot.1⟩
  -- every list the pass goes over is a row of neighbours
  have hrows : ∀ ids ∈ listsOf (pushed document index) (Model.ofDocument document index).roots,
      ∃ parent, (Model.ofDocument document index).Neighbours parent none ids :=
    fun ids hids => rows_of_listsOf (listsOf_pushed document index ▸ hids)
  -- all lists together name every node, so the pass links all of them
  obtain ⟨nodes, hlink, hpartly⟩ := foldlM_linkList_partly hrows (partly_pushed document index)
  obtain rfl : nodes = (Model.ofDocument document index).nodes := hpartly.eq fun hn => by
    rw [List.nil_append, listsOf_pushed]
    exact mem_listsOf hn
  rw [build, pushTrees_document descending hroots]
  show (do
    let nodes ← (listsOf (pushed document index)
      (Model.ofDocument document index).roots).foldlM linkList (pushed document index)
    return Stored.mk nodes (orderOf nodes) (Model.ofDocument document index).roots) = _
  rw [hlink, ← map_orderOf (Model.listing_ofDocument document index).id_eq]
  rfl

end Assembly

/-- **Nothing is lost when a model is put together.** For every text, however broken, the walk with its
stack of open elements ends, with no number that is that of no element or node, and after the links have
been written what is stored is the model, with its nodes in the order of their ranges. It has the elements
and attributes of the document, each once and in the order in which they are written, every node in just
one list, and links between exactly the neighbours of each list. -/
theorem Snapshot.assembled_ofText (text : String) : ∃ stored,
    Assembly.build (Snapshot.ofText text).document (Snapshot.ofText text).index = .ok stored ∧
    stored.model = (Snapshot.ofText text).model ∧
    stored.model.Complete (Snapshot.ofText text).document (Snapshot.ofText text).index ∧
    stored.order.map stored.model.get? = stored.model.sorted.map some := by
  have complete := Snapshot.complete_ofText text
  refine ⟨_, Assembly.build_eq (Markup.kept_readDocument _), rfl, complete, ?_⟩
  rw [List.map_map]
  refine List.map_congr_left fun n hn => ?_
  -- a node stands at its number
  have hmem := (List.mergeSort_perm _ _).mem_iff.mp hn
  obtain ⟨i, hi⟩ := List.mem_iff_getElem?.mp hmem
  rw [← Model.get?_eq] at hi
  rw [Function.comp_apply, complete.id_eq hi]
  exact hi

end ProjectLens
