import ProjectLens.Model.Basic

/-! # Where drafts stand among all drafts

Drafts are numbered in preorder: a draft, its attributes, its content, and then the next draft of its
list. So the nodes of a draft have consecutive numbers, and so have those of the rest of a list, from
any draft of it on.

* `Draft.ownNode`: the node of a draft itself; `Draft.map_id_nodesFrom`: the numbers of all its nodes;
* `Draft.Row`: the rest of a list, wherever it stands; `Draft.Row.standsAt`: its nodes are consecutive;
* `Draft.exists_row_of_mem_nodesAllFrom`: every node is the first one of a row. -/

namespace ProjectLens

variable {index : Index}

/-! ## Parts of a list -/

/-- **Some nodes stand among others** one after another, the first of them at a place. -/
def StandsAt (all : List Node) (place : Nat) (nodes : List Node) : Prop :=
  ∃ front back, all = front ++ nodes ++ back ∧ front.length = place

namespace StandsAt

variable {all nodes more : List Node} {place : Nat} {n : Node}

/-- `StandsAt all place (nodes ++ more) → StandsAt all place nodes`. -/
theorem left (h : StandsAt all place (nodes ++ more)) : StandsAt all place nodes := by
  obtain ⟨front, back, heq, hlength⟩ := h
  refine ⟨front, more ++ back, ?_, hlength⟩
  rw [heq]
  simp only [List.append_assoc]

/-- `StandsAt all place (nodes ++ more) → StandsAt all (place + nodes.length) more`. -/
theorem right (h : StandsAt all place (nodes ++ more)) :
    StandsAt all (place + nodes.length) more := by
  obtain ⟨front, back, heq, hlength⟩ := h
  refine ⟨front ++ nodes, back, ?_, ?_⟩
  · rw [heq]
    simp only [List.append_assoc]
  · rw [List.length_append, hlength]

/-- `StandsAt all place (n :: nodes) → StandsAt all (place + 1) nodes`. -/
theorem tail (h : StandsAt all place (n :: nodes)) : StandsAt all (place + 1) nodes := by
  rw [← List.singleton_append] at h
  exact h.right

/-- `StandsAt all place (n :: nodes) → all[place]? = some n`. -/
theorem getElem?_eq (h : StandsAt all place (n :: nodes)) : all[place]? = some n := by
  obtain ⟨front, back, heq, hlength⟩ := h
  rw [heq, List.append_assoc, List.getElem?_append_right (by omega), hlength, Nat.sub_self]
  rfl

end StandsAt

/-- What a node is, and the characters it covers. -/
def Node.mark (n : Node) : Part × Span := (n.part, n.span)

namespace Draft

variable {all drafts : List Draft} {draft : Draft} {id i : Nat} {parent previous next : Option Nat}

/-- The node that stands for a draft itself. -/
def ownNode (index : Index) (id : Nat) (parent previous next : Option Nat) : Draft → Node
  | .node part span path attributes content =>
    { id, span, path, parent, previous, next, part
      range := index.spanToRange span
      attributes := ids (id + 1) attributes
      content := ids (id + 1 + sizeAll attributes) content }

/-- What the node of a draft is, and the characters it covers. -/
def mark : Draft → Part × Span
  | .node part span .. => (part, span)

/-- The mark of a node is that of its draft. -/
theorem mark_ownNode : (ownNode index id parent previous next draft).mark = draft.mark := by
  cases draft
  rfl

/-! ## Numbers -/

mutual

/-- **The nodes of a draft are numbered in order**, one by one. -/
theorem map_id_nodesFrom (id : Nat) (parent previous next : Option Nat) : (draft : Draft) →
    (nodesFrom index id parent previous next draft).map Node.id = List.range' id draft.size
  | .node part span path attributes content => by
    have hsize : size (.node part span path attributes content) =
        sizeAll attributes + sizeAll content + 1 := by
      rw [size]
      omega
    rw [nodesFrom, List.map_cons, List.map_append,
      map_id_nodesAllFrom (id + 1) (some id) none attributes,
      map_id_nodesAllFrom (id + 1 + sizeAll attributes) (some id) none content,
      List.range'_append_1, hsize, List.range'_succ]

/-- The numbers of the nodes of drafts follow each other from the first. -/
theorem map_id_nodesAllFrom (id : Nat) (parent previous : Option Nat) : (drafts : List Draft) →
    (nodesAllFrom index id parent previous drafts).map Node.id = List.range' id (sizeAll drafts)
  | [] => rfl
  | draft :: drafts => by
    rw [nodesAllFrom, List.map_append,
      map_id_nodesFrom id parent previous (if drafts.isEmpty then none else some (id + draft.size))
        draft,
      map_id_nodesAllFrom (id + draft.size) parent (some id) drafts, List.range'_append_1, sizeAll]

end

/-- `0 < draft.size`. -/
theorem size_pos (draft : Draft) : 0 < draft.size := by
  cases draft
  rw [size]
  omega

/-- The numbers of a list lie between the first one and the end of its last draft. -/
theorem bounds_of_mem_ids (h : i ∈ ids id drafts) : id ≤ i ∧ i < id + sizeAll drafts := by
  induction drafts generalizing id with
  | nil => cases h
  | cons draft drafts ih =>
    have := draft.size_pos
    rw [sizeAll]
    rcases List.mem_cons.mp h with rfl | h
    · omega
    · have := ih h
      omega

/-- The numbers of drafts are distinct. -/
theorem nodup_ids (id : Nat) (drafts : List Draft) : (ids id drafts).Nodup := by
  induction drafts generalizing id with
  | nil => exact List.nodup_nil
  | cons draft drafts ih =>
    refine List.nodup_cons.mpr ⟨fun h => ?_, ih _⟩
    have := (bounds_of_mem_ids h).1
    have := draft.size_pos
    omega

/-- The first draft has the first number. -/
theorem head?_ids (id : Nat) (drafts : List Draft) :
    (ids id drafts).head? = if drafts.isEmpty then none else some id := by
  cases drafts <;> rfl

/-! ## Rows -/

/-- **A row of drafts** among `all` drafts and those that belong to them: `drafts` are the rest of some
list, the first of them has the number `id`, all of them stand in `parent`, and `previous` comes before
them. -/
inductive Row (all : List Draft) : Nat → Option Nat → Option Nat → List Draft → Prop where
  /-- The outermost drafts. -/
  | outermost : Row all 0 none none all
  /-- What comes after the first draft of a row. -/
  | tail {id : Nat} {parent previous : Option Nat} {draft : Draft} {drafts : List Draft} :
      Row all id parent previous (draft :: drafts) → Row all (id + draft.size) parent (some id) drafts
  /-- The attributes of the first draft of a row. -/
  | attributes {id : Nat} {parent previous : Option Nat} {part : Part} {span : Span} {path : Path}
      {attributes content drafts : List Draft} :
      Row all id parent previous (.node part span path attributes content :: drafts) →
        Row all (id + 1) (some id) none attributes
  /-- The content of the first draft of a row. -/
  | content {id : Nat} {parent previous : Option Nat} {part : Part} {span : Span} {path : Path}
      {attributes content drafts : List Draft} :
      Row all id parent previous (.node part span path attributes content :: drafts) →
        Row all (id + 1 + sizeAll attributes) (some id) none content

/-- `(nodesFrom index id parent previous next draft).length = draft.size`. -/
theorem length_nodesFrom (id : Nat) (parent previous next : Option Nat) (draft : Draft) :
    (nodesFrom index id parent previous next draft).length = draft.size := by
  rw [← List.length_map Node.id, map_id_nodesFrom, List.length_range']

/-- `(nodesAllFrom index id parent previous drafts).length = sizeAll drafts`. -/
theorem length_nodesAllFrom (id : Nat) (parent previous : Option Nat) (drafts : List Draft) :
    (nodesAllFrom index id parent previous drafts).length = sizeAll drafts := by
  rw [← List.length_map Node.id, map_id_nodesAllFrom, List.length_range']

/-- The nodes of a draft are its own, those of its attributes and those of its content. -/
theorem nodesFrom_node (id : Nat) (parent previous next : Option Nat) (part : Part) (span : Span)
    (path : Path) (attributes content : List Draft) :
    nodesFrom index id parent previous next (.node part span path attributes content) =
      ownNode index id parent previous next (.node part span path attributes content) ::
        (nodesAllFrom index (id + 1) (some id) none attributes ++
          nodesAllFrom index (id + 1 + sizeAll attributes) (some id) none content) :=
  rfl

/-- The link from a draft to the next one of its list. -/
theorem nodesAllFrom_cons (id : Nat) (parent previous : Option Nat) (draft : Draft)
    (drafts : List Draft) : nodesAllFrom index id parent previous (draft :: drafts) =
      nodesFrom index id parent previous (ids (id + draft.size) drafts).head? draft ++
        nodesAllFrom index (id + draft.size) parent (some id) drafts := by
  rw [nodesAllFrom, head?_ids]

namespace Row

/-- The node around a row has a smaller number than the row. -/
theorem parent_lt (h : Row all id parent previous drafts) : ∀ around ∈ parent, around < id := by
  induction h with
  | outermost => simp
  | tail _ ih => exact fun around haround => Nat.lt_add_right _ (ih around haround)
  | attributes =>
    rintro around ⟨⟩
    omega
  | content =>
    rintro around ⟨⟩
    omega

/-- **The nodes of a row are consecutive**, and they start at its number. -/
theorem standsAt (index : Index) (h : Row all id parent previous drafts) :
    StandsAt (nodesAllFrom index 0 none none all) id
      (nodesAllFrom index id parent previous drafts) := by
  induction h with
  | outermost => exact ⟨[], [], by simp, rfl⟩
  | tail _ ih =>
    -- the rest of a list comes after all nodes of its first draft
    rw [nodesAllFrom_cons] at ih
    simpa only [length_nodesFrom] using ih.right
  | attributes _ ih =>
    rw [nodesAllFrom_cons, nodesFrom_node] at ih
    exact ih.left.tail.left
  | content _ ih =>
    rw [nodesAllFrom_cons, nodesFrom_node] at ih
    simpa only [length_nodesAllFrom] using ih.left.tail.right

/-- **The first node of a row is found by its number.** -/
theorem getElem?_eq (h : Row all id parent previous (draft :: drafts)) :
    (nodesAllFrom index 0 none none all)[id]? =
      some (ownNode index id parent previous (ids (id + draft.size) drafts).head? draft) := by
  have hstands := h.standsAt index
  rw [nodesAllFrom_cons] at hstands
  cases draft
  exact hstands.left.getElem?_eq

/-- Every draft of a row is the first one of a row. -/
theorem exists_of_mem (h : Row all id parent previous drafts) (hdraft : draft ∈ drafts) :
    ∃ id' previous' drafts', Row all id' parent previous' (draft :: drafts') := by
  induction drafts generalizing id previous with
  | nil => cases hdraft
  | cons other drafts ih =>
    rcases List.mem_cons.mp hdraft with rfl | hdraft
    · exact ⟨id, previous, drafts, h⟩
    · exact ih h.tail hdraft

/-- **Drafts to which nothing belongs have consecutive numbers.** -/
theorem exists_of_leaves {α : Type} {items : List α} {draftOf : α → Draft} {k : Nat} {item : α}
    (hsize : ∀ item, (draftOf item).size = 1)
    (h : Row all id parent previous (items.map draftOf)) (hitem : items[k]? = some item) :
    ∃ previous' drafts', Row all (id + k) parent previous' (draftOf item :: drafts') := by
  induction items generalizing id previous k with
  | nil => cases hitem
  | cons other items ih =>
    cases k with
    | zero =>
      cases hitem
      exact ⟨previous, _, h⟩
    | succ k =>
      -- the draft before it takes one number
      obtain ⟨previous', drafts', row⟩ := ih h.tail hitem
      rw [hsize, Nat.add_assoc, Nat.add_comm 1 k] at row
      exact ⟨previous', drafts', row⟩

end Row

mutual

/-- Every node of the first draft of a row is the first node of a row. -/
theorem exists_row_of_mem_nodesFrom {n : Node} (id : Nat) (parent previous : Option Nat)
    (drafts : List Draft) : (draft : Draft) → Row all id parent previous (draft :: drafts) →
      n ∈ nodesFrom index id parent previous (ids (id + draft.size) drafts).head? draft →
      ∃ id' parent' previous' draft' drafts', Row all id' parent' previous' (draft' :: drafts') ∧
        n = ownNode index id' parent' previous' (ids (id' + draft'.size) drafts').head? draft'
  | .node part span path attributes content => by
    intro row hn
    rw [nodesFrom_node] at hn
    rcases List.mem_cons.mp hn with rfl | hn
    · exact ⟨_, _, _, _, _, row, rfl⟩
    · rcases List.mem_append.mp hn with hn | hn
      · exact exists_row_of_mem_nodesAllFrom (id + 1) (some id) none attributes row.attributes hn
      · exact exists_row_of_mem_nodesAllFrom (id + 1 + sizeAll attributes) (some id) none content
          row.content hn

/-- **Every node of a row is the first node of a row.** -/
theorem exists_row_of_mem_nodesAllFrom {n : Node} (id : Nat) (parent previous : Option Nat) :
    (drafts : List Draft) → Row all id parent previous drafts →
      n ∈ nodesAllFrom index id parent previous drafts →
      ∃ id' parent' previous' draft' drafts', Row all id' parent' previous' (draft' :: drafts') ∧
        n = ownNode index id' parent' previous' (ids (id' + draft'.size) drafts').head? draft'
  | [] => by
    intro _ hn
    cases hn
  | draft :: drafts => by
    intro row hn
    rw [nodesAllFrom_cons] at hn
    rcases List.mem_append.mp hn with hn | hn
    · exact exists_row_of_mem_nodesFrom id parent previous drafts draft row hn
    · exact exists_row_of_mem_nodesAllFrom (id + draft.size) parent (some id) drafts row.tail hn

end

end Draft

end ProjectLens
