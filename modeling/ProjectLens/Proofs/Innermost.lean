import ProjectLens.Proofs.Laminar
import ProjectLens.Proofs.Lookup
import ProjectLens.Proofs.Places

/-! # The node at a position

The lookup of a model compares closed ranges, so a position where one node ends and another one starts
lies in both. Since the nodes are nested and none of them is empty, the node that starts last is the
smallest one around an offset, except at an offset where nodes end and none starts.

* `Model.Sited`: the nodes of a model are nested, and their ranges are those of their spans;
* `Model.StartsLast`, `Model.Sited.find_lookup`: what the lookup finds;
* `Snapshot.nodeAt_smallest`: the node at an offset;
* `Snapshot.inspect_eq_nodeAt`: moving on to the next node never changes what is at a position. -/

namespace ProjectLens

/-! ## Entries -/

namespace Lookup

variable {α : Type} {p q : Position}

/-- The entries of a lookup are the ranges it was made of. -/
theorem entries_perm (ranges : List (Range × α)) :
    ((ofOneBased ranges).entries.map fun e => (e.range, e.value)).Perm ranges := by
  have hsorted : (ofOneBased ranges).entries.map (fun e => (e.range, e.value)) =
      ranges.mergeSort fun a b => storedBefore a.1 b.1 := map_numbered _
  rw [hsorted]
  exact List.mergeSort_perm _ _

/-- What is found does not depend on the basis of a position. -/
theorem find_eq (lookup : Lookup α) (hp : p.toOneBased = .ok q) :
    lookup.find p = .ok ((lookup.roots.find? q).map Entry.value) := by
  rw [find, findEntry, hp]
  rfl

end Lookup

/-! ## Nodes around an offset -/

namespace Model

variable {index : Index} {model : Model} {n m : Node} {offset : Nat} {p q : Position}
  {found : Option Node}

/-- **The nodes of a model have their places in a text**: they are numbered and nested, and stand
between its ends. -/
structure Sited (index : Index) (model : Model) : Prop where
  /-- The lines of the text are its own. -/
  lined : index.Lined
  /-- The nodes know their numbers and their ranges. -/
  numbered : model.Numbered index
  /-- They are nested. -/
  nested : Nested model none 0 index.length model.nodes.toList

/-- **The node that starts last** among those whose ranges contain a position, or none if there is no
such node. -/
def StartsLast (model : Model) (p : Position) : Option Node → Prop
  | none => ∀ n ∈ model.nodes.toList, n.range.contains p = false
  | some n => n ∈ model.nodes.toList ∧ n.range.contains p = true ∧
      ∀ other ∈ model.nodes.toList, other.range.contains p = true →
        other = n ∨ other.span.start < n.span.start

/-- **The deepest node** among those that cover the character at an offset, or none if there is no such
node. -/
def Deepest (model : Model) (offset : Nat) : Option Node → Prop
  | none => ∀ n ∈ model.nodes.toList, n.span.contains offset = false
  | some n => n ∈ model.nodes.toList ∧ n.span.contains offset = true ∧
      ∀ other ∈ model.nodes.toList, other.span.contains offset = true →
        other = n ∨ model.depth other.id < model.depth n.id

/-- The node that starts last among those that cover the character at an offset or end there. -/
def LastTouching (model : Model) (offset : Nat) (n : Node) : Prop :=
  n ∈ model.nodes.toList ∧ n.span.touches offset = true ∧
    ∀ other ∈ model.nodes.toList, other.span.touches offset = true →
      other = n ∨ other.span.start < n.span.start

/-- At an offset nodes end and none starts. -/
def OnlyEnds (model : Model) (offset : Nat) : Prop :=
  (∃ n ∈ model.nodes.toList, n.span.stop = offset) ∧
    ∀ n ∈ model.nodes.toList, n.span.start ≠ offset

namespace Sited

variable (h : model.Sited index)
include h

/-- `model.get? n.id = some n` for a node of the model. -/
theorem get?_id (hn : n ∈ model.nodes.toList) : model.get? n.id = some n := by
  obtain ⟨i, hi⟩ := List.mem_iff_getElem?.mp hn
  rw [← get?_eq] at hi
  rw [h.numbered.id_eq hi]
  exact hi

/-- `n.range = index.spanToRange n.span`. -/
theorem range_eq (hn : n ∈ model.nodes.toList) : n.range = index.spanToRange n.span :=
  h.numbered.range_eq (h.get?_id hn)

/-- `n.span.start < n.span.stop`: no node is empty. -/
theorem filled (hn : n ∈ model.nodes.toList) : n.span.start < n.span.stop :=
  (h.nested.inside n hn).2.1

/-- `n.span.stop ≤ index.length`. -/
theorem stop_le (hn : n ∈ model.nodes.toList) : n.span.stop ≤ index.length :=
  (h.nested.inside n hn).2.2

/-- The range of a node contains the position of an offset when the node covers the character there or
ends there. -/
theorem contains_iff (hn : n ∈ model.nodes.toList) (hoffset : offset ≤ index.length) :
    n.range.contains (index.positionAt offset) = true ↔ n.span.touches offset = true := by
  rw [h.range_eq hn, h.lined.contains_spanToRange (Nat.le_of_lt (h.filled hn)) (h.stop_le hn) hoffset,
    Span.touches, decide_eq_true_eq]

/-- Of two nodes one stands before the other. -/
theorem eq_or_before (hn : n ∈ model.nodes.toList) (hm : m ∈ model.nodes.toList) :
    n = m ∨ model.Before n m ∨ model.Before m n := by
  have hgetn := h.get?_id hn
  have hgetm := h.get?_id hm
  rcases Nat.lt_trichotomy n.id m.id with hid | hid | hid
  · exact .inr (.inl (h.nested.before_of_lt hgetn hgetm hid))
  · -- nodes with one number are one node
    rw [hid, hgetm] at hgetn
    exact .inl (Option.some.inj hgetn).symm
  · exact .inr (.inr (h.nested.before_of_lt hgetm hgetn hid))

/-- The one that starts earlier stands before the other. -/
theorem before_of_start_lt (hn : n ∈ model.nodes.toList) (hm : m ∈ model.nodes.toList)
    (hlt : n.span.start < m.span.start) : model.Before n m := by
  rcases h.eq_or_before hn hm with rfl | hbefore | ⟨hstart, -⟩
  · omega
  · exact hbefore
  · omega

/-- No two nodes start together. -/
theorem eq_of_start_eq (hn : n ∈ model.nodes.toList) (hm : m ∈ model.nodes.toList)
    (heq : n.span.start = m.span.start) : n = m := by
  rcases h.eq_or_before hn hm with rfl | ⟨hstart, -⟩ | ⟨hstart, -⟩
  · rfl
  · omega
  · omega

/-- A node whose range starts no later than that of another one is that node, or starts earlier. -/
theorem eq_or_start_lt (hn : n ∈ model.nodes.toList) (hm : m ∈ model.nodes.toList)
    (hle : m.range.start ≤ n.range.start) : m = n ∨ m.span.start < n.span.start := by
  have hmlt := h.filled hm
  have hnlt := h.filled hn
  have hmstop := h.stop_le hm
  have hnstop := h.stop_le hn
  rw [h.range_eq hm, h.range_eq hn] at hle
  have hstart : m.span.start ≤ n.span.start :=
    (h.lined.positionAt_le_iff (by omega) (by omega)).mp hle
  rcases Nat.lt_or_eq_of_le hstart with hlt | heq
  · exact .inr hlt
  · exact .inl (h.eq_of_start_eq hm hn heq)

/-! ## What the lookup finds -/

/-- **The lookup finds the node that starts last** among those whose ranges contain a position. -/
theorem find_lookup (hp : p.toOneBased = .ok q) :
    ∃ found, model.lookup.find p = .ok (found.map Node.id) ∧ model.StartsLast q found := by
  have hanswer := Lookup.find?_answers (model.nodes.toList.map fun n => (n.range, n.id)) q
  have hperm := Lookup.entries_perm (model.nodes.toList.map fun n => (n.range, n.id))
  -- every node has an entry
  have entry {n : Node} (hn : n ∈ model.nodes.toList) :
      ∃ e ∈ model.lookup.entries, e.range = n.range ∧ e.value = n.id := by
    have hmem := hperm.mem_iff.mpr (List.mem_map_of_mem hn)
    obtain ⟨e, he, heq⟩ := List.mem_map.mp hmem
    obtain ⟨hrange, hid⟩ := Prod.mk.inj heq
    exact ⟨e, he, hrange, hid⟩
  rw [Lookup.find_eq _ hp]
  change Lookup.Answers q model.lookup.entries (model.lookup.roots.find? q) at hanswer
  cases hfind : model.lookup.roots.find? q with
  | none =>
    refine ⟨none, rfl, fun n hn => ?_⟩
    rw [hfind] at hanswer
    obtain ⟨e, he, hrange, -⟩ := entry hn
    rw [← hrange]
    exact hanswer e he
  | some e =>
    rw [hfind] at hanswer
    obtain ⟨he, hcontains, hlast⟩ := hanswer
    have hmem := hperm.mem_iff.mp (List.mem_map_of_mem he)
    obtain ⟨n, hn, heq⟩ := List.mem_map.mp hmem
    obtain ⟨hrange, hid⟩ := Prod.mk.inj heq
    refine ⟨some n, by rw [Option.map_some, Option.map_some, hid], hn, ?_, fun m hm hmq => ?_⟩
    · rw [hrange]
      exact hcontains
    · obtain ⟨e', he', hrange', hid'⟩ := entry hm
      rw [← hrange'] at hmq
      apply h.eq_or_start_lt hn hm
      rw [hrange, ← hrange']
      -- a less specific entry starts no later
      rcases hlast e' he' hmq with hsame | hlt | ⟨hstart, -⟩
      · rw [hsame]
        exact Std.le_refl _
      · exact Std.le_of_lt hlt
      · rw [hstart]
        exact Std.le_refl _

/-- Where no node only ends, **the node that starts last is the deepest one**: what starts earlier and
goes on is around it. -/
theorem deepest_of_startsLast (hoffset : offset ≤ index.length)
    (hlast : model.StartsLast (index.positionAt offset) found) (hends : ¬ model.OnlyEnds offset) :
    model.Deepest offset found := by
  have touches {n : Node} (hn : n ∈ model.nodes.toList) (hcontains : n.span.contains offset = true) :
      n.range.contains (index.positionAt offset) = true := by
    rw [h.contains_iff hn hoffset]
    simp only [Span.contains, Span.touches, decide_eq_true_eq] at hcontains ⊢
    omega
  cases found with
  | none =>
    intro n hn
    by_contra hcontains
    have htouches := touches hn (by simpa using hcontains)
    rw [hlast n hn] at htouches
    cases htouches
  | some n =>
    obtain ⟨hn, hcontains, hmax⟩ := hlast
    rw [h.contains_iff hn hoffset, Span.touches, decide_eq_true_eq] at hcontains
    have hfilled := h.filled hn
    -- if the node ended here, another one would start here, and so start later
    have hgoes : offset < n.span.stop := by
      by_contra hstop
      apply hends
      refine ⟨⟨n, hn, by omega⟩, fun m hm hstart => ?_⟩
      have hmfilled := h.filled hm
      have hmtouches : m.range.contains (index.positionAt offset) = true := by
        rw [h.contains_iff hm hoffset, Span.touches, decide_eq_true_eq]
        omega
      rcases hmax m hm hmtouches with rfl | hlt
      · omega
      · omega
    refine ⟨hn, ?_, fun m hm hmcontains => ?_⟩
    · rw [Span.contains, decide_eq_true_eq]
      omega
    · rcases hmax m hm (touches hm hmcontains) with rfl | hlt
      · exact .inl rfl
      · -- both cover the character, so the one that starts earlier is around the other
        right
        rw [Span.contains, decide_eq_true_eq] at hmcontains
        obtain ⟨-, hapart | ⟨-, haround⟩⟩ := h.before_of_start_lt hm hn hlt
        · omega
        · exact depth_lt haround

/-- Where nodes only end, the node that starts last is one that covers the character or ends there. -/
theorem lastTouching_of_startsLast (hoffset : offset ≤ index.length)
    (hlast : model.StartsLast (index.positionAt offset) found) (hends : model.OnlyEnds offset) :
    ∃ n, found = some n ∧ model.LastTouching offset n := by
  obtain ⟨⟨ending, hending, hstop⟩, -⟩ := hends
  have hfilled := h.filled hending
  have htouches : ending.range.contains (index.positionAt offset) = true := by
    rw [h.contains_iff hending hoffset, Span.touches, decide_eq_true_eq]
    omega
  cases found with
  | none =>
    rw [hlast ending hending] at htouches
    cases htouches
  | some n =>
    obtain ⟨hn, hcontains, hmax⟩ := hlast
    refine ⟨n, rfl, hn, (h.contains_iff hn hoffset).mp hcontains, fun m hm hmtouches => ?_⟩
    exact hmax m hm ((h.contains_iff hm hoffset).mpr hmtouches)

/-! ## Moving on to the next node -/

/-- **The node that starts last is never moved on from**: a next node that started where it ends would
start later, and its range would contain the position as well. -/
theorem settle_eq (hlast : model.StartsLast q (some n)) : model.settle q n = n := by
  obtain ⟨hn, -, hmax⟩ := hlast
  rw [settle]
  by_cases hstop : q = n.range.stop
  · rw [if_pos hstop]
    cases hnext : model.next? n with
    | none => rfl
    | some next =>
      refine if_neg fun hstart => ?_
      -- the next node is one of the nodes
      have hmem : next ∈ model.nodes.toList := by
        rw [next?, Option.bind_eq_some_iff] at hnext
        obtain ⟨i, -, hget⟩ := hnext
        rw [get?_eq] at hget
        exact List.mem_of_getElem? hget
      have hfilled := h.filled hmem
      have hnfilled := h.filled hn
      have hnextStop := h.stop_le hmem
      have hnStop := h.stop_le hn
      -- it starts where the node ends
      have hoffset : next.span.start = n.span.stop := by
        have hplaces : index.positionAt next.span.start = index.positionAt n.span.stop := by
          rw [hstop, h.range_eq hmem, h.range_eq hn, Index.spanToRange, Index.spanToRange,
            Nat.max_eq_right (Nat.le_of_lt hnfilled)] at hstart
          exact hstart
        exact h.lined.positionAt_inj (by omega) (by omega) hplaces
      have hcontains : next.range.contains q = true := by
        have hq : q = index.positionAt next.span.start := by
          rw [← hstart, h.range_eq hmem, Index.spanToRange]
        rw [hq, h.contains_iff hmem (by omega), Span.touches, decide_eq_true_eq]
        omega
      rcases hmax next hmem hcontains with rfl | hlt
      · omega
      · omega
  · rw [if_neg hstop]

end Sited

end Model

/-! ## Snapshots -/

namespace Snapshot

variable {text : String} {offset : Nat} {p q : Position} {spot : Spot}

/-- The model of a text is sited in it. -/
theorem sited_ofText (text : String) : (ofText text).model.Sited (ofText text).index where
  lined := Index.lined_ofText text
  numbered := Model.numbered_ofDocument _ _
  nested := Model.nested_ofDocument (Markup.kept_readDocument _)

/-- **What is at a position** in either basis: `nodeAt` gives the node that starts last, and `inspect`
the same node if the position is one of the text's. -/
theorem exists_at (text : String) (hp : p.toOneBased = .ok q) :
    ∃ found, (ofText text).nodeAt p = .ok found ∧ (ofText text).model.StartsLast q found ∧
      (ofText text).inspect p = .ok (match (ofText text).index.toOffset q, found with
        | .ok offset, some node => some ⟨q, offset, node, classify node offset⟩
        | _, _ => none) := by
  have sited := sited_ofText text
  obtain ⟨found, hfind, hlast⟩ := sited.find_lookup hp
  -- what was found is a node of the model
  have hget : (found.map Node.id).bind (ofText text).model.get? = found := by
    cases found with
    | none => rfl
    | some n => exact sited.get?_id hlast.1
  have hfindq : (ofText text).model.lookup.find q = .ok (found.map Node.id) := by
    rw [Lookup.find_eq _ hp] at hfind
    rw [Lookup.find_eq _ (Position.toOneBased_idem hp)]
    exact hfind
  refine ⟨found, ?_, hlast, ?_⟩
  · have hnode : (ofText text).nodeAt p = ((ofText text).model.lookup.find p).map
        fun id => id.bind (ofText text).model.get? := rfl
    rw [hnode, hfind]
    exact congrArg Except.ok hget
  · show (ofText text).model.inspect (ofText text).index (ofText text).model.lookup p = _
    rw [Model.inspect, hp]
    show (do
      let found ← (ofText text).model.lookup.find q
      _ : Except PositionError (Option Spot)) = _
    rw [hfindq]
    show (match (ofText text).index.toOffset q, (found.map Node.id).bind (ofText text).model.get? with
      | .ok offset, some node => _
      | _, _ => _) = _
    rw [hget]
    cases (ofText text).index.toOffset q with
    | error => rfl
    | ok offset =>
      cases found with
      | none => rfl
      | some n =>
        show Except.ok _ = _
        rw [sited.settle_eq hlast]

/-- **From a cursor to the smallest node.** At every offset, its end included, there is a position and
an answer. Unless nodes end at the offset and none starts there, the answer is the deepest node that
covers the character at the offset, or that there is none. Else it is the node that starts last among
those that cover the character or end there. -/
theorem nodeAt_smallest (h : offset ≤ (ofText text).index.length) :
    ∃ p found, (ofText text).index.toPosition offset = .ok p ∧ (ofText text).nodeAt p = .ok found ∧
      (¬ (ofText text).model.OnlyEnds offset → (ofText text).model.Deepest offset found) ∧
      ((ofText text).model.OnlyEnds offset →
        ∃ n, found = some n ∧ (ofText text).model.LastTouching offset n) := by
  have sited := sited_ofText text
  have hposition : (ofText text).index.toPosition offset =
      .ok ((ofText text).index.positionAt offset) := if_pos h
  -- positions of offsets are counted from one
  obtain ⟨found, hnode, hlast, -⟩ := exists_at text
    (show ((ofText text).index.positionAt offset).toOneBased = .ok _ from rfl)
  refine ⟨_, found, hposition, hnode, fun hends => ?_, fun hends => ?_⟩
  · exact sited.deepest_of_startsLast h hlast hends
  · exact sited.lastTouching_of_startsLast h hlast hends

/-- Where one element ends and the next one starts, the answer is the deepest node there. -/
theorem nodeAt_smallest_neighbours :
    7 ≤ (ofText "<a><b/><c/></a>").index.length ∧
      ∃ found, (ofText "<a><b/><c/></a>").nodeAt ⟨1, 8, .one⟩ = .ok found ∧
        (ofText "<a><b/><c/></a>").model.Deepest 7 found := by
  have hlength : 7 ≤ (ofText "<a><b/><c/></a>").index.length := by decide
  obtain ⟨p, found, hposition, hnode, hdeepest, -⟩ := nodeAt_smallest hlength
  obtain rfl : p = ⟨1, 8, .one⟩ := Except.ok.inj (hposition.symm.trans rfl)
  refine ⟨hlength, found, hnode, hdeepest fun hends => ?_⟩
  -- the second inner element starts at the offset
  have hstarts : 7 ∈ (ofText "<a><b/><c/></a>").model.nodes.toList.map (·.span.start) := by
    decide +kernel
  obtain ⟨n, hn, hstart⟩ := List.mem_map.mp hstarts
  exact hends.2 n hn hstart

/-- **Both answers about a position agree.** In either basis, what is at a position is known just when
the position is one of the text's and a node stands there, and then it is that node. Where a node ends,
moving on to the next one changes nothing. -/
theorem inspect_eq_nodeAt (hp : p.toOneBased = .ok q) :
    ∃ found place, (ofText text).nodeAt p = .ok found ∧ (ofText text).inspect p = .ok place ∧
      (place.isSome = true ↔
        (∃ offset, (ofText text).index.toOffset q = .ok offset) ∧ found.isSome = true) ∧
      (∀ spot ∈ place, found = some spot.node) ∧
      ∀ n ∈ found, (ofText text).model.settle q n = n := by
  -- both ask the same search, and only one of them asks for an offset too
  obtain ⟨found, hnode, hlast, hinspect⟩ := exists_at text hp
  refine ⟨found, _, hnode, hinspect, ?_, ?_, ?_⟩
  · cases (ofText text).index.toOffset q with
    | error => simp
    | ok offset => cases found <;> simp
  · intro spot hspot
    cases hoffset : (ofText text).index.toOffset q with
    | error =>
      rw [hoffset] at hspot
      cases hspot
    | ok offset =>
      rw [hoffset] at hspot
      cases found with
      | none => cases hspot
      | some n =>
        cases hspot
        rfl
  · intro n hn
    cases hn
    exact (sited_ofText text).settle_eq hlast

/-- A position counted from zero, where one element ends and the next one starts. -/
theorem inspect_eq_nodeAt_neighbours :
    (⟨0, 7, .zero⟩ : Position).toOneBased = .ok ⟨1, 8, .one⟩ ∧
      ∃ found place, (ofText "<a><b/><c/></a>").nodeAt ⟨0, 7, .zero⟩ = .ok found ∧
        (ofText "<a><b/><c/></a>").inspect ⟨0, 7, .zero⟩ = .ok place ∧
        (place.isSome = true ↔
          (∃ offset, (ofText "<a><b/><c/></a>").index.toOffset ⟨1, 8, .one⟩ = .ok offset) ∧
            found.isSome = true) ∧
        (∀ spot ∈ place, found = some spot.node) ∧
        ∀ n ∈ found, (ofText "<a><b/><c/></a>").model.settle ⟨1, 8, .one⟩ n = n :=
  ⟨rfl, inspect_eq_nodeAt rfl⟩

end Snapshot

end ProjectLens
