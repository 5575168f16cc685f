import Mathlib.Logic.Relation
import ProjectLens.Proofs.OnePass
import ProjectLens.Proofs.RangeChanges
import ProjectLens.Proofs.Selection

/-! # What a forest in rows represents

The rows that a lookup is laid out in hold each entry once, under an entry that contains it, and keep
the stored order: along a row, and from an entry to what is below it. So all that is below an entry is
stored right behind it.

* `Table.Child`, `Table.Below`: the level below an entry, and all that is below it;
* `Table.Represents`: what holds of the rows;
* `Level.child_iff`, `Level.below_iff`: both told on the forest;
* `Lookup.represents_ofEntries`. -/

namespace ProjectLens

namespace Lookup

variable {α : Type}

namespace Table

/-- **An entry is on the level below another one.** -/
def Child (t : Table α) (parent member : Nat) : Prop :=
  ∃ row, t.below[parent]? = some row ∧ member ∈ row.members

/-- **An entry is below another one**, on the level below it or further down. -/
def Below (t : Table α) : Nat → Nat → Prop := Relation.TransGen t.Child

/-- A position is the latest end of some entries. -/
def Latest (t : Table α) (members : List Nat) (stop : Position) : Prop :=
  (∃ member ∈ members, ∃ entry, t.entries[member]? = some entry ∧ entry.1.stop = stop) ∧
    ∀ member ∈ members, ∃ entry, t.entries[member]? = some entry ∧ entry.1.stop ≤ stop

/-- **What holds of the rows of a forest** over ranges that are counted from one. -/
structure Represents (t : Table α) (given : List (Range × α)) : Prop where
  /-- The entries are those given, by start, then longer ones first, then as they were given. -/
  stored : ∃ order : List (Entry α), order.Perm (numbered given) ∧ order.Pairwise Before ∧
    t.entries = order.map fun e => (e.range, e.value)
  /-- Each entry has a level below it. -/
  length_below : t.below.length = t.entries.length
  /-- Each entry is on exactly one level, once. -/
  once : (t.roots.members ++ t.below.flatMap Row.members).Perm (List.range t.entries.length)
  /-- What is on the level below an entry is stored after it and lies in it. -/
  nested : ∀ parent member, t.Child parent member → parent < member ∧
    ∃ outer inner, t.entries[parent]? = some outer ∧ t.entries[member]? = some inner ∧
      outer.1.containsRange inner.1 = true
  /-- Along a level the numbers increase. -/
  increasing : ∀ row ∈ t.roots :: t.below, row.members.Pairwise (· < ·)
  /-- A level has as many reaches as members. -/
  length_reach : ∀ row ∈ t.roots :: t.below, row.reach.length = row.members.length
  /-- Each reach is the latest end among its member and the ones before that. -/
  reach : ∀ row ∈ t.roots :: t.below, ∀ i stop, row.reach[i]? = some stop →
    t.Latest (row.members.take (i + 1)) stop
  /-- All that is below an entry is stored in one block right after it. -/
  block : ∀ parent < t.entries.length, ∃ stop, parent < stop ∧ stop ≤ t.entries.length ∧
    ∀ i, t.Below parent i ↔ parent < i ∧ i < stop

end Table

/-- Entries stand at their numbers. -/
theorem NumberedFrom.getElem? {entries : List (Entry α)} (h : NumberedFrom 0 entries) {e : Entry α}
    (he : e ∈ entries) : entries[e.index]? = some e := by
  obtain ⟨i, hi⟩ := List.mem_iff_getElem?.mp he
  rwa [h i e hi, Nat.zero_add]

/-- Numbers increase. -/
theorem NumberedFrom.pairwise {base : Nat} {entries : List (Entry α)}
    (h : NumberedFrom base entries) : entries.Pairwise fun a b => a.index < b.index := by
  rw [List.pairwise_iff_getElem]
  intro i j hi hj hij
  rw [h i _ (List.getElem?_eq_getElem hi), h j _ (List.getElem?_eq_getElem hj)]
  omega

/-- The numbers of entries that are numbered from `0` are `0, 1, …`. -/
theorem NumberedFrom.map_index {entries : List (Entry α)} (h : NumberedFrom 0 entries) :
    entries.map Entry.index = List.range entries.length := by
  apply List.ext_getElem (by simp)
  intro i hi hi'
  rw [List.length_map] at hi
  rw [List.getElem_map, List.getElem_range, h i _ (List.getElem?_eq_getElem hi), Nat.zero_add]

end Lookup

namespace Level

open Lookup

variable {α : Type} {level below : Level α} {entry : Entry α}

/-- The entries of a forest with its rows. -/
def table (level : Level α) : Table α := (Lookup.mk level.toList level).table

/-- The stored entry at a number is that of the level at the number. -/
theorem getElem?_entries_table (level : Level α) (i : Nat) :
    level.table.entries[i]? = level.toList[i]?.map fun e => (e.range, e.value) := List.getElem?_map

/-- `level.table.entries.length = level.toList.length`. -/
theorem length_entries_table (level : Level α) : level.table.entries.length = level.toList.length :=
  List.length_map _

section Numbered

variable (numbered : NumberedFrom 0 level.toList)
include numbered

/-- `level.families[i]? = some (entry, below) → entry.index = i`. -/
theorem index_eq {i : Nat} (h : level.families[i]? = some (entry, below)) : entry.index = i := by
  have hentry : level.toList[i]? = some entry := by
    rw [toList_eq, List.getElem?_map, h]
    rfl
  exact (numbered i entry hentry).trans (Nat.zero_add i)

/-- An entry stands at its number, with the level below it. -/
theorem getElem?_families (h : (entry, below) ∈ level.families) :
    level.families[entry.index]? = some (entry, below) := by
  obtain ⟨i, hi⟩ := List.mem_iff_getElem?.mp h
  rwa [index_eq numbered hi]

/-- An entry has one level below it. -/
theorem families_unique {below' : Level α} {entry' : Entry α} (h : (entry, below) ∈ level.families)
    (h' : (entry', below') ∈ level.families) (hindex : entry.index = entry'.index) :
    entry = entry' ∧ below = below' := by
  have hat := getElem?_families numbered h
  rw [hindex, getElem?_families numbered h'] at hat
  obtain ⟨rfl, rfl⟩ := Prod.mk.inj (Option.some.inj hat)
  exact ⟨rfl, rfl⟩

/-- **The level below an entry, told on the forest.** -/
theorem child_iff {parent member : Nat} : level.table.Child parent member ↔
    ∃ entry below, (entry, below) ∈ level.families ∧ entry.index = parent ∧
      ∃ e ∈ below.siblings, e.index = member := by
  have hrow : level.table.below[parent]? = level.families[parent]?.map fun family => family.2.row :=
    List.getElem?_map
  unfold Table.Child
  rw [hrow]
  constructor
  · rintro ⟨row, hrow, hmember⟩
    obtain ⟨⟨entry, below⟩, hfamily, rfl⟩ := Option.map_eq_some_iff.mp hrow
    exact ⟨entry, below, List.mem_of_getElem? hfamily, index_eq numbered hfamily,
      List.mem_map.mp hmember⟩
  · rintro ⟨entry, below, hfamily, rfl, hmember⟩
    rw [getElem?_families numbered hfamily]
    exact ⟨below.row, rfl, List.mem_map.mpr hmember⟩

/-- What is below an entry is below it in the rows. -/
theorem below_of_siblings {parent : Nat} {part : Level α} (hpart : part.families ⊆ level.families)
    (h : ∀ e ∈ part.siblings, level.table.Below parent e.index) :
    ∀ e ∈ part.toList, level.table.Below parent e.index := by
  induction part with
  | nil => exact fun e he => absurd he List.not_mem_nil
  | snoc earlier last under reach ihe ihb =>
    rw [families, List.append_subset, List.cons_subset] at hpart
    obtain ⟨hearlier, hlast, hunder⟩ := hpart
    have below_last : level.table.Below parent last.index := h last (by simp [siblings])
    intro e he
    rw [toList, List.mem_append, List.mem_cons] at he
    rcases he with he | rfl | he
    · exact ihe hearlier (fun e he => h e (by simp [siblings, he])) e he
    · exact below_last
    · refine ihb hunder (fun e he => ?_) e he
      exact below_last.tail ((child_iff numbered).mpr ⟨last, under, hlast, rfl, e, he, rfl⟩)

/-- **All that is below an entry, told on the forest.** -/
theorem below_iff (h : (entry, below) ∈ level.families) {i : Nat} :
    level.table.Below entry.index i ↔ ∃ e ∈ below.toList, e.index = i := by
  constructor
  · intro hbelow
    -- the entries below one are closed under going down
    induction hbelow with
    | single hchild =>
      obtain ⟨entry', below', h', hindex, e, he, hi⟩ := (child_iff numbered).mp hchild
      obtain ⟨rfl, rfl⟩ := families_unique numbered h' h hindex
      exact ⟨e, below'.siblings_sublist.subset he, hi⟩
    | tail _ hchild ih =>
      obtain ⟨middle, hmiddle, hplace⟩ := ih
      obtain ⟨entry', below', h', hindex, e, he, hi⟩ := (child_iff numbered).mp hchild
      rw [toList_eq] at hmiddle
      obtain ⟨⟨_, inner⟩, hinner, rfl⟩ := List.mem_map.mp hmiddle
      obtain ⟨rfl, rfl⟩ := families_unique numbered h' ((families_sublist h).subset hinner)
        (hindex.trans hplace.symm)
      exact ⟨e, (toList_sublist hinner).subset (below'.siblings_sublist.subset he), hi⟩
  · rintro ⟨e, he, rfl⟩
    refine below_of_siblings numbered (families_sublist h).subset (fun e he => ?_) e he
    exact .single ((child_iff numbered).mpr ⟨entry, below, h, rfl, e, he, rfl⟩)

/-- **What is below an entry is the block of numbers right after its own.** -/
theorem mem_block_iff (h : (entry, below) ∈ level.families) {i : Nat} :
    (∃ e ∈ below.toList, e.index = i) ↔
      entry.index < i ∧ i < entry.index + 1 + below.toList.length := by
  obtain ⟨front, back, hsplit⟩ := exists_split h
  have hlist : level.toList = front.map Prod.fst ++ entry :: (below.toList ++ back.map Prod.fst) := by
    rw [toList_eq, hsplit, toList_eq below]
    simp
  have hentry : entry.index = front.length := by
    have hat : level.toList[front.length]? = some entry := by
      rw [hlist, List.getElem?_append_right (by simp)]
      simp
    rw [numbered _ _ hat, Nat.zero_add]
  -- what is below follows its parent in the list, so its numbers follow too
  have hat : ∀ j e, below.toList[j]? = some e → e.index = entry.index + 1 + j := by
    intro j e hj
    have hplace : level.toList[front.length + (1 + j)]? = some e := by
      have hlt := (List.getElem?_eq_some_iff.mp hj).1
      rw [hlist, List.getElem?_append_right (by simp), List.length_map, Nat.add_sub_cancel_left,
        Nat.add_comm 1 j, List.getElem?_cons_succ, List.getElem?_append_left hlt, hj]
    have := numbered _ _ hplace
    omega
  constructor
  · rintro ⟨e, he, rfl⟩
    obtain ⟨j, hj⟩ := List.mem_iff_getElem?.mp he
    have hlt := (List.getElem?_eq_some_iff.mp hj).1
    have := hat j e hj
    omega
  · rintro ⟨hlt, hle⟩
    have hj : i - (entry.index + 1) < below.toList.length := by omega
    refine ⟨below.toList[i - (entry.index + 1)], List.getElem_mem hj, ?_⟩
    have := hat _ _ (List.getElem?_eq_getElem hj)
    omega

/-- The members of a row are entries. -/
theorem latest_table {part : Level α} (hpart : part.toList.Sublist level.toList)
    (reaching : part.Reaching) {i : Nat} {stop : Position} (hstop : part.reaches[i]? = some stop) :
    level.table.Latest (part.row.members.take (i + 1)) stop := by
  have hat : ∀ e ∈ part.siblings.take (i + 1), level.table.entries[e.index]? = some (e.range, e.value) := by
    intro e he
    have hmem := hpart.subset (part.siblings_sublist.subset (List.mem_of_mem_take he))
    rw [getElem?_entries_table, numbered.getElem? hmem]
    rfl
  obtain ⟨⟨e, he, hend⟩, hmost⟩ := reaching.latest_take hstop
  have hmembers : part.row.members.take (i + 1) = (part.siblings.take (i + 1)).map Entry.index :=
    List.map_take.symm
  rw [hmembers]
  refine ⟨⟨e.index, List.mem_map_of_mem he, _, hat e he, hend⟩, fun member hmember => ?_⟩
  obtain ⟨other, hother, rfl⟩ := List.mem_map.mp hmember
  exact ⟨_, hat other hother, hmost other hother⟩

omit numbered in
/-- A row is that of the forest or of the level below one of its entries. -/
theorem mem_rows {row : Row} (h : row ∈ level.table.roots :: level.table.below)
    (reaching : level.Reaching) :
    ∃ part : Level α, row = part.row ∧ part.toList.Sublist level.toList ∧ part.Reaching := by
  rcases List.mem_cons.mp h with rfl | h
  · exact ⟨level, rfl, List.Sublist.refl _, reaching⟩
  · obtain ⟨⟨entry, below⟩, hfamily, rfl⟩ := List.mem_map.mp h
    exact ⟨below, rfl, toList_sublist hfamily, reaching.family hfamily⟩

/-- **The rows of a forest**, where every entry contains what is below it and every reach is right. -/
theorem represents {given : List (Range × α)} (sound : level.Sound) (reaching : level.Reaching)
    (stored : ∃ order : List (Entry α), order.Perm (Lookup.numbered given) ∧ order.Pairwise Before ∧
      level.table.entries = order.map fun e => (e.range, e.value)) :
    level.table.Represents given := by
  constructor
  case stored => exact stored
  case length_below => exact (length_rowsBelow level).trans (length_entries_table level).symm
  case once =>
    rw [List.perm_iff_count, length_entries_table, ← numbered.map_index]
    intro number
    rw [List.count_append]
    exact count_rows level number
  case nested =>
    intro parent member hchild
    obtain ⟨entry, below, hfamily, rfl, e, he, rfl⟩ := (child_iff numbered).mp hchild
    have hbelow := below.siblings_sublist.subset he
    have hentry : entry ∈ level.toList := by
      rw [toList_eq]
      exact List.mem_map_of_mem hfamily
    -- a member of a row stands in the block of numbers of its parent
    have hblock := (mem_block_iff numbered hfamily).mp ⟨e, hbelow, rfl⟩
    refine ⟨hblock.1, (entry.range, entry.value), (e.range, e.value), ?_, ?_, ?_⟩
    · rw [getElem?_entries_table, numbered.getElem? hentry]
      rfl
    · rw [getElem?_entries_table, numbered.getElem? ((toList_sublist hfamily).subset hbelow)]
      rfl
    · exact sound.nested hfamily hbelow
  case increasing =>
    intro row hrow
    obtain ⟨part, rfl, hpart, -⟩ := mem_rows hrow reaching
    exact List.pairwise_map.mpr (numbered.pairwise.sublist (part.siblings_sublist.trans hpart))
  case length_reach =>
    intro row hrow
    obtain ⟨part, rfl, -, -⟩ := mem_rows hrow reaching
    exact (length_reaches part).trans (List.length_map _).symm
  case reach =>
    intro row hrow i stop hstop
    obtain ⟨part, rfl, hpart, hreaching⟩ := mem_rows hrow reaching
    exact latest_table numbered hpart hreaching hstop
  case block =>
    intro parent hparent
    rw [length_entries_table] at hparent ⊢
    obtain ⟨⟨entry, below⟩, hfamily⟩ : ∃ family, level.families[parent]? = some family :=
      ⟨_, List.getElem?_eq_getElem (length_families level ▸ hparent)⟩
    obtain rfl := index_eq numbered hfamily
    have hblock := fun i => mem_block_iff numbered (List.mem_of_getElem? hfamily) (i := i)
    refine ⟨entry.index + 1 + below.toList.length, by omega, ?_, fun i => ?_⟩
    · -- the last number of the block is that of an entry
      rcases Nat.eq_zero_or_pos below.toList.length with hzero | hpos
      · omega
      · obtain ⟨e, he, hlast⟩ := (hblock (entry.index + below.toList.length)).mpr (by omega)
        have hmem := (toList_sublist (List.mem_of_getElem? hfamily)).subset he
        have hlt := (List.getElem?_eq_some_iff.mp (numbered.getElem? hmem)).1
        omega
    · rw [below_iff numbered (List.mem_of_getElem? hfamily), hblock]

end Numbered

end Level

namespace Lookup

variable {α : Type} {ranges recounted : List (Range × α)}

/-- Entries are numbered as they are stored. -/
theorem numberedFrom_entries (ranges : List (Range × α)) :
    NumberedFrom 0 (ofOneBased ranges).entries := by
  intro i e he
  obtain ⟨hi, rfl⟩ := List.getElem?_eq_some_iff.mp he
  simp only [ofOneBased, List.getElem_mapIdx, Nat.zero_add]

/-- **The rows of a lookup** over ranges that are counted from one. -/
theorem represents_ofOneBased (ranges : List (Range × α)) :
    (ofOneBased ranges).table.Represents ranges := by
  have hnil : (Level.nil : Level α).Sound := trivial
  have hempty : (Level.nil : Level α).Reaching := trivial
  obtain ⟨sound, hlist⟩ := Level.foldl_place hnil (ofOneBased ranges).entries
  have reaching := hempty.foldl_place (ofOneBased ranges).entries
  have hentries : (ofOneBased ranges).roots.toList = (ofOneBased ranges).entries := hlist
  have numbered := numberedFrom_entries ranges
  rw [← hentries] at numbered
  have htable : (ofOneBased ranges).table = (ofOneBased ranges).roots.table := by
    rw [Level.table, hentries]
  rw [htable]
  refine Level.represents numbered sound reaching ⟨_, List.mergeSort_perm _ _,
    numbered_pairwise ranges, ?_⟩
  rw [← map_entries, ← hentries]
  rfl

/-- Either all ranges can be counted from one, or counting stops at one that overflows. -/
theorem recounted_or_overflow (ranges : List (Range × α)) :
    (∃ recounted, List.Forall₂ Recounted ranges recounted) ∨
      ranges.mapM recount = .error .overflow ∧
        ∃ entry ∈ ranges, entry.1.toOneBased = .error .overflow := by
  induction ranges with
  | nil => exact Or.inl ⟨[], .nil⟩
  | cons entry ranges ih =>
    rw [List.mapM_cons, recount]
    rcases Range.toOneBased_eq entry.1 with ⟨range, hrange⟩ | ⟨hfail, -⟩
    · rcases ih with ⟨recounted, hrecounted⟩ | ⟨hrest, other, hmem, hother⟩
      · exact Or.inl ⟨(range, entry.2) :: recounted, .cons ⟨hrange, rfl⟩ hrecounted⟩
      · refine Or.inr ⟨?_, other, List.mem_cons_of_mem _ hmem, hother⟩
        rw [hrange, hrest]
        rfl
    · refine Or.inr ⟨?_, entry, List.mem_cons_self .., hfail⟩
      rw [hfail]
      rfl

/-- **What a lookup stores.** For all ranges, in either basis and in any order, either one of them
overflows where it is counted from one, and there is no lookup, or there is one whose rows, laid out in
one pass over the entries, hold the ranges counted from one: sorted, each on one level, under a range
that contains it and in one block with all that is below it. -/
theorem represents_ofEntries (ranges : List (Range × α)) :
    (∃ recounted lookup, List.Forall₂ Recounted ranges recounted ∧ ofEntries ranges = .ok lookup ∧
        Table.ofStored lookup.entries = lookup.table ∧ lookup.table.Represents recounted) ∨
      ofEntries ranges = .error .overflow ∧
        ∃ entry ∈ ranges, entry.1.toOneBased = .error .overflow := by
  rcases recounted_or_overflow ranges with ⟨recounted, hrecounted⟩ | ⟨hfail, hoverflow⟩
  · refine Or.inl ⟨recounted, ofOneBased recounted, hrecounted, ofEntries_eq hrecounted, ?_,
      represents_ofOneBased recounted⟩
    rw [Table.ofStored_eq (numberedFrom_entries recounted)]
    rfl
  · refine Or.inr ⟨?_, hoverflow⟩
    rw [ofEntries_eq_map, hfail]
    rfl

end Lookup

end ProjectLens
