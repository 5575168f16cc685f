import ProjectLens.Proofs.ForestTable

/-! # Searching the rows of a forest

The rows of a lookup are searched by number: halving over the starts of a row, a walk back along its
reaches, and from the member found to the row below it. Every place and every number that is looked at is
checked, and so is the number of rows that are gone through. None of the checks ever fails, and the search
comes to the entry that the forest answers with. Halving needs the starts of a row to ascend, which they do
since the members of a row are in stored order.

* `partitionPoint_spec`: what halving finds, where a property holds up to some place;
* `StartedBy`: the members of a row that start at or before a position are the first ones;
* `Level.containing?`: the member of a level that a search goes down into, told on the forest;
* `Level.containing_eq`, `Level.descend_eq`: **the search on one row and the search down the rows are
  those of the forest**;
* `Lookup.findNumber_ofStored`: all of the search;
* `Lookup.findEntry_ofStored_eq_scanEntry`: the search in the rows agrees with the scan. -/

namespace ProjectLens

namespace Lookup

/-- **Halving finds where a property ends**: `partitionPoint holds low high = .ok count` when `holds` is
true at the places before `count` and false at the others. -/
theorem partitionPoint_spec {holds : Nat → Except SearchFault Bool} {low high count : Nat}
    (hlow : low ≤ count) (hhigh : count ≤ high)
    (hbefore : ∀ place < count, holds place = .ok true)
    (hafter : ∀ place, count ≤ place → place < high → holds place = .ok false) :
    partitionPoint holds low high = .ok count := by
  -- each turn keeps `low ≤ count ≤ high`, and all places in between have an answer
  induction low, high using partitionPoint.induct holds with
  | case1 low high hlt middle fault hmiddle =>
    by_cases hcount : middle < count
    · rw [hbefore middle hcount] at hmiddle
      cases hmiddle
    · rw [hafter middle (by omega) (by omega)] at hmiddle
      cases hmiddle
  | case2 low high hlt middle hmiddle ih =>
    have hcount : middle < count := by
      refine Nat.lt_of_not_le fun hle => ?_
      rw [hafter middle hle (by omega)] at hmiddle
      cases hmiddle
    rw [partitionPoint, if_pos hlt]
    simp only [middle] at hmiddle
    simp only [hmiddle]
    exact ih (by omega) hhigh hafter
  | case3 low high hlt middle hmiddle ih =>
    have hcount : count ≤ middle := by
      refine Nat.le_of_not_lt fun hgt => ?_
      rw [hbefore middle hgt] at hmiddle
      cases hmiddle
    rw [partitionPoint, if_pos hlt]
    simp only [middle] at hmiddle
    simp only [hmiddle]
    exact ih hlow hcount fun place hle hplace => hafter place hle (by omega)
  | case4 low high hge =>
    rw [partitionPoint, if_neg hge]
    exact congrArg Except.ok (by omega)

/-- What stands at a place is found there: `at? row place = .ok b` when `row[place]? = some b`. -/
theorem at?_eq {β : Type} {row : List β} {place : Nat} {b : β} (h : row[place]? = some b) :
    at? row place = .ok b := by
  rw [at?, h]

variable {α : Type} {p : Position}

/-- **Members that start at or before a position come first**: `count` of them, and then those that start
after it. -/
structure StartedBy (p : Position) (members : List (Entry α)) (count : Nat) : Prop where
  /-- There are as many members. -/
  le : count ≤ members.length
  /-- The first ones start at or before the position. -/
  before : ∀ e ∈ members.take count, e.range.start ≤ p
  /-- The others start after it. -/
  after : ∀ e ∈ members.drop count, p < e.range.start

/-- A last member that starts after the position is not counted. -/
theorem StartedBy.of_lt {members : List (Entry α)} {last : Entry α} {count : Nat}
    (h : StartedBy p (members ++ [last]) count) (hlast : p < last.range.start) :
    StartedBy p members count := by
  have hcount : count ≤ members.length := by
    refine Nat.le_of_not_lt fun hgt => ?_
    have hall : (members ++ [last]).take count = members ++ [last] :=
      List.take_of_length_le (by rw [List.length_append]; exact hgt)
    exact absurd (h.before last (by rw [hall]; simp)) hlast
  refine ⟨hcount, fun e he => h.before e ?_, fun e he => h.after e ?_⟩
  · rwa [List.take_append_of_le_length hcount]
  · rw [List.drop_append_of_le_length hcount]
    exact List.mem_append_left _ he

/-- A last member that does not start after the position is counted, and all others with it. -/
theorem StartedBy.of_not_lt {members : List (Entry α)} {last : Entry α} {count : Nat}
    (h : StartedBy p (members ++ [last]) count) (hlast : ¬ p < last.range.start)
    (ascending : ∀ e ∈ members, e.range.start ≤ last.range.start) :
    count = members.length + 1 ∧ StartedBy p members members.length := by
  constructor
  · have hle : count ≤ members.length + 1 := by simpa using h.le
    refine Nat.le_antisymm hle (Nat.lt_of_not_le fun hcount => hlast (h.after last ?_))
    rw [List.drop_append_of_le_length hcount]
    simp
  · refine ⟨Nat.le_refl _, fun e he => ?_, by simp⟩
    rw [List.take_length] at he
    exact Std.le_trans (ascending e he) (Std.not_lt.mp hlast)

/-- Members that stand in the order of their starts are parted by a position. -/
theorem exists_startedBy (p : Position) {members : List (Entry α)}
    (ascending : members.Pairwise fun a b => a.range.start ≤ b.range.start) :
    ∃ count, StartedBy p members count := by
  induction members with
  | nil => exact ⟨0, Nat.le_refl 0, by simp, by simp⟩
  | cons first members ih =>
    obtain ⟨hfirst, hrest⟩ := List.pairwise_cons.mp ascending
    by_cases hstart : first.range.start ≤ p
    · obtain ⟨count, hle, hbefore, hafter⟩ := ih hrest
      refine ⟨count + 1, Nat.succ_le_succ hle, ?_, hafter⟩
      rw [List.take_succ_cons]
      exact List.forall_mem_cons.mpr ⟨hstart, hbefore⟩
    · -- the first one starts after the position, and so do all behind it
      refine ⟨0, Nat.zero_le _, by simp, ?_⟩
      rw [List.drop_zero]
      refine List.forall_mem_cons.mpr ⟨hstart, fun e he hle => hstart ?_⟩
      exact Std.le_trans (hfirst e he) hle

/-- **Stored entries stand in the order of their starts.** -/
theorem Before.start_le {a b : Entry α} (h : Before a b) : a.range.start ≤ b.range.start := by
  unfold Before at h
  grind

end Lookup

namespace Level

open Lookup

variable {α : Type} {level part : Level α} {entry : Entry α} {p : Position}

/-! ## The search on one level, told on the forest -/

/-- The member of a level that contains a position and starts last, with the level below it. -/
def containing? (p : Position) : Level α → Option (Entry α × Level α)
  | .nil => none
  | .snoc earlier entry below reach =>
    if p < entry.range.start then containing? p earlier
    else if reach < p then none
    else if entry.range.contains p then some (entry, below)
    else containing? p earlier

/-- The search in a forest goes down into the member that contains the position. -/
theorem find?_eq_containing? (p : Position) (level : Level α) :
    level.find? p = (level.containing? p).map fun family => (family.2.find? p).getD family.1 := by
  induction level with
  | nil => rfl
  | snoc earlier entry below reach ihe _ =>
    rw [find?, containing?]
    split
    · exact ihe
    split
    · rfl
    split
    · rfl
    · exact ihe

/-- What a search goes down into is a member with what is below it: `family ∈ level.families`. -/
theorem mem_families_of_containing? {family : Entry α × Level α}
    (h : level.containing? p = some family) : family ∈ level.families := by
  induction level with
  | nil => cases h
  | snoc earlier entry below reach ihe _ =>
    rw [containing?] at h
    rw [families, List.mem_append, List.mem_cons]
    split at h
    · exact .inl (ihe h)
    split at h
    · cases h
    split at h
    · exact .inr (.inl (Option.some.inj h).symm)
    · exact .inl (ihe h)

/-- There is less below a member than on and below its level. -/
theorem length_toList_lt {below : Level α} (h : (entry, below) ∈ level.families) :
    below.toList.length < level.toList.length := by
  obtain ⟨front, back, hsplit⟩ := exists_split h
  have hlength := congrArg List.length hsplit
  rw [List.length_append, List.length_cons, List.length_append] at hlength
  rw [← length_families below, ← length_families level]
  omega

/-! ## The search on one row -/

/-- The last member of a row stands at the end of it. -/
theorem at?_members_snoc (earlier : Level α) (entry : Entry α) (below : Level α) (reach : Position) :
    at? (snoc earlier entry below reach).row.members earlier.siblings.length = .ok entry.index := by
  refine at?_eq ?_
  show (List.map Entry.index (earlier.siblings ++ [entry]))[earlier.siblings.length]? = _
  rw [List.getElem?_map, List.getElem?_concat_length]
  rfl

/-- So does how far the members of the row reach. -/
theorem at?_reach_snoc (earlier : Level α) (entry : Entry α) (below : Level α) (reach : Position) :
    at? (snoc earlier entry below reach).row.reach earlier.siblings.length = .ok reach := by
  refine at?_eq ?_
  show (earlier.reaches ++ [reach])[earlier.siblings.length]? = some reach
  rw [← length_reaches, List.getElem?_concat_length]

/-- A walk back along a row does not see what has been added behind where it starts. -/
theorem walkBack_push (t : Table α) (p : Position) (earlier : Level α) (entry : Entry α)
    (below : Level α) (reach : Position) {place : Nat} (h : place ≤ earlier.siblings.length) :
    t.walkBack (snoc earlier entry below reach).row p place = t.walkBack earlier.row p place := by
  induction place with
  | zero => rfl
  | succ place ih =>
    have hreach : (snoc earlier entry below reach).row.reach[place]? = earlier.row.reach[place]? :=
      List.getElem?_append_left (by rw [length_reaches]; omega)
    have hmember : (snoc earlier entry below reach).row.members[place]? =
        earlier.row.members[place]? := by
      show (List.map Entry.index (earlier.siblings ++ [entry]))[place]? = _
      rw [List.map_append]
      exact List.getElem?_append_left (by rw [List.length_map]; omega)
    rw [Table.walkBack, Table.walkBack, at?, hreach, at?, hmember, ih (by omega)]
    rfl

section Rows

variable (numbered : NumberedFrom 0 level.toList)
include numbered

/-- An entry of a forest stands at its number in the table. -/
theorem at?_entries (h : entry ∈ level.toList) :
    at? level.table.entries entry.index = .ok (entry.range, entry.value) := by
  refine at?_eq ?_
  rw [getElem?_entries_table, numbered.getElem? h]
  rfl

/-- The row below an entry of a forest stands at its number in the table. -/
theorem at?_below {below : Level α} (h : (entry, below) ∈ level.families) :
    at? level.table.below entry.index = .ok below.row := by
  refine at?_eq ?_
  show (level.families.map fun family => family.2.row)[entry.index]? = some below.row
  rw [List.getElem?_map, getElem?_families numbered h]
  rfl

/-- What halving asks at a place of a row is whether the member there starts by the position. -/
theorem startsBy_eq (hpart : part.toList ⊆ level.toList) {place : Nat}
    (h : part.siblings[place]? = some entry) :
    level.table.startsBy part.row p place = .ok (decide (entry.range.start ≤ p)) := by
  have hmember : at? part.row.members place = .ok entry.index := by
    refine at?_eq ?_
    show (part.siblings.map Entry.index)[place]? = some entry.index
    rw [List.getElem?_map, h]
    rfl
  have hentry := at?_entries numbered
    (hpart (part.siblings_sublist.subset (List.mem_of_getElem? h)))
  simp only [Table.startsBy, hmember, hentry, bind, Except.bind, pure, Except.pure]

/-- **Halving finds how many members of a row start at or before a position.** -/
theorem partitionPoint_startsBy (hpart : part.toList ⊆ level.toList) {count : Nat}
    (started : StartedBy p part.siblings count) :
    partitionPoint (level.table.startsBy part.row p) 0 part.row.members.length = .ok count := by
  have hlength : part.row.members.length = part.siblings.length := List.length_map _
  refine partitionPoint_spec (Nat.zero_le _) (hlength ▸ started.le) ?_ ?_
  · intro place hplace
    have hlt := Nat.lt_of_lt_of_le hplace started.le
    have hmem : part.siblings[place] ∈ part.siblings.take count :=
      List.mem_take_iff_getElem.mpr ⟨place, by omega, rfl⟩
    rw [startsBy_eq numbered hpart (List.getElem?_eq_getElem hlt),
      decide_eq_true (started.before _ hmem)]
  · intro place hle hplace
    rw [hlength] at hplace
    have hmem : part.siblings[place] ∈ part.siblings.drop count :=
      List.mem_drop_iff_getElem.mpr ⟨place - count, by omega, by congr 1; omega⟩
    rw [startsBy_eq numbered hpart (List.getElem?_eq_getElem hplace),
      decide_eq_false (started.after _ hmem)]

/-- **A walk back along a row comes to the member that the forest goes down into.** -/
theorem walkBack_eq (hpart : part.toList ⊆ level.toList)
    (ascending : part.siblings.Pairwise fun a b => a.range.start ≤ b.range.start) {count : Nat}
    (started : StartedBy p part.siblings count) :
    level.table.walkBack part.row p count =
      .ok ((part.containing? p).map fun family => family.1.index) := by
  induction part generalizing count with
  | nil =>
    obtain rfl := Nat.le_zero.mp started.le
    rfl
  | snoc earlier entry below reach ihe _ =>
    rw [toList, List.append_subset, List.cons_subset] at hpart
    obtain ⟨hearlier, hentry, -⟩ := hpart
    rw [siblings] at ascending started
    obtain ⟨hascending, -, hlast⟩ := List.pairwise_append.mp ascending
    rw [containing?]
    by_cases hstart : p < entry.range.start
    · -- the last member starts too late, so the walk starts before it
      have hrest := started.of_lt hstart
      rw [if_pos hstart, walkBack_push _ _ _ _ _ _ hrest.le]
      exact ihe hearlier hascending hrest
    · -- the last member starts in time, and with it all others
      obtain ⟨rfl, hrest⟩ := started.of_not_lt hstart fun e he => hlast e he entry (by simp)
      have hreach := at?_reach_snoc earlier entry below reach
      have hmember := at?_members_snoc earlier entry below reach
      have hagain := ihe hearlier hascending hrest
      rw [← walkBack_push level.table p earlier entry below reach (Nat.le_refl _)] at hagain
      rw [if_neg hstart, Table.walkBack, hreach]
      by_cases hout : reach < p
      · rw [if_pos hout]
        simp [bind, Except.bind, hout]
        rfl
      · by_cases hcontains : entry.range.contains p = true
        · rw [if_neg hout, if_pos hcontains]
          simp [bind, Except.bind, hout, hmember, at?_entries numbered hentry, hcontains]
          rfl
        · rw [if_neg hout, if_neg hcontains]
          simp [bind, Except.bind, hout, hmember, at?_entries numbered hentry, hcontains, hagain]

/-- **The search on one row is that of the forest.** -/
theorem containing_eq (hpart : part.toList ⊆ level.toList)
    (ascending : part.siblings.Pairwise fun a b => a.range.start ≤ b.range.start) :
    level.table.containing part.row p =
      .ok ((part.containing? p).map fun family => family.1.index) := by
  obtain ⟨count, started⟩ := exists_startedBy p ascending
  rw [Table.containing, partitionPoint_startsBy numbered hpart started]
  exact walkBack_eq numbered hpart ascending started

/-! ## The search down the rows -/

/-- **The search down the rows is that of the forest**, when as many rows may be gone through as there
are entries, and one more. -/
theorem descend_eq (hstored : level.toList.Pairwise Before)
    (hpart : part.families.Sublist level.families) {turns : Nat}
    (hturns : part.toList.length < turns) (found : Option Nat) :
    level.table.descend p turns part.row found =
      .ok (((part.find? p).map Entry.index).or found) := by
  -- each row gone through takes one entry from what may still come
  induction turns generalizing part found with
  | zero => exact absurd hturns (Nat.not_lt_zero _)
  | succ turns ih =>
    have hlist : part.toList.Sublist level.toList := by
      rw [toList_eq, toList_eq level]
      exact hpart.map Prod.fst
    have ascending : part.siblings.Pairwise fun a b => a.range.start ≤ b.range.start :=
      (hstored.sublist (part.siblings_sublist.trans hlist)).imp Before.start_le
    rw [Table.descend, containing_eq numbered hlist.subset ascending, find?_eq_containing?]
    cases hfamily : part.containing? p with
    | none => rfl
    | some family =>
      obtain ⟨entry, below⟩ := family
      have hmem := mem_families_of_containing? hfamily
      have hless := length_toList_lt hmem
      have hdown := ih ((families_sublist hmem).trans hpart) (by omega) (some entry.index)
      have hbelow := at?_below numbered (hpart.subset hmem)
      simp only [bind, Except.bind, Option.map_some, hbelow, hdown]
      cases below.find? p <;> rfl

end Rows

end Level

namespace Lookup

variable {α : Type} {p q : Position}

/-- **The search in the rows is the search in the forest**: it goes through without a fault, and the
number it finds is that of the entry the forest answers with. -/
theorem findNumber_ofStored (recounted : List (Range × α)) (hp : p.toOneBased = .ok q) :
    (Table.ofStored (ofOneBased recounted).entries).findNumber p =
      .ok (((ofOneBased recounted).roots.find? q).map Entry.index) := by
  have hnil : (Level.nil : Level α).Sound := trivial
  have hentries : (ofOneBased recounted).roots.toList = (ofOneBased recounted).entries :=
    (Level.foldl_place hnil (ofOneBased recounted).entries).2
  have hnumbered := numberedFrom_entries recounted
  have hstored := entries_pairwise recounted
  have htable : Table.ofStored (ofOneBased recounted).entries = (ofOneBased recounted).roots.table := by
    rw [Table.ofStored_eq hnumbered, Level.table, hentries]
    rfl
  rw [← hentries] at hnumbered hstored
  have hdescend := Level.descend_eq hnumbered hstored (List.Sublist.refl _) (p := q)
    (Nat.lt_succ_self _) none
  rw [htable, Table.findNumber, hp, Level.length_entries_table]
  show (ofOneBased recounted).roots.table.descend q _ (ofOneBased recounted).roots.row none = _
  rw [hdescend, Option.or_none]

/-- **The search in the rows agrees with the scan.** For all ranges, in either basis and in any order, and
every position, as long as no conversion overflows, the rows laid out in one pass are searched without a
fault, by halving and walking back on each level. The search, the forest and the scan all answer, with the
same stored entry: the most specific one that contains the position, or none if none does. -/
theorem findEntry_ofStored_eq_scanEntry {ranges : List (Range × α)}
    (hranges : ∀ entry ∈ ranges, ∃ range, entry.1.toOneBased = .ok range)
    (hp : p.toOneBased = .ok q) :
    ∃ lookup answer, ofEntries ranges = .ok lookup ∧
      (Table.ofStored lookup.entries).findNumber p = .ok (answer.map Entry.index) ∧
      (Table.ofStored lookup.entries).findEntry p = .ok (answer.map fun e => (e.range, e.value)) ∧
      lookup.findEntry p = .ok answer ∧ lookup.scanEntry p = .ok answer ∧
      Answers q lookup.entries answer := by
  obtain ⟨lookup, answer, hlookup, hfind, hscan, hanswer⟩ := findEntry_eq_scanEntry hranges hp
  obtain ⟨recounted, hrecounted⟩ := ofEntries_ok hranges
  obtain rfl : ofOneBased recounted = lookup := Except.ok.inj (hrecounted.symm.trans hlookup)
  have hroots : (ofOneBased recounted).roots.find? q = answer := by
    rw [Lookup.findEntry, hp] at hfind
    exact Except.ok.inj hfind
  have hnumber := findNumber_ofStored recounted hp
  rw [hroots] at hnumber
  refine ⟨ofOneBased recounted, answer, hlookup, hnumber, ?_, hfind, hscan, hanswer⟩
  rw [Table.findEntry, hnumber]
  cases answer with
  | none => rfl
  | some e =>
    -- an answer is an entry, which stands at its number
    have hentry : at? (Table.ofStored (ofOneBased recounted).entries).entries e.index =
        .ok (e.range, e.value) := by
      refine at?_eq ?_
      show ((ofOneBased recounted).entries.map fun e => (e.range, e.value))[e.index]? = _
      rw [List.getElem?_map, (numberedFrom_entries recounted).getElem? hanswer.1]
      rfl
    simp only [Option.map_some, bind, Except.bind, hentry, pure, Except.pure]

/-- Ranges that overlap, ranges that are the same and a range of one position, in both bases. -/
theorem findEntry_ofStored_eq_scanEntry_overlapping : ∃ lookup answer,
    ofEntries [(⟨⟨1, 1, .one⟩, ⟨1, 6, .one⟩⟩, "a"), (⟨⟨0, 3, .zero⟩, ⟨0, 8, .zero⟩⟩, "b"),
      (⟨⟨1, 4, .one⟩, ⟨1, 9, .one⟩⟩, "c"), (⟨⟨1, 5, .one⟩, ⟨1, 5, .one⟩⟩, "d")] = .ok lookup ∧
    (Table.ofStored lookup.entries).findNumber ⟨0, 5, .zero⟩ = .ok (answer.map Entry.index) ∧
    (Table.ofStored lookup.entries).findEntry ⟨0, 5, .zero⟩ =
      .ok (answer.map fun e => (e.range, e.value)) ∧
    lookup.findEntry ⟨0, 5, .zero⟩ = .ok answer ∧ lookup.scanEntry ⟨0, 5, .zero⟩ = .ok answer ∧
    Answers ⟨1, 6, .one⟩ lookup.entries answer := by
  refine findEntry_ofStored_eq_scanEntry ?_ rfl
  simp only [List.forall_mem_cons, List.not_mem_nil, false_implies, implies_true, and_true]
  exact ⟨⟨_, rfl⟩, ⟨_, rfl⟩, ⟨_, rfl⟩, ⟨_, rfl⟩⟩

end Lookup

end ProjectLens
