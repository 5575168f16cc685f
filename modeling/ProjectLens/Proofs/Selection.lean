import Mathlib.Data.List.Forall2
import ProjectLens.Proofs.Lookup

/-! # Which range a lookup selects

A lookup numbers its entries in an order of its own. What it answers can be told without that order,
from the ranges as they were added: of all ranges that contain a position it selects one that starts
last, of these one that ends first, and of these the one that was added last.

* `Lookup.Recounted`: a range that is counted from one instead;
* `Lookup.Selected`: the rule, in terms of the ranges as added;
* `Lookup.find?_answers_numbered`: the forest answers as if entries had their places as added;
* `Lookup.findEntry_selected`. -/

namespace ProjectLens.Lookup

variable {α : Type} {ranges recounted : List (Range × α)} {p q : Position}

/-- A range with what it stands for, and the same range counted from one. -/
def Recounted (entry counted : Range × α) : Prop :=
  entry.1.toOneBased = .ok counted.1 ∧ counted.2 = entry.2

/-- **The rule of selection** among ranges that are counted from one: what is selected at a position
was added at `place`. -/
structure Selected (ranges : List (Range × α)) (p : Position) (place : Nat) (range : Range)
    (value : α) : Prop where
  /-- It was added at that place. -/
  added : ranges[place]? = some (range, value)
  /-- It contains the position. -/
  contains : range.contains p = true
  /-- No range that contains the position starts later. -/
  start_le : ∀ other ∈ ranges, other.1.contains p = true → other.1.start ≤ range.start
  /-- Of those that start with it none ends earlier. -/
  le_stop : ∀ other ∈ ranges, other.1.contains p = true → other.1.start = range.start →
    range.stop ≤ other.1.stop
  /-- The same range was not added later. -/
  last : ∀ {i : Nat} {other : Range × α}, ranges[i]? = some other → other.1 = range → i ≤ place

/-! ## Ranges as they were added -/

/-- An entry is numbered by its place among the ranges. -/
theorem mem_numbered {e : Entry α} :
    e ∈ numbered ranges ↔ ranges[e.index]? = some (e.range, e.value) := by
  rw [numbered, List.mem_mapIdx]
  constructor
  · rintro ⟨i, hi, rfl⟩
    exact List.getElem?_eq_getElem hi
  · intro h
    obtain ⟨hi, heq⟩ := List.getElem?_eq_some_iff.mp h
    exact ⟨e.index, hi, by rw [heq]⟩

/-- Sorted as they are stored, ranges get more and more specific, those added later coming later. -/
theorem numbered_pairwise (ranges : List (Range × α)) :
    ((numbered ranges).mergeSort fun a b => storedBefore a.range b.range).Pairwise Before := by
  have hplaces : (numbered ranges).Pairwise fun a b => a.index < b.index := by
    rw [List.pairwise_iff_getElem]
    intro i j hi hj hij
    simp only [numbered, List.getElem_mapIdx]
    exact hij
  refine (pairwise_mergeSort_stable (fun a b c => storedBefore_trans a.range b.range c.range)
    (fun a b => storedBefore_total a.range b.range) hplaces).imp fun {a b} hab => ?_
  rw [storedBefore_iff, storedBefore_iff] at hab
  unfold Before
  grind

/-- The entries and the ranges as added are sorted alike. -/
theorem map_entries (ranges : List (Range × α)) :
    (ofOneBased ranges).entries.map (fun e => (e.range, e.value)) =
      ((numbered ranges).mergeSort fun a b => storedBefore a.range b.range).map
        fun e => (e.range, e.value) := by
  have hsorted : ((numbered ranges).mergeSort fun a b => storedBefore a.range b.range).map
      (fun e => (e.range, e.value)) = ((numbered ranges).map fun e => (e.range, e.value)).mergeSort
        fun a b => storedBefore a.1 b.1 := List.map_mergeSort fun _ _ _ _ => rfl
  rw [hsorted, map_numbered]
  exact map_numbered _

/-- **The forest answers as if entries had their places as added**: up to its number, its answer is the
most specific of the ranges as they were added. -/
theorem find?_answers_numbered (ranges : List (Range × α)) (p : Position) :
    ∃ answer, Answers p (numbered ranges) answer ∧
      ((ofOneBased ranges).roots.find? p).map (fun e => (e.range, e.value)) =
        answer.map fun e => (e.range, e.value) := by
  have hnil : (Level.nil : Level α).Sound := trivial
  obtain ⟨hsound, hlist⟩ := Level.foldl_place hnil (ofOneBased ranges).entries
  have hfind : (ofOneBased ranges).roots.find? p =
      ((ofOneBased ranges).entries.filter fun e => e.range.contains p).getLast? := by
    have hroots : (ofOneBased ranges).roots.find? p = _ := Level.find?_eq hsound p
    rw [hroots, hlist]
    rfl
  have hlast (entries : List (Entry α)) :
      ((entries.filter fun e => e.range.contains p).getLast?).map (fun e => (e.range, e.value)) =
        ((entries.map fun e => (e.range, e.value)).filter fun e => e.1.contains p).getLast? := by
    rw [← List.getLast?_map, List.filter_map]
    rfl
  refine ⟨_, (answers_getLast? (numbered_pairwise ranges) p).perm fun e => ?_, ?_⟩
  · rw [List.mem_mergeSort]
  · rw [hfind, hlast, hlast, map_entries]

/-- What is the most specific entry is selected. -/
theorem selected_of_answers {e : Entry α} (h : Answers p (numbered ranges) (some e)) :
    Selected ranges p e.index e.range e.value := by
  obtain ⟨he, hcontains, hmost⟩ := h
  -- every entry that contains the position is the one found or comes before it
  have most {i : Nat} {other : Range × α} (hi : ranges[i]? = some other)
      (hother : other.1.contains p = true) : ⟨i, other.1, other.2⟩ = e ∨
        Before ⟨i, other.1, other.2⟩ e :=
    hmost ⟨i, other.1, other.2⟩ (mem_numbered.mpr hi) hother
  constructor
  case added => exact mem_numbered.mp he
  case contains => exact hcontains
  case start_le =>
    intro other hmem hother
    obtain ⟨i, hi⟩ := List.mem_iff_getElem?.mp hmem
    rcases most hi hother with rfl | hbefore
    · exact Std.le_refl _
    · unfold Before at hbefore
      grind
  case le_stop =>
    intro other hmem hother hstart
    obtain ⟨i, hi⟩ := List.mem_iff_getElem?.mp hmem
    rcases most hi hother with rfl | hbefore
    · exact Std.le_refl _
    · unfold Before at hbefore
      grind
  case last =>
    intro i other hi hrange
    rw [← hrange] at hcontains
    rcases most hi hcontains with rfl | hbefore
    · exact Nat.le_refl _
    · unfold Before at hbefore
      grind

/-! ## Ranges in either basis -/

/-- Ranges are looked up as they are counted from one. -/
theorem ofEntries_eq (h : List.Forall₂ Recounted ranges recounted) :
    ofEntries ranges = .ok (ofOneBased recounted) := by
  have hrecounted : ranges.mapM recount = .ok recounted := by
    induction h with
    | nil => rfl
    | cons hentry _ ih =>
      obtain ⟨hrange, hvalue⟩ := hentry
      rw [List.mapM_cons, ih, recount, hrange, ← hvalue]
      rfl
  rw [ofEntries_eq_map, hrecounted]
  rfl

/-- **What a lookup selects.** For all ranges and every position, in either basis and as long as no
conversion overflows, there is an answer. It is none just when no range contains the position. Else it
contains the position and, of all ranges that do, starts last, then ends first, then was added last. -/
theorem findEntry_selected (hranges : List.Forall₂ Recounted ranges recounted)
    (hp : p.toOneBased = .ok q) :
    ∃ lookup answer, ofEntries ranges = .ok lookup ∧ lookup.findEntry p = .ok answer ∧
      (answer = none ↔ ∀ entry ∈ recounted, entry.1.contains q = false) ∧
      ∀ e ∈ answer, ∃ place, Selected recounted q place e.range e.value := by
  -- the forest finds what a scan of the added entries finds
  obtain ⟨answer, hanswer, hsame⟩ := find?_answers_numbered recounted q
  refine ⟨_, (ofOneBased recounted).roots.find? q, ofEntries_eq hranges, ?_, ?_, ?_⟩
  · rw [findEntry, hp]
    rfl
  · rw [← Option.map_eq_none_iff (f := fun e : Entry α => (e.range, e.value)), hsame,
      Option.map_eq_none_iff]
    constructor
    · rintro rfl entry hentry
      obtain ⟨i, hi⟩ := List.mem_iff_getElem?.mp hentry
      exact hanswer ⟨i, entry.1, entry.2⟩ (mem_numbered.mpr hi)
    · intro hnone
      cases answer with
      | none => rfl
      | some e =>
        have hmem := List.mem_of_getElem? (mem_numbered.mp hanswer.1)
        have hcontains := hanswer.2.1
        rw [hnone _ hmem] at hcontains
        cases hcontains
  · intro e he
    rw [Option.mem_def.mp he] at hsame
    obtain ⟨e', rfl, heq⟩ := Option.map_eq_some_iff.mp hsame.symm
    obtain ⟨hrange, hvalue⟩ := Prod.mk.inj heq
    rw [← hrange, ← hvalue]
    exact ⟨e'.index, selected_of_answers hanswer⟩

/-- Two ranges that are the same, given in both bases, inside one that starts earlier and beside one
that ends there. -/
theorem findEntry_selected_sameRange : ∃ lookup answer,
    ofEntries [(⟨⟨1, 1, .one⟩, ⟨1, 9, .one⟩⟩, "a"), (⟨⟨0, 3, .zero⟩, ⟨0, 7, .zero⟩⟩, "b"),
      (⟨⟨1, 4, .one⟩, ⟨1, 8, .one⟩⟩, "c"), (⟨⟨1, 2, .one⟩, ⟨1, 4, .one⟩⟩, "d")] = .ok lookup ∧
    lookup.findEntry ⟨0, 3, .zero⟩ = .ok answer ∧ answer ≠ none ∧
      ∀ e ∈ answer, ∃ place, Selected
        [(⟨⟨1, 1, .one⟩, ⟨1, 9, .one⟩⟩, "a"), (⟨⟨1, 4, .one⟩, ⟨1, 8, .one⟩⟩, "b"),
          (⟨⟨1, 4, .one⟩, ⟨1, 8, .one⟩⟩, "c"), (⟨⟨1, 2, .one⟩, ⟨1, 4, .one⟩⟩, "d")]
        ⟨1, 4, .one⟩ place e.range e.value := by
  have hranges : List.Forall₂ Recounted
      [(⟨⟨1, 1, .one⟩, ⟨1, 9, .one⟩⟩, "a"), (⟨⟨0, 3, .zero⟩, ⟨0, 7, .zero⟩⟩, "b"),
        (⟨⟨1, 4, .one⟩, ⟨1, 8, .one⟩⟩, "c"), (⟨⟨1, 2, .one⟩, ⟨1, 4, .one⟩⟩, "d")]
      [(⟨⟨1, 1, .one⟩, ⟨1, 9, .one⟩⟩, "a"), (⟨⟨1, 4, .one⟩, ⟨1, 8, .one⟩⟩, "b"),
        (⟨⟨1, 4, .one⟩, ⟨1, 8, .one⟩⟩, "c"), (⟨⟨1, 2, .one⟩, ⟨1, 4, .one⟩⟩, "d")] :=
    .cons ⟨rfl, rfl⟩ (.cons ⟨rfl, rfl⟩ (.cons ⟨rfl, rfl⟩ (.cons ⟨rfl, rfl⟩ .nil)))
  have hp : (⟨0, 3, .zero⟩ : Position).toOneBased = .ok ⟨1, 4, .one⟩ := rfl
  obtain ⟨lookup, answer, hlookup, hfind, hnone, hselected⟩ := findEntry_selected hranges hp
  refine ⟨lookup, answer, hlookup, hfind, fun h => ?_, hselected⟩
  have hfirst := hnone.mp h (⟨⟨1, 1, .one⟩, ⟨1, 9, .one⟩⟩, "a") (by simp)
  exact absurd hfirst (by decide)

end ProjectLens.Lookup
