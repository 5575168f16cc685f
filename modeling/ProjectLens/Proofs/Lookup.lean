import ProjectLens.Lookup.Scan
import ProjectLens.Proofs.PositionOrder

/-! # The two lookups agree

Both ways of looking up a position, down the forest and along all entries, answer with the innermost
entry that contains it, whatever the ranges are.

* `pairwise_mergeSort_stable`: what a sort that is stable keeps;
* `Lookup.Before a b`: `b` is more specific than `a`; `Lookup.Answers`: the most specific entry of
  those that contain a position, or none if none does, of which there is one (`Answers.unique`);
* `Level.Sound`: what placing entries in a forest keeps true; `Level.find?_eq`: the forest answers
  with the last entry in stored order that contains the position;
* `Lookup.scanFrom_answers`: the scan keeps the answer for what it has seen;
* `Lookup.findEntry_eq_scanEntry`. -/

namespace ProjectLens

variable {α : Type}

/-- **A sort that is stable keeps the order of elements that may stand either way round.** -/
theorem pairwise_mergeSort_stable {le : α → α → Bool} {R : α → α → Prop} {l : List α}
    (trans : ∀ a b c, le a b = true → le b c = true → le a c = true)
    (total : ∀ a b, (le a b || le b a) = true) (h : l.Pairwise R) :
    (l.mergeSort le).Pairwise fun a b => le a b = true ∧ (le b a = true → R a b) := by
  -- sorting compares the places of such elements
  have hsorted := List.pairwise_mergeSort (List.zipIdxLE_trans trans) (List.zipIdxLE_total total)
    l.zipIdx
  have hapart : (l.zipIdx.mergeSort (List.zipIdxLE le)).Pairwise fun a b => a.2 ≠ b.2 := by
    have hnodup : (l.zipIdx.map Prod.snd).Nodup := by
      rw [List.zipIdx_map_snd]
      exact List.nodup_range'
    exact List.pairwise_map.mp (((List.mergeSort_perm _ _).map Prod.snd).nodup_iff.mpr hnodup)
  rw [← List.mergeSort_zipIdx, List.pairwise_map]
  refine (hsorted.and hapart).imp_of_mem fun {a b} ha hb hab => ?_
  obtain ⟨a, i⟩ := a
  obtain ⟨b, j⟩ := b
  obtain ⟨hle, hne⟩ := hab
  rw [List.mem_mergeSort, List.mk_mem_zipIdx_iff_getElem?] at ha hb
  simp only [List.zipIdxLE] at hle hne
  split at hle
  · next hab =>
    refine ⟨hab, fun hba => ?_⟩
    rw [if_pos hba, decide_eq_true_eq] at hle
    obtain ⟨hi, rfl⟩ := List.getElem?_eq_some_iff.mp ha
    obtain ⟨hj, rfl⟩ := List.getElem?_eq_some_iff.mp hb
    exact List.pairwise_iff_getElem.mp h i j hi hj (by omega)
  · cases hle

/-! ## The innermost entry -/

namespace Lookup

/-- **An entry is less specific than another** that starts later, or starts with it and ends earlier,
or has the same range and was added later. -/
def Before (a b : Entry α) : Prop :=
  a.range.start < b.range.start ∨ (a.range.start = b.range.start ∧
    (b.range.stop < a.range.stop ∨ (a.range.stop = b.range.stop ∧ a.index < b.index)))

/-- `Before a b → Before b c → Before a c`. -/
theorem Before.trans {a b c : Entry α} (hab : Before a b) (hbc : Before b c) : Before a c := by
  unfold Before at *
  grind

/-- `Before a b → ¬ Before b a`. -/
theorem Before.asymm {a b : Entry α} (hab : Before a b) : ¬ Before b a := by
  unfold Before at *
  grind

/-- The answer of a lookup: the most specific entry that contains a position, or none. -/
def Answers (p : Position) (entries : List (Entry α)) : Option (Entry α) → Prop
  | none => ∀ e ∈ entries, e.range.contains p = false
  | some e => e ∈ entries ∧ e.range.contains p = true ∧
      ∀ other ∈ entries, other.range.contains p = true → other = e ∨ Before other e

/-- **There is one answer only.** -/
theorem Answers.unique {p : Position} {entries : List (Entry α)} {x y : Option (Entry α)}
    (hx : Answers p entries x) (hy : Answers p entries y) : x = y := by
  cases x with
  | none =>
    cases y with
    | none => rfl
    | some e =>
      obtain ⟨hmem, hcontains, -⟩ := hy
      rw [hx e hmem] at hcontains
      cases hcontains
  | some e =>
    obtain ⟨hmem, hcontains, hlast⟩ := hx
    cases y with
    | none =>
      rw [hy e hmem] at hcontains
      cases hcontains
    | some e' =>
      obtain ⟨hmem', hcontains', hlast'⟩ := hy
      -- of two last ones neither is before the other
      rcases hlast e' hmem' hcontains' with rfl | hbefore
      · rfl
      · rcases hlast' e hmem hcontains with rfl | hbefore'
        · rfl
        · exact absurd hbefore' hbefore.asymm

/-- The answer does not depend on the order of the entries. -/
theorem Answers.perm {p : Position} {entries entries' : List (Entry α)} {x : Option (Entry α)}
    (h : Answers p entries x) (hmem : ∀ e, e ∈ entries' ↔ e ∈ entries) : Answers p entries' x := by
  cases x with
  | none => exact fun e he => h e ((hmem e).mp he)
  | some e =>
    obtain ⟨he, hcontains, hlast⟩ := h
    exact ⟨(hmem e).mpr he, hcontains, fun other ho => hlast other ((hmem other).mp ho)⟩

/-- Among entries that get more and more specific, the answer is the last one that contains the
position. -/
theorem answers_getLast? {entries : List (Entry α)} (h : entries.Pairwise Before) (p : Position) :
    Answers p entries (entries.filter fun e => e.range.contains p).getLast? := by
  cases hlast : (entries.filter fun e => e.range.contains p).getLast? with
  | none =>
    intro e he
    have hnil := List.getLast?_eq_none_iff.mp hlast
    have := List.filter_eq_nil_iff.mp hnil e he
    simpa using this
  | some e =>
    obtain ⟨front, hfront⟩ := List.getLast?_eq_some_iff.mp hlast
    have hmem : e ∈ entries.filter fun e => e.range.contains p := by
      rw [hfront]
      simp
    obtain ⟨he, hcontains⟩ := List.mem_filter.mp hmem
    refine ⟨he, hcontains, fun other ho hother => ?_⟩
    -- what contains the position is in order too, so all others come before the last
    have hsorted := h.filter fun e => e.range.contains p
    have hmem' : other ∈ entries.filter fun e => e.range.contains p :=
      List.mem_filter.mpr ⟨ho, hother⟩
    rw [hfront] at hsorted hmem'
    rcases List.mem_append.mp hmem' with hmem' | hmem'
    · exact Or.inr ((List.pairwise_append.mp hsorted).2.2 other hmem' e (by simp))
    · exact Or.inl (List.mem_singleton.mp hmem')

/-- Ranges with what they stand for, each with its place among them. -/
def numbered (ranges : List (Range × α)) : List (Entry α) :=
  ranges.mapIdx fun place entry => ⟨place, entry.1, entry.2⟩

/-- Numbering ranges does not move them. -/
theorem map_numbered (ranges : List (Range × α)) :
    (numbered ranges).map (fun e => (e.range, e.value)) = ranges := by
  apply List.ext_getElem?
  intro i
  rw [numbered, List.getElem?_map, List.getElem?_mapIdx, Option.map_map]
  exact Option.map_id'

/-- Ranges are stored by their starts, and where these agree the longer one first. -/
theorem storedBefore_iff {a b : Range} :
    storedBefore a b = true ↔ a.start < b.start ∨ (a.start = b.start ∧ b.stop ≤ a.stop) := by
  simp [storedBefore]

/-- The order of storing is transitive, -/
theorem storedBefore_trans (a b c : Range) :
    storedBefore a b = true → storedBefore b c = true → storedBefore a c = true := by
  rw [storedBefore_iff, storedBefore_iff, storedBefore_iff]
  grind

/-- and total. -/
theorem storedBefore_total (a b : Range) : (storedBefore a b || storedBefore b a) = true := by
  rw [Bool.or_eq_true, storedBefore_iff, storedBefore_iff]
  grind

/-- **Entries are stored from less to more specific.** -/
theorem entries_pairwise (ranges : List (Range × α)) :
    (ofOneBased ranges).entries.Pairwise Before := by
  have hsorted : (ranges.mergeSort fun a b => storedBefore a.1 b.1).Pairwise
      fun a b => storedBefore a.1 b.1 = true :=
    List.pairwise_mergeSort (fun a b c => storedBefore_trans a.1 b.1 c.1)
      (fun a b => storedBefore_total a.1 b.1) ranges
  rw [List.pairwise_iff_getElem] at hsorted ⊢
  intro i j hi hj hij
  simp only [ofOneBased, List.getElem_mapIdx, List.length_mapIdx] at hi hj ⊢
  have hstored := storedBefore_iff.mp (hsorted i j hi hj hij)
  unfold Before
  simp only
  grind

end Lookup

/-! ## The forest -/

namespace Level

/-- **What placing keeps true**: a member contains all that is below it, and its reach is no earlier
than its own end and the reach of the members before it. -/
def Sound : Level α → Prop
  | .nil => True
  | .snoc earlier entry below reach => earlier.Sound ∧ below.Sound ∧
      (∀ e ∈ below.toList, entry.range.containsRange e.range = true) ∧
      entry.range.stop ≤ reach ∧ ∀ r ∈ earlier.reach?, r ≤ reach

/-- `(level.push entry).toList = level.toList ++ [entry]`. -/
theorem toList_push (level : Level α) (entry : Entry α) :
    (level.push entry).toList = level.toList ++ [entry] := rfl

/-- A sound level stays sound with an entry behind its own. -/
theorem Sound.push {level : Level α} (h : level.Sound) (entry : Entry α) :
    (level.push entry).Sound := by
  refine ⟨h, trivial, by simp [toList], ?_, ?_⟩
  · cases level.reach? with
    | none => exact Std.IsPreorder.le_refl _
    | some r =>
      show entry.range.stop ≤ max r entry.range.stop
      simp only [max]
      grind
  · intro r hr
    rw [Option.mem_def.mp hr]
    show r ≤ max r entry.range.stop
    simp only [max]
    grind

/-- An entry is placed after all others in stored order. -/
theorem toList_place (entry : Entry α) (level : Level α) :
    (level.place entry).toList = level.toList ++ [entry] := by
  induction level with
  | nil => rfl
  | snoc earlier last below reach _ ih =>
    rw [place]
    split
    · rw [toList, toList, ih, List.append_assoc, List.cons_append]
    · rw [toList_push]

/-- **Placing an entry keeps a forest sound.** -/
theorem Sound.place {level : Level α} (h : level.Sound) (entry : Entry α) :
    (level.place entry).Sound := by
  induction level with
  | nil => exact Sound.push h entry
  | snoc earlier last below reach _ ih =>
    rw [Level.place]
    split
    · rename_i hcontains
      obtain ⟨hearlier, hbelow, hnested, hstop, hreach⟩ := h
      refine ⟨hearlier, ih hbelow, ?_, hstop, hreach⟩
      rw [toList_place]
      intro e he
      rcases List.mem_append.mp he with he | he
      · exact hnested e he
      · rw [List.mem_singleton.mp he]
        exact hcontains
    · exact Sound.push h entry

/-- A forest holds the entries that were placed in it, in that order. -/
theorem foldl_place {level : Level α} (h : level.Sound) (entries : List (Entry α)) :
    (entries.foldl (fun level entry => level.place entry) level).Sound ∧
      (entries.foldl (fun level entry => level.place entry) level).toList =
        level.toList ++ entries := by
  induction entries generalizing level with
  | nil => exact ⟨h, (List.append_nil _).symm⟩
  | cons entry entries ih =>
    obtain ⟨hsound, hlist⟩ := ih (h.place entry)
    refine ⟨hsound, ?_⟩
    rw [List.foldl_cons, hlist, toList_place, List.append_assoc, List.singleton_append]

/-- No entry contains a position that is out of reach. -/
theorem Sound.le_reach {level : Level α} (h : level.Sound) {p : Position} {e : Entry α}
    (he : e ∈ level.toList) (hp : e.range.contains p = true) : ∀ r ∈ level.reach?, p ≤ r := by
  induction level with
  | nil => cases he
  | snoc earlier entry below reach ihe _ =>
    obtain ⟨hearlier, -, hnested, hstop, hreach⟩ := h
    rintro r ⟨⟩
    rw [toList, List.mem_append, List.mem_cons] at he
    obtain ⟨hstart, hend⟩ := Range.contains_iff.mp hp
    -- among the earlier ones, the last member itself, or below it
    rcases he with he | rfl | he
    · -- among the earlier members, whose reach is no later
      cases hr : earlier.reach? with
      | none =>
        cases earlier with
        | nil => cases he
        | snoc => cases hr
      | some r =>
        have := ihe hearlier he r hr
        have := hreach r hr
        grind
    · grind
    · have := Range.containsRange_iff.mp (hnested e he)
      grind

/-- **The forest answers with the last entry in stored order that contains the position.** -/
theorem find?_eq {level : Level α} (h : level.Sound) (p : Position) :
    level.find? p = (level.toList.filter fun e => e.range.contains p).getLast? := by
  induction level with
  | nil => rfl
  | snoc earlier entry below reach ihe ihb =>
    have hreached := fun e he hp => h.le_reach (p := p) (e := e) he hp reach rfl
    obtain ⟨hearlier, hbelow, hnested, -, -⟩ := h
    -- where a member does not contain the position, nothing below it does
    have skip : entry.range.contains p = false →
        (below.toList.filter fun e => e.range.contains p) = [] := by
      intro hentry
      rw [List.filter_eq_nil_iff]
      intro e he hcontains
      have hin := Range.containsRange_iff.mp (hnested e he)
      have hp := Range.contains_iff.mp hcontains
      have : entry.range.contains p = true := Range.contains_iff.mpr (by grind)
      rw [hentry] at this
      cases this
    rw [find?, toList, List.filter_append, List.getLast?_append, List.filter_cons, ihe hearlier,
      ihb hbelow]
    split
    · -- the member starts after the position
      rename_i hlt
      have hentry : entry.range.contains p = false := by
        rw [← Bool.not_eq_true, Range.contains_iff]
        grind
      rw [hentry, skip hentry]
      rfl
    split
    · -- no member up to this one reaches the position, so none of their entries contains it
      rename_i hout
      have hnone : ((Level.snoc earlier entry below reach).toList.filter
          fun e => e.range.contains p) = [] := by
        rw [List.filter_eq_nil_iff]
        intro e he hcontains
        have := hreached e he hcontains
        grind
      rw [toList, List.filter_append, List.filter_cons] at hnone
      rw [List.append_eq_nil_iff] at hnone
      rw [hnone.1, hnone.2]
      rfl
    split
    · -- the member contains it, and all that is below comes after it in stored order
      rw [List.getLast?_cons]
      rfl
    · rename_i hcontains
      rw [skip (by simpa using hcontains)]
      rfl

end Level

/-! ## The scan -/

namespace Lookup

/-- The order of the scan: by start, then end, then place in the stored order. -/
def Scanned (a b : Entry α) : Prop :=
  a.range.start < b.range.start ∨ (a.range.start = b.range.start ∧
    (a.range.stop < b.range.stop ∨ (a.range.stop = b.range.stop ∧ a.index < b.index)))

/-- Ranges are scanned by their starts, and where these agree the shorter one first. -/
theorem scannedBefore_iff {a b : Range} :
    scannedBefore a b = true ↔ a.start < b.start ∨ (a.start = b.start ∧ a.stop ≤ b.stop) := by
  rw [← Range.order_ne_gt, scannedBefore, decide_eq_true_eq]

/-- **Sorting for the scan keeps identical ranges in stored order.** -/
theorem scanned_mergeSort {entries : List (Entry α)} (h : entries.Pairwise Before) :
    (entries.mergeSort fun a b => scannedBefore a.range b.range).Pairwise Scanned := by
  have trans : ∀ a b c : Entry α, scannedBefore a.range b.range = true →
      scannedBefore b.range c.range = true → scannedBefore a.range c.range = true := by
    intro a b c
    rw [scannedBefore_iff, scannedBefore_iff, scannedBefore_iff]
    grind
  have total : ∀ a b : Entry α,
      (scannedBefore a.range b.range || scannedBefore b.range a.range) = true := by
    intro a b
    rw [Bool.or_eq_true, scannedBefore_iff, scannedBefore_iff]
    grind
  refine (pairwise_mergeSort_stable trans total h).imp fun {a b} hab => ?_
  rw [scannedBefore_iff, scannedBefore_iff] at hab
  unfold Before at hab
  unfold Scanned
  grind

/-- An entry after those seen so far, and not containing the position, changes nothing. -/
theorem Answers.skip {p : Position} {seen : List (Entry α)} {best : Option (Entry α)}
    {entry : Entry α} (h : Answers p seen best) (hentry : entry.range.contains p = false) :
    Answers p (seen ++ [entry]) best := by
  cases best with
  | none =>
    intro e he
    rcases List.mem_append.mp he with he | he
    · exact h e he
    · rw [List.mem_singleton.mp he]
      exact hentry
  | some current =>
    obtain ⟨hmem, hcontains, hlast⟩ := h
    refine ⟨List.mem_append_left _ hmem, hcontains, fun other ho hother => ?_⟩
    rcases List.mem_append.mp ho with ho | ho
    · exact hlast other ho hother
    · rw [List.mem_singleton.mp ho, hentry] at hother
      cases hother

/-- **The scan keeps the answer for what it has seen**, and so ends with the answer for all. It never
ends early: a range that reaches further than one that contains the position, without containing the
position, starts after it. -/
theorem scanFrom_answers {p : Position} {seen rest : List (Entry α)} {best : Option (Entry α)}
    (h : Answers p seen best) (hseen : ∀ a ∈ seen, ∀ b ∈ rest, Scanned a b)
    (hrest : rest.Pairwise Scanned) : Answers p (seen ++ rest) (scanFrom p best rest) := by
  induction rest generalizing seen best with
  | nil =>
    rw [List.append_nil]
    exact h
  | cons entry rest ih =>
    obtain ⟨hentry, hrest⟩ := List.pairwise_cons.mp hrest
    have hnext : ∀ a ∈ seen ++ [entry], ∀ b ∈ rest, Scanned a b := by
      intro a ha b hb
      rcases List.mem_append.mp ha with ha | ha
      · exact hseen a ha b (List.mem_cons_of_mem _ hb)
      · rw [List.mem_singleton.mp ha]
        exact hentry b hb
    -- what is known after this entry carries over to the entries after it
    have step : ∀ best', Answers p (seen ++ [entry]) best' →
        Answers p (seen ++ entry :: rest) (scanFrom p best' rest) := by
      intro best' h'
      have := ih h' hnext hrest
      rwa [List.append_assoc, List.singleton_append] at this
    unfold scanFrom
    split
    · rename_i hlt
      refine step best (h.skip ?_)
      rw [← Bool.not_eq_true, Range.contains_iff]
      grind
    rename_i hstart
    cases best with
    | none =>
      refine step _ ?_
      split
      · rename_i hcontains
        refine ⟨by simp, hcontains, fun other ho hother => ?_⟩
        rcases List.mem_append.mp ho with ho | ho
        · rw [h other ho] at hother
          cases hother
        · exact Or.inl (List.mem_singleton.mp ho)
      · rename_i hcontains
        exact h.skip (by simpa using hcontains)
    | some current =>
      obtain ⟨hmem, hcurrent, hlast⟩ := h
      have hscanned := hseen current hmem entry (List.mem_cons_self ..)
      have hin := Range.contains_iff.mp hcurrent
      simp only
      split
      · -- never taken: ending after the best one, the entry ends after the position
        rename_i hbreak
        obtain ⟨hfurther, hcontains⟩ := hbreak
        rw [← Bool.not_eq_true, Range.contains_iff] at hcontains
        grind
      split
      · -- the entry is more specific than the best one so far
        rename_i hreplace
        obtain ⟨hcontains, hinside⟩ := hreplace
        rw [Range.containsRange_iff] at hinside
        have hbefore : Before current entry := by
          unfold Before
          unfold Scanned at hscanned
          grind
        refine step _ ⟨by simp, hcontains, fun other ho hother => ?_⟩
        rcases List.mem_append.mp ho with ho | ho
        · rcases hlast other ho hother with rfl | hother
          · exact Or.inr hbefore
          · exact Or.inr (hother.trans hbefore)
        · exact Or.inl (List.mem_singleton.mp ho)
      · -- the best one so far is more specific, or the entry does not contain the position
        rename_i hkeep
        refine step _ ⟨List.mem_append_left _ hmem, hcurrent, fun other ho hother => ?_⟩
        rcases List.mem_append.mp ho with ho | ho
        · exact hlast other ho hother
        · obtain rfl := List.mem_singleton.mp ho
          rw [Range.containsRange_iff] at hkeep
          unfold Before
          unfold Scanned at hscanned
          grind

/-! ## Agreement -/

/-- The forest gives the answer. -/
theorem find?_answers (ranges : List (Range × α)) (p : Position) :
    Answers p (ofOneBased ranges).entries ((ofOneBased ranges).roots.find? p) := by
  have hnil : (Level.nil : Level α).Sound := trivial
  obtain ⟨hsound, hlist⟩ := Level.foldl_place hnil (ofOneBased ranges).entries
  have hroots : (ofOneBased ranges).roots.find? p = _ := Level.find?_eq hsound p
  rw [hroots, hlist]
  exact answers_getLast? (entries_pairwise ranges) p

/-- The scan gives the answer. -/
theorem scan_answers (ranges : List (Range × α)) (p : Position) :
    Answers p (ofOneBased ranges).entries (scanFrom p none
      ((ofOneBased ranges).entries.mergeSort fun a b => scannedBefore a.range b.range)) := by
  have hsorted := scanned_mergeSort (entries_pairwise ranges)
  have hnone : Answers p ([] : List (Entry α)) none := fun e he => absurd he (List.not_mem_nil)
  have hscan := scanFrom_answers hnone (fun a ha => absurd ha (List.not_mem_nil)) hsorted
  exact hscan.perm fun e => by rw [List.nil_append, List.mem_mergeSort]

/-- A pass over a list succeeds when it succeeds at each element. -/
theorem exists_mapM_ok {ε β γ : Type} {f : β → Except ε γ} {l : List β}
    (h : ∀ a ∈ l, ∃ b, f a = .ok b) : ∃ r, l.mapM f = .ok r := by
  induction l with
  | nil => exact ⟨[], rfl⟩
  | cons a l ih =>
    obtain ⟨⟨b, hb⟩, hl⟩ := List.forall_mem_cons.mp h
    obtain ⟨r, hr⟩ := ih hl
    refine ⟨b :: r, ?_⟩
    rw [List.mapM_cons, hb, hr]
    rfl

/-- A range with its value, the range counted from one. -/
def recount (entry : Range × α) : Except PositionError (Range × α) :=
  entry.1.toOneBased.map fun range => (range, entry.2)

/-- Ranges are counted from one before they are stored. -/
theorem ofEntries_eq_map (ranges : List (Range × α)) :
    ofEntries ranges = (ranges.mapM recount).map ofOneBased :=
  rfl

/-- Ranges none of which overflows can be looked up. -/
theorem ofEntries_ok {ranges : List (Range × α)}
    (h : ∀ entry ∈ ranges, ∃ range, entry.1.toOneBased = .ok range) :
    ∃ recounted, ofEntries ranges = .ok (ofOneBased recounted) := by
  have recounts : ∀ entry ∈ ranges, ∃ recounted, recount entry = .ok recounted := by
    intro entry hentry
    obtain ⟨range, hrange⟩ := h entry hentry
    refine ⟨(range, entry.2), ?_⟩
    rw [recount, hrange]
    rfl
  obtain ⟨recounted, hrecounted⟩ := exists_mapM_ok recounts
  refine ⟨recounted, ?_⟩
  rw [ofEntries_eq_map, hrecounted]
  rfl

/-- **The two lookups agree.** For all ranges, in either basis and in any order, and every position,
as long as no conversion overflows, the forest and the scan both answer, with the same entry: the most
specific one that contains the position. -/
theorem findEntry_eq_scanEntry {ranges : List (Range × α)} {p q : Position}
    (hranges : ∀ entry ∈ ranges, ∃ range, entry.1.toOneBased = .ok range)
    (hp : p.toOneBased = .ok q) :
    ∃ lookup answer, ofEntries ranges = .ok lookup ∧ lookup.findEntry p = .ok answer ∧
      lookup.scanEntry p = .ok answer ∧ Answers q lookup.entries answer := by
  obtain ⟨recounted, hlookup⟩ := ofEntries_ok hranges
  have hanswer := find?_answers recounted q
  have hsame := hanswer.unique (scan_answers recounted q)
  refine ⟨ofOneBased recounted, (ofOneBased recounted).roots.find? q, hlookup, ?_, ?_, hanswer⟩
  · rw [findEntry, hp]
    rfl
  · rw [scanEntry, hp, hsame]
    rfl

end Lookup

end ProjectLens
