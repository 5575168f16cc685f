import ProjectLens.Lookup.Table
import ProjectLens.Proofs.Lookup

/-! # Rows of a forest

What the levels of a forest have in common, told on the forest itself: its entries come in stored order,
so the members of a level are some of them in that order, and all that is below a member comes right
after it.

* `Level.toList_eq`, `Level.siblings_sublist`, `Level.count_rows`: every entry is on one level;
* `Level.exists_split`: the entries below one are a block right after it;
* `Level.Sound.nested`: what is below an entry lies in it;
* `Level.Reaching`, `Level.Reaching.latest`: the reach of a member is the latest end so far. -/

namespace ProjectLens.Level

variable {α : Type}

/-! ## Every entry is on one level -/

/-- `level.toList = level.families.map Prod.fst`. -/
theorem toList_eq (level : Level α) : level.toList = level.families.map Prod.fst := by
  induction level with
  | nil => rfl
  | snoc earlier entry below reach ihe ihb => simp [toList, families, ihe, ihb]

/-- `level.families.length = level.toList.length`. -/
theorem length_families (level : Level α) : level.families.length = level.toList.length := by
  rw [toList_eq, List.length_map]

/-- `level.rowsBelow.length = level.toList.length`. -/
theorem length_rowsBelow (level : Level α) : level.rowsBelow.length = level.toList.length := by
  rw [rowsBelow, List.length_map, length_families]

/-- The members of a level are in stored order. -/
theorem siblings_sublist (level : Level α) : level.siblings.Sublist level.toList := by
  induction level with
  | nil => exact List.Sublist.refl []
  | snoc earlier entry below reach ihe _ =>
    exact ihe.append ((List.nil_sublist below.toList).cons_cons entry)

/-- `level.reaches.length = level.siblings.length`. -/
theorem length_reaches (level : Level α) : level.reaches.length = level.siblings.length := by
  induction level with
  | nil => rfl
  | snoc earlier entry below reach ihe _ => simp [reaches, siblings, ihe]

/-- **Every entry is on one level only**: a number is as often on the levels as among the entries. -/
theorem count_rows (level : Level α) (number : Nat) :
    level.row.members.count number + (level.rowsBelow.flatMap Lookup.Row.members).count number =
      (level.toList.map Entry.index).count number := by
  induction level with
  | nil => rfl
  | snoc earlier entry below reach ihe ihb =>
    simp only [row, rowsBelow, siblings, families, toList, List.map_append, List.map_cons,
      List.map_nil, List.flatMap_append, List.flatMap_cons, List.count_append, List.count_cons,
      List.count_nil] at ihe ihb ⊢
    omega

/-! ## Blocks -/

/-- **What is below an entry comes right after it**, and what is below that is below it too. -/
theorem exists_split {level below : Level α} {entry : Entry α}
    (h : (entry, below) ∈ level.families) :
    ∃ front back, level.families = front ++ (entry, below) :: (below.families ++ back) := by
  induction level with
  | nil => cases h
  | snoc earlier last under reach ihe ihb =>
    rw [families, List.mem_append, List.mem_cons] at h
    rcases h with h | h | h
    · obtain ⟨front, back, hsplit⟩ := ihe h
      refine ⟨front, back ++ (last, under) :: under.families, ?_⟩
      rw [families, hsplit]
      simp
    · obtain ⟨rfl, rfl⟩ := Prod.mk.inj h
      exact ⟨earlier.families, [], by rw [families, List.append_nil]⟩
    · obtain ⟨front, back, hsplit⟩ := ihb h
      refine ⟨earlier.families ++ (last, under) :: front, back, ?_⟩
      rw [families, hsplit]
      simp

/-- What is below something below an entry is below that entry. -/
theorem families_sublist {level below : Level α} {entry : Entry α}
    (h : (entry, below) ∈ level.families) : below.families.Sublist level.families := by
  obtain ⟨front, back, hsplit⟩ := exists_split h
  rw [hsplit]
  exact (((List.sublist_append_left below.families back).cons _).trans
    (List.sublist_append_right front _))

/-- What is below an entry is stored in the order of the whole forest. -/
theorem toList_sublist {level below : Level α} {entry : Entry α}
    (h : (entry, below) ∈ level.families) : below.toList.Sublist level.toList := by
  rw [toList_eq, toList_eq level]
  exact (families_sublist h).map Prod.fst

/-- **What is below an entry lies in it.** -/
theorem Sound.nested {level below : Level α} {entry e : Entry α} (sound : level.Sound)
    (h : (entry, below) ∈ level.families) (he : e ∈ below.toList) :
    entry.range.containsRange e.range = true := by
  induction level with
  | nil => cases h
  | snoc earlier last under reach ihe ihb =>
    obtain ⟨hearlier, hunder, hnested, -, -⟩ := sound
    rw [families, List.mem_append, List.mem_cons] at h
    rcases h with h | h | h
    · exact ihe hearlier h
    · obtain ⟨rfl, rfl⟩ := Prod.mk.inj h
      exact hnested e he
    · exact ihb hunder h

/-! ## Reaches -/

/-- **The reach of each member is the later one of its own end and the reach before it.** -/
def Reaching : Level α → Prop
  | .nil => True
  | .snoc earlier entry below reach => earlier.Reaching ∧ below.Reaching ∧
      reach = match earlier.reach? with
        | none => entry.range.stop
        | some before => max before entry.range.stop

/-- Placing an entry keeps the reaches right. -/
theorem Reaching.place {level : Level α} (h : level.Reaching) (entry : Entry α) :
    (level.place entry).Reaching := by
  induction level with
  | nil => exact ⟨trivial, trivial, rfl⟩
  | snoc earlier last below reach _ ih =>
    rw [Level.place]
    split
    · exact ⟨h.1, ih h.2.1, h.2.2⟩
    · exact ⟨h, trivial, rfl⟩

/-- A level stays reaching when entries are placed in it one after the other. -/
theorem Reaching.foldl_place {level : Level α} (h : level.Reaching) (entries : List (Entry α)) :
    (entries.foldl (fun level entry => level.place entry) level).Reaching := by
  induction entries generalizing level with
  | nil => exact h
  | cons entry entries ih => exact ih (h.place entry)

/-- The reaches of a level below an entry are right too. -/
theorem Reaching.family {level below : Level α} {entry : Entry α} (h : level.Reaching)
    (hfamily : (entry, below) ∈ level.families) : below.Reaching := by
  induction level with
  | nil => cases hfamily
  | snoc earlier last under reach ihe ihb =>
    rw [families, List.mem_append, List.mem_cons] at hfamily
    rcases hfamily with hfamily | hfamily | hfamily
    · exact ihe h.1 hfamily
    · obtain ⟨rfl, rfl⟩ := Prod.mk.inj hfamily
      exact h.2.1
    · exact ihb h.2.1 hfamily

/-- A position is the latest end of some entries. -/
def Latest (entries : List (Entry α)) (stop : Position) : Prop :=
  (∃ e ∈ entries, e.range.stop = stop) ∧ ∀ e ∈ entries, e.range.stop ≤ stop

/-- A later entry takes part in the latest end. -/
theorem Latest.snoc {entries : List (Entry α)} {stop : Position} (h : Latest entries stop)
    (entry : Entry α) : Latest (entries ++ [entry]) (max stop entry.range.stop) := by
  obtain ⟨⟨e, he, hstop⟩, hmost⟩ := h
  have hmax : max stop entry.range.stop = if stop ≤ entry.range.stop then entry.range.stop else stop :=
    rfl
  rw [hmax]
  by_cases hle : stop ≤ entry.range.stop
  · rw [if_pos hle]
    refine ⟨⟨entry, by simp, rfl⟩, fun other hother => ?_⟩
    rcases List.mem_append.mp hother with hother | hother
    · exact Std.le_trans (hmost other hother) hle
    · rw [List.mem_singleton.mp hother]
      exact Std.le_refl _
  · rw [if_neg hle]
    refine ⟨⟨e, by simp [he], hstop⟩, fun other hother => ?_⟩
    rcases List.mem_append.mp hother with hother | hother
    · exact hmost other hother
    · rw [List.mem_singleton.mp hother]
      grind

/-- The reach of a level is the latest end on it. -/
theorem Reaching.latest {level : Level α} (h : level.Reaching) {stop : Position}
    (hstop : level.reach? = some stop) : Latest level.siblings stop := by
  induction level generalizing stop with
  | nil => cases hstop
  | snoc earlier entry below reach ihe _ =>
    obtain ⟨hearlier, -, hreach⟩ := h
    cases hstop
    rw [siblings]
    cases hbefore : earlier.reach? with
    | none =>
      cases earlier with
      | nil =>
        rw [hreach]
        exact ⟨⟨entry, by simp [siblings], rfl⟩, by simp [siblings, reach?]⟩
      | snoc => cases hbefore
    | some before =>
      rw [hbefore] at hreach
      rw [hreach]
      exact (ihe hearlier hbefore).snoc entry

/-- **The reach of a member is the latest end among it and the members before it.** -/
theorem Reaching.latest_take {level : Level α} (h : level.Reaching) {i : Nat} {stop : Position}
    (hstop : level.reaches[i]? = some stop) : Latest (level.siblings.take (i + 1)) stop := by
  induction level with
  | nil => cases hstop
  | snoc earlier entry below reach ihe _ =>
    have whole := h.latest rfl
    rw [reaches] at hstop
    by_cases hlt : i < earlier.reaches.length
    · rw [List.getElem?_append_left hlt] at hstop
      rw [siblings, List.take_append_of_le_length (length_reaches earlier ▸ hlt)]
      exact ihe h.1 hstop
    · -- the last member, whose reach is that of the level
      rw [List.getElem?_append_right (Nat.le_of_not_lt hlt)] at hstop
      obtain ⟨_, hlast⟩ := List.getElem?_eq_some_iff.mp hstop
      rw [List.getElem_singleton] at hlast
      have hlength := length_reaches (.snoc earlier entry below reach)
      rw [reaches, List.length_append, List.length_singleton] at hlength
      rw [← hlast, List.take_of_length_le (by omega)]
      exact whole

end ProjectLens.Level
