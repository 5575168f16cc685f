import ProjectLens.Proofs.ForestRows

/-! # The forest laid out in one pass

A pass over the entries keeps a stack of those that may still contain what comes, and gives up the
innermost ones until one contains the next entry. The entries on the stack lie in each other, so none
that is given up has one below it on the stack that does not contain the next entry: what is left is the
chain of last members down to the one the forest places the entry below. So the rows laid out are those
of the forest.

* `Level.path`: the last members, from the top level down;
* `dropWhile_reverse`: giving up the innermost ones of a chain leaves the outermost ones;
* `Level.path_place`, `Level.row_place`, `Level.rowsBelow_place`: what placing an entry does to the rows;
* `Lookup.Pass.add_eq`, `Lookup.Table.ofStored_eq`: the same for one turn and for the whole pass. -/

namespace ProjectLens

/-- **Giving up the last elements of a list until one passes leaves the first ones that pass**, when an
element passes only if all before it do. -/
theorem dropWhile_reverse {α : Type} {p : α → Bool} {l : List α}
    (h : l.Pairwise fun a b => p b = true → p a = true) :
    l.reverse.dropWhile (fun a => !p a) = (l.takeWhile p).reverse := by
  induction l with
  | nil => rfl
  | cons a l ih =>
    obtain ⟨hfirst, hrest⟩ := List.pairwise_cons.mp h
    rw [List.reverse_cons, List.dropWhile_append, ih hrest]
    by_cases ha : p a = true
    · rw [List.takeWhile_cons_of_pos ha, List.reverse_cons]
      split
      · rename_i hnil
        rw [List.isEmpty_iff.mp hnil]
        simp [ha]
      · rfl
    · -- nothing behind the first element passes either
      have hnone : l.takeWhile p = [] := by
        cases l with
        | nil => rfl
        | cons b l =>
          have hb : ¬ p b = true := fun hb => ha (hfirst b (List.mem_cons_self ..) hb)
          rw [List.takeWhile_cons_of_neg hb]
      rw [List.takeWhile_cons_of_neg ha, hnone]
      simp [ha]

/-- A change behind the front of a list. -/
theorem modify_append {α : Type} (front back : List α) (i : Nat) (f : α → α) :
    (front ++ back).modify (front.length + i) f = front ++ back.modify i f := by
  induction front with
  | nil => rw [List.length_nil, Nat.zero_add, List.nil_append, List.nil_append]
  | cons a front ih =>
    rw [List.length_cons, Nat.add_right_comm, List.cons_append, List.modify_succ_cons, ih,
      List.cons_append]

/-- A change in the front of a list. -/
theorem modify_append_left {α : Type} {front : List α} (back : List α) {i : Nat} (f : α → α)
    (h : i < front.length) : (front ++ back).modify i f = front.modify i f ++ back := by
  induction front generalizing i with
  | nil => exact absurd h (Nat.not_lt_zero i)
  | cons a front ih =>
    cases i with
    | zero => rfl
    | succ i =>
      rw [List.cons_append, List.modify_succ_cons, ih (Nat.lt_of_succ_lt_succ h),
        List.modify_succ_cons, List.cons_append]

/-- **Entries are numbered** from `base` on. -/
def Lookup.NumberedFrom {α : Type} (base : Nat) (entries : List (Entry α)) : Prop :=
  ∀ i e, entries[i]? = some e → e.index = base + i

namespace Level

open Lookup (NumberedFrom)

variable {α : Type}

/-- **The last members**, from the top level down. -/
def path : Level α → List (Entry α)
  | .nil => []
  | .snoc _ entry below _ => entry :: below.path

/-- The last members are entries. -/
theorem path_subset (level : Level α) : level.path ⊆ level.toList := by
  induction level with
  | nil => exact List.Subset.refl _
  | snoc earlier entry below reach _ ihb =>
    intro e he
    rw [toList, List.mem_append, List.mem_cons]
    rcases List.mem_cons.mp he with he | he
    · exact Or.inr (Or.inl he)
    · exact Or.inr (Or.inr (ihb he))

/-- Each last member lies in those above it, so what lies in it lies in those too. -/
theorem Sound.path_pairwise {level : Level α} (h : level.Sound) (range : Range) :
    level.path.Pairwise fun a b => b.range.containsRange range = true →
      a.range.containsRange range = true := by
  induction level with
  | nil => exact List.Pairwise.nil
  | snoc earlier entry below reach _ ihb =>
    obtain ⟨-, hbelow, hnested, -, -⟩ := h
    refine List.pairwise_cons.mpr ⟨fun e he hcontains => ?_, ihb hbelow⟩
    have hin := Range.containsRange_iff.mp (hnested e (path_subset below he))
    rw [Range.containsRange_iff] at hcontains ⊢
    exact ⟨Std.le_trans hin.1 hcontains.1, Std.le_trans hcontains.2 hin.2⟩

/-- The last members that contain an entry, from the top level down. -/
def around (level : Level α) (entry : Entry α) : List (Entry α) :=
  level.path.takeWhile fun top => top.range.containsRange entry.range

/-- What is around an entry in a level is its last member, if that contains it, and what is around
it below. -/
theorem around_snoc (earlier : Level α) (last : Entry α) (below : Level α) (reach : Position)
    (entry : Entry α) : (Level.snoc earlier last below reach).around entry =
      if last.range.containsRange entry.range then last :: below.around entry else [] := by
  simp only [around, path, List.takeWhile_cons]

/-- An entry is placed below the last members that contain it. -/
theorem path_place (level : Level α) (entry : Entry α) :
    (level.place entry).path = level.around entry ++ [entry] := by
  induction level with
  | nil => rfl
  | snoc earlier last below reach _ ihb =>
    rw [place, around_snoc]
    split
    · rw [path, ihb, List.cons_append]
    · rfl

/-- `level.reaches.getLast? = level.reach?`. -/
theorem getLast?_reaches (level : Level α) : level.reaches.getLast? = level.reach? := by
  cases level with
  | nil => rfl
  | snoc earlier entry below reach =>
    rw [reaches, List.getLast?_concat]
    rfl

/-- A member added to a level is added to its row. -/
theorem row_push (level : Level α) (entry : Entry α) :
    (level.push entry).row = level.row.push entry.index entry.range.stop := by
  cases hreach : level.reach? <;>
    simp [push, row, Lookup.Row.push, siblings, reaches, getLast?_reaches, hreach]

/-- An entry that no last member contains is added to the level, any other one leaves it as it is. -/
theorem row_place (level : Level α) (entry : Entry α) :
    (level.place entry).row = if level.around entry = [] then
      level.row.push entry.index entry.range.stop else level.row := by
  cases level with
  | nil => exact row_push .nil entry
  | snoc earlier last below reach =>
    rw [place, around_snoc]
    split
    · rw [if_neg (List.cons_ne_nil _ _)]
      rfl
    · rw [if_pos rfl, row_push]

/-- The rows below a level are those below its earlier members, then the last one's row and those
below it. -/
theorem rowsBelow_snoc (earlier : Level α) (last : Entry α) (below : Level α) (reach : Position) :
    (Level.snoc earlier last below reach).rowsBelow =
      earlier.rowsBelow ++ below.row :: below.rowsBelow := by
  simp only [rowsBelow, families, List.map_append, List.map_cons]

/-- The parts of a numbered level are numbered. -/
theorem numberedFrom_snoc {base : Nat} {earlier : Level α} {last : Entry α} {below : Level α}
    {reach : Position} (h : NumberedFrom base (Level.snoc earlier last below reach).toList) :
    last.index = base + earlier.rowsBelow.length ∧
      NumberedFrom (base + earlier.rowsBelow.length + 1) below.toList := by
  rw [length_rowsBelow]
  constructor
  · refine h earlier.toList.length last ?_
    rw [toList, List.getElem?_append_right (Nat.le_refl _), Nat.sub_self]
    rfl
  · intro i e he
    have hplace : (Level.snoc earlier last below reach).toList[earlier.toList.length + (i + 1)]? =
        some e := by
      rw [toList, List.getElem?_append_right (Nat.le_add_right ..), Nat.add_sub_cancel_left]
      exact he
    have := h _ e hplace
    omega

/-- **An entry is added to the row below the innermost last member that contains it**, and gets an empty
row below itself. -/
theorem rowsBelow_place {level : Level α} {base : Nat} (h : NumberedFrom base level.toList)
    (entry : Entry α) : (level.place entry).rowsBelow =
      (match (level.around entry).getLast? with
        | none => level.rowsBelow
        | some parent => level.rowsBelow.modify (parent.index - base)
            (·.push entry.index entry.range.stop)) ++ [.empty] := by
  induction level generalizing base with
  | nil => rfl
  | snoc earlier last below reach _ ihb =>
    obtain ⟨hlast, hbelow⟩ := numberedFrom_snoc h
    rw [place, around_snoc]
    split
    · rw [rowsBelow_snoc, row_place, ihb hbelow, rowsBelow_snoc, List.getLast?_cons]
      cases hinner : (below.around entry).getLast? with
      | none =>
        -- the last member itself is the innermost one
        rw [if_pos (List.getLast?_eq_none_iff.mp hinner)]
        have hplace : last.index - base = earlier.rowsBelow.length + 0 := by omega
        simp only [Option.getD_none, hplace, modify_append, List.modify_zero_cons]
        simp
      | some parent =>
        have hne : below.around entry ≠ [] := by
          rintro hnil
          rw [hnil] at hinner
          cases hinner
        rw [if_neg hne]
        -- the innermost one is an entry below the last member
        have hmem : parent ∈ below.toList :=
          path_subset below ((List.takeWhile_subset _) (List.mem_of_getLast? hinner))
        obtain ⟨i, hi⟩ := List.mem_iff_getElem?.mp hmem
        have hindex := hbelow i parent hi
        have hplace : parent.index - base = earlier.rowsBelow.length + (i + 1) := by omega
        have hplace' : parent.index - (base + earlier.rowsBelow.length + 1) = i := by omega
        simp only [Option.getD_some, hplace, hplace', modify_append, List.modify_succ_cons]
        simp
    · rw [push, rowsBelow_snoc]
      rfl

end Level

namespace Lookup

variable {α : Type}

/-- What the pass has laid out of a forest, `rest` entries being still to come. -/
def Pass.ofLevel (level : Level α) (rest : Nat) : Pass α :=
  ⟨level.row, level.rowsBelow ++ List.replicate rest .empty, level.path.reverse⟩

/-- **One turn of the pass places the entry in the forest.** -/
theorem Pass.add_eq {level : Level α} (sound : level.Sound)
    (numbered : NumberedFrom 0 level.toList) (entry : Entry α) (rest : Nat) :
    (Pass.ofLevel level (rest + 1)).add entry = Pass.ofLevel (level.place entry) rest := by
  -- what is left on the stack are the entries around the new one
  have hopened : (level.path.reverse.dropWhile fun top => !top.range.containsRange entry.range) =
      (level.around entry).reverse := dropWhile_reverse (sound.path_pairwise entry.range)
  have hempty : List.replicate (rest + 1) Row.empty = [Row.empty] ++ List.replicate rest .empty := rfl
  simp only [add, ofLevel, hopened, level.row_place, Level.rowsBelow_place numbered, level.path_place]
  cases hlast : (level.around entry).getLast? with
  | none =>
    have hnil := List.getLast?_eq_none_iff.mp hlast
    simp only [hnil, List.reverse_nil, if_true, hempty, List.append_assoc, List.nil_append]
    rfl
  | some parent =>
    obtain ⟨outer, houter⟩ := List.getLast?_eq_some_iff.mp hlast
    -- the row below the innermost of them is one of those there are
    have hmem : parent ∈ level.toList :=
      Level.path_subset level ((List.takeWhile_subset _) (List.mem_of_getLast? hlast))
    obtain ⟨i, hi⟩ := List.mem_iff_getElem?.mp hmem
    have hindex : parent.index = i := (numbered i parent hi).trans (Nat.zero_add i)
    have hlt : parent.index < level.rowsBelow.length := by
      rw [Level.length_rowsBelow, hindex]
      exact (List.getElem?_eq_some_iff.mp hi).1
    simp only [houter, List.reverse_append, List.reverse_cons, List.reverse_nil, List.nil_append,
      List.singleton_append, Nat.sub_zero, modify_append_left _ _ hlt]
    rw [if_neg (List.append_ne_nil_of_right_ne_nil outer (List.cons_ne_nil parent [])), hempty,
      List.append_assoc]

/-- **Turn by turn the pass lays out the forest** of the entries so far. -/
theorem Pass.foldl_add_eq {level : Level α} (sound : level.Sound) {entries : List (Entry α)}
    (numbered : NumberedFrom 0 (level.toList ++ entries)) :
    entries.foldl Pass.add (Pass.ofLevel level entries.length) =
      Pass.ofLevel (entries.foldl (fun level entry => level.place entry) level) 0 := by
  induction entries generalizing level with
  | nil => rfl
  | cons entry entries ih =>
    have hlevel : NumberedFrom 0 level.toList := by
      intro i e he
      have hlt := (List.getElem?_eq_some_iff.mp he).1
      exact numbered i e (by rw [List.getElem?_append_left hlt, he])
    rw [List.foldl_cons, List.foldl_cons, List.length_cons, Pass.add_eq sound hlevel]
    refine ih (sound.place entry) ?_
    rwa [Level.toList_place, List.append_assoc, List.singleton_append]

/-- **The pass over the stored entries lays out the rows of the forest.** -/
theorem Table.ofStored_eq {entries : List (Entry α)} (numbered : NumberedFrom 0 entries) :
    Table.ofStored entries =
      (Lookup.mk entries (entries.foldl (fun level entry => level.place entry) .nil)).table := by
  have hnil : (Level.nil : Level α).Sound := trivial
  have hstart : Pass.ofLevel (Level.nil : Level α) entries.length =
      ⟨.empty, List.replicate entries.length .empty, []⟩ := rfl
  rw [Table.ofStored, ← hstart, Pass.foldl_add_eq hnil numbered, Pass.ofLevel, List.replicate_zero,
    List.append_nil]
  rfl

end Lookup

end ProjectLens
