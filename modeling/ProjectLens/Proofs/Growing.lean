import Mathlib.Data.List.Basic
import ProjectLens.Proofs.Drawing

/-! # Outlines of numbered items

Trees of expressions and models of documents keep their items in one list and refer to them by number.
In both the items below an item come right after it, subtree by subtree. Then the outline that grows
from an item holds what is below it, and outlines that grow one after the other hold all items, each of
them once and in order.

* `Outline.Consecutive`: numbers whose subtrees stand one after the other;
* `Outline.Unfolds`: the outlines below an item are those of the items below it;
* `Outline.grow_eq`, `Outline.Consecutive.items_grow`, `Outline.Consecutive.unfolds_grow`: what grows
  from such numbers. -/

namespace ProjectLens.Outline

variable {α : Type} {get? : Nat → Option α} {below : α → List Nat} {first inner stop size id : Nat}
  {ids more : List Nat} {item : α}

/-- **Numbers whose subtrees stand one after the other**, from the number `first` up to `stop`. -/
inductive Consecutive (get? : Nat → Option α) (below : α → List Nat) :
    Nat → List Nat → Nat → Prop where
  /-- No subtree takes up no number. -/
  | nil {first : Nat} : Consecutive get? below first [] first
  /-- An item is followed by the subtrees below it, and then by the others. -/
  | cons {id inner stop : Nat} {ids : List Nat} {item : α} : get? id = some item →
      Consecutive get? below (id + 1) (below item) inner → Consecutive get? below inner ids stop →
      Consecutive get? below id (id :: ids) stop

namespace Consecutive

/-- `Consecutive get? below first ids stop → first ≤ stop`. -/
theorem le (h : Consecutive get? below first ids stop) : first ≤ stop := by
  induction h with
  | nil => exact Nat.le_refl _
  | cons _ _ _ hinner hrest => omega

/-- Consecutive numbers that meet are consecutive together. -/
theorem append (h : Consecutive get? below first ids inner)
    (hmore : Consecutive get? below inner more stop) :
    Consecutive get? below first (ids ++ more) stop := by
  induction h with
  | nil => exact hmore
  | cons hget hbelow _ _ ih => exact .cons hget hbelow (ih hmore)

/-- Consecutive numbers lie between their ends. -/
theorem bounds (h : Consecutive get? below first ids stop) : ∀ id ∈ ids, first ≤ id ∧ id < stop := by
  induction h with
  | nil => simp
  | cons _ hbelow hrest _ ih =>
    have hinner := hbelow.le
    have hstop := hrest.le
    intro other hother
    rcases List.mem_cons.mp hother with rfl | hother
    · omega
    · have := ih other hother
      omega

/-- Other items that have the same numbers below them stand one after the other as well. -/
theorem transfer {β : Type} {get?' : Nat → Option β} {below' : β → List Nat}
    (h : Consecutive get? below first ids stop)
    (hget : ∀ {id : Nat} {item : α}, get? id = some item →
      ∃ other, get?' id = some other ∧ below' other = below item) :
    Consecutive get?' below' first ids stop := by
  induction h with
  | nil => exact .nil
  | cons hitem _ _ ihBelow ihRest =>
    obtain ⟨other, hother, hbelow⟩ := hget hitem
    rw [← hbelow] at ihBelow
    exact .cons hother ihBelow ihRest

end Consecutive

/-- **What grows from a number**, if the subtrees below it stand one after the other. -/
theorem grow_eq (hget : get? id = some item)
    (hbelow : Consecutive get? below (id + 1) (below item) inner) (hsize : inner ≤ size) :
    grow get? below size id = some (node item ((below item).filterMap (grow get? below size))) := by
  rw [grow, hget, Option.map_some]
  congr 2
  apply List.filterMap_congr
  intro next hnext
  have hbounds := hbelow.bounds next hnext
  rw [if_pos (by omega)]

/-- **The outlines below an item are those of the items below it**, all the way down. -/
inductive Unfolds (get? : Nat → Option α) (below : α → List Nat) : Outline α → Prop where
  /-- An item with the outlines of the items below it. -/
  | node {item : α} {outlines : List (Outline α)} :
      outlines.map (fun outline => some outline.root) = (below item).map get? →
      (∀ outline ∈ outlines, Unfolds get? below outline) → Unfolds get? below (node item outlines)

namespace Consecutive

variable (h : Consecutive get? below first ids stop)
include h

/-- **One outline grows from each number.** -/
theorem root_grow (hsize : stop ≤ size) :
    (ids.filterMap (grow get? below size)).map (fun outline => some outline.root) =
      ids.map get? := by
  induction h with
  | nil => rfl
  | cons hget hbelow hrest _ ih =>
    have hstop := hrest.le
    rw [List.filterMap_cons_some (grow_eq hget hbelow (by omega)), List.map_cons, ih hsize,
      List.map_cons, hget]
    rfl

/-- **All items between the first and the last number grow, each of them once**, in order. -/
theorem items_grow (hsize : stop ≤ size) :
    (itemsAll (ids.filterMap (grow get? below size))).map some =
      (List.range' first (stop - first)).map get? := by
  induction h with
  | nil => simp [itemsAll]
  | @cons id inner stop ids item hget hbelow hrest ihBelow ihRest =>
    have hinner := hbelow.le
    have hstop := hrest.le
    -- the item, what is below it, and what comes after it
    have hsplit : List.range' id (stop - id) =
        id :: (List.range' (id + 1) (inner - (id + 1)) ++ List.range' inner (stop - inner)) := by
      rw [show stop - id = (stop - (id + 1)) + 1 by omega, List.range'_succ,
        show stop - (id + 1) = (inner - (id + 1)) + (stop - inner) by omega, ← List.range'_append_1,
        show id + 1 + (inner - (id + 1)) = inner by omega]
    rw [List.filterMap_cons_some (grow_eq hget hbelow (by omega)), itemsAll, items, List.cons_append,
      List.map_cons, List.map_append, ihBelow (by omega), ihRest hsize, hsplit, List.map_cons,
      List.map_append, hget]

/-- What grows holds below each item the items below it. -/
theorem unfolds_grow (hsize : stop ≤ size) :
    ∀ outline ∈ ids.filterMap (grow get? below size), outline.Unfolds get? below := by
  induction h with
  | nil => simp
  | cons hget hbelow hrest ihBelow ihRest =>
    have hstop := hrest.le
    rw [List.filterMap_cons_some (grow_eq hget hbelow (by omega))]
    refine List.forall_mem_cons.mpr ⟨.node (hbelow.root_grow (by omega)) (ihBelow (by omega)),
      ihRest hsize⟩

omit h in
/-- **What grows from all items of an array holds each of them once**, in order. -/
theorem items_grow_array {items : Array α}
    (h : Consecutive (fun id => items[id]?) below 0 ids items.size) :
    itemsAll (ids.filterMap (grow (fun id => items[id]?) below items.size)) = items.toList := by
  have hall : (List.range' 0 items.size).map (fun id => items[id]?) = items.toList.map some := by
    apply List.ext_getElem
    · simp
    · intro i hi hi'
      simp only [List.length_map, List.length_range'] at hi
      simp [hi]
  exact List.map_injective_iff.mpr (fun _ _ => Option.some.inj)
    ((h.items_grow (Nat.le_refl _)).trans hall)

end Consecutive

end ProjectLens.Outline
