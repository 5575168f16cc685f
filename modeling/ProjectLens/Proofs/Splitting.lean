import Mathlib.Data.List.DropRight
import ProjectLens.Proofs.Separators

/-! # Plain lists split their text at semicolons

A plain list finds its semicolons among the tokens of a text, cuts white space off the slots between
them, and takes what lies between two items for a separator. What comes out is the text split at every
semicolon: each piece without the white space next to a semicolon is an item, and the rest of the
text, semicolons with white space around them, are the separators.

* `semicolonsFrom`, `semicolonSpans_lexFrom`: every semicolon of a text is a token;
* `semicolon_induction`: texts by the pieces between their semicolons;
* `trimPiece`, `SimpleList.CutTo`: what cutting white space off a slot leaves, and what it takes off;
* `Abut`, `ListChild.IsItem`, `ListChild.IsSeparator`: what the children of a plain list are;
* `Alternates`: items and separators in turn, each starting where the one before it stops;
* `SplitList`, `parseAs_splitList`: the tree of every text. -/

namespace ProjectLens

/-! ## Semicolons -/

/-- The places of the semicolons of a text, its first character standing at `offset`. -/
def semicolonsFrom (offset : Nat) : List Char → List Span
  | [] => []
  | c :: rest =>
    if c = ';' then ⟨offset, offset + 1⟩ :: semicolonsFrom (offset + 1) rest
    else semicolonsFrom (offset + 1) rest

section Semicolons

variable {left piece rest : List Char}

/-- Characters without `;` have no semicolons. -/
theorem semicolonsFrom_eq_nil (h : ';' ∉ left) (offset : Nat) : semicolonsFrom offset left = [] := by
  induction left generalizing offset with
  | nil => rfl
  | cons c left ih =>
    rw [List.mem_cons, not_or] at h
    rw [semicolonsFrom, if_neg (Ne.symm h.1), ih h.2]

/-- Where there is no semicolon, the first one comes later. -/
theorem semicolonsFrom_append (h : ';' ∉ left) (offset : Nat) (right : List Char) :
    semicolonsFrom offset (left ++ right) = semicolonsFrom (offset + left.length) right := by
  induction left generalizing offset with
  | nil => rfl
  | cons c left ih =>
    rw [List.mem_cons, not_or] at h
    rw [List.cons_append, semicolonsFrom, if_neg (Ne.symm h.1), ih h.2, List.length_cons,
      Nat.add_assoc, Nat.add_comm 1]

/-- A `;` in front is the first of the semicolons. -/
theorem semicolonsFrom_semicolon (offset : Nat) (rest : List Char) :
    semicolonsFrom offset (';' :: rest) = ⟨offset, offset + 1⟩ :: semicolonsFrom (offset + 1) rest :=
  if_pos rfl

/-- A run of characters with a property has none without it. -/
theorem not_mem_run {p : Char → Bool} {x c : Char} {run : List Char} (hx : p x = false)
    (hc : p c = true) (hrun : ∀ d ∈ run, p d = true) : x ∉ c :: run := by
  intro hmem
  have hpx : p x = true := by
    rcases List.mem_cons.mp hmem with rfl | hmem
    · exact hc
    · exact hrun x hmem
  rw [hx] at hpx
  cases hpx

/-- **No other token has a semicolon in it.** -/
theorem Token.Cut.semicolon_not_mem {token : Token} (h : token.Cut piece rest)
    (hne : token ≠ .semicolon) : ';' ∉ piece := by
  -- no run goes over a semicolon, and digits are none
  cases h with
  | @identifier c run _ hfirst hrun _ =>
    have hc : continuesName c = true := by rw [continuesName, hfirst, Bool.true_or]
    exact not_mem_run (p := continuesName) (by decide) hc hrun
  | number hfirst hrun _ => exact not_mem_run (by decide) hfirst hrun
  | whitespace hfirst hrun _ => exact not_mem_run (by decide) hfirst hrun
  | escape hhigh hlow =>
    have hnone : hexValue? ';' = none := by decide
    simp only [List.mem_cons, List.not_mem_nil, or_false, not_or]
    refine ⟨by decide, ?_, ?_⟩
    · rintro rfl
      rw [hnone] at hhigh
      cases hhigh
    · rintro rfl
      rw [hnone] at hlow
      cases hlow
  | mark hmark =>
    cases token with
    | semicolon => exact absurd rfl hne
    | escape _ | identifier _ | number _ | whitespace _ | other _ => cases hmark
    | _ => decide
  | other _ _ _ hpunctuation =>
    simp only [List.mem_singleton]
    rintro rfl
    cases hpunctuation

/-- **The semicolons among the tokens of a text are those of its characters.** -/
theorem semicolonSpans_lexFrom (offset : Nat) (chars : List Char) :
    semicolonSpans (lexFrom offset chars) = semicolonsFrom offset chars := by
  induction offset, chars using lexFrom_induction with
  | nil offset => rfl
  | cons offset token piece rest hcut ih =>
    -- a semicolon is a token of its own, and any other token has none in it
    by_cases hsemicolon : token = .semicolon
    · subst hsemicolon
      cases hcut with
      | mark _ =>
        rw [semicolonSpans_cons rfl, ih]
        exact (semicolonsFrom_semicolon offset rest).symm
    · rw [semicolonSpans_cons_of_ne hsemicolon, ih,
        semicolonsFrom_append (hcut.semicolon_not_mem hsemicolon)]

end Semicolons

/-! ## Pieces -/

/-- **Texts by their pieces**: a text without semicolons, or one piece in front of a semicolon and
another text. -/
theorem semicolon_induction {motive : List Char → Prop}
    (last : ∀ piece, ';' ∉ piece → motive piece)
    (step : ∀ piece rest, ';' ∉ piece → motive rest → motive (piece ++ ';' :: rest))
    (chars : List Char) : motive chars := by
  -- the first piece grows by one character at a time
  suffices h : ∀ piece, ';' ∉ piece → motive (piece ++ chars) from h [] List.not_mem_nil
  induction chars with
  | nil =>
    intro piece hpiece
    rw [List.append_nil]
    exact last piece hpiece
  | cons c rest ih =>
    intro piece hpiece
    by_cases hc : c = ';'
    · subst hc
      exact step piece rest hpiece (ih [] List.not_mem_nil)
    · have hgrown : ';' ∉ piece ++ [c] := by simp [hpiece, Ne.symm hc]
      have := ih (piece ++ [c]) hgrown
      rwa [List.append_assoc] at this

/-- A piece without `;` is not split. -/
theorem splitOn_last {piece : List Char} (h : ';' ∉ piece) : piece.splitOn ';' = [piece] := by
  refine List.splitOnP_eq_singleton fun c hc => ?_
  rw [beq_eq_false_iff_ne]
  rintro rfl
  exact h hc

/-- The first piece of a split is what comes before the first `;`. -/
theorem splitOn_step {piece : List Char} (h : ';' ∉ piece) (rest : List Char) :
    (piece ++ ';' :: rest).splitOn ';' = piece :: rest.splitOn ';' := by
  refine List.splitOnP_append_cons_of_forall_mem (fun c hc => ?_) ';' rfl rest
  rw [beq_eq_false_iff_ne]
  rintro rfl
  exact h hc

/-- There is one piece more than semicolons. -/
theorem length_splitOn (chars : List Char) :
    (chars.splitOn ';').length = chars.count ';' + 1 := by
  induction chars using semicolon_induction with
  | last piece hpiece => rw [splitOn_last hpiece, List.count_eq_zero_of_not_mem hpiece]; rfl
  | step piece rest hpiece ih =>
    rw [splitOn_step hpiece, List.length_cons, ih, List.count_append,
      List.count_eq_zero_of_not_mem hpiece, List.count_cons_self, Nat.zero_add]

/-- **A piece without the white space next to semicolons**, which are at its front unless it is the
first one, and at its back unless it is the last one. -/
def trimPiece (first last : Bool) (piece : List Char) : List Char :=
  let front := if first then piece else piece.dropWhile isBlank
  if last then front else front.rdropWhile isBlank

/-! ## Slots -/

namespace SimpleList

variable {chars left right : List Char} {a b : Nat}

/-- A stretch of a text is cut where its characters are. -/
theorem charsOf_cut (hb : b ≤ chars.length) (hab : a ≤ b) (h : charsOf chars ⟨a, b⟩ = left ++ right) :
    charsOf chars ⟨a, a + left.length⟩ = left ∧ charsOf chars ⟨a + left.length, b⟩ = right ∧
      a + left.length + right.length = b := by
  have hlength := length_charsOf (a := a) hb
  rw [h, List.length_append] at hlength
  have hcut : charsOf chars ⟨a, b⟩ =
      charsOf chars ⟨a, a + left.length⟩ ++ charsOf chars ⟨a + left.length, b⟩ :=
    charsOf_append (by omega) (by omega)
  -- both ways to cut have fronts of one length, so they are the same
  have hfront : (charsOf chars ⟨a, a + left.length⟩).length = left.length := by
    rw [length_charsOf (by omega)]
    omega
  obtain ⟨hleft, hright⟩ := List.append_inj (hcut.symm.trans h) hfront
  exact ⟨hleft, hright, by omega⟩

/-- **What is cut off a slot** is white space on both sides. -/
structure CutTo (chars : List Char) (slot core : Span) (piece : List Char) : Prop where
  /-- What is left lies in the slot. -/
  within : Within slot core
  /-- The characters that are left. -/
  chars_eq : charsOf chars core = piece
  /-- What is cut off at the front is white space. -/
  front : ∀ c ∈ charsOf chars ⟨slot.start, core.start⟩, isBlank c = true
  /-- What is cut off at the back is white space. -/
  back : ∀ c ∈ charsOf chars ⟨core.stop, slot.stop⟩, isBlank c = true

variable {slot : Span} (hslot : slot.start ≤ slot.stop) (hlength : slot.stop ≤ chars.length)

include hslot in
/-- A slot that is not trimmed is cut to itself. -/
theorem cutTo_self : CutTo chars slot slot (charsOf chars slot) where
  within := ⟨Nat.le_refl _, hslot, Nat.le_refl _⟩
  chars_eq := rfl
  front := by simp [charsOf_self]
  back := by simp [charsOf_self]

include hslot hlength in
/-- Cutting off the front takes all the white space there. -/
theorem cutTo_trimStart :
    CutTo chars slot (trimStart chars slot) ((charsOf chars slot).dropWhile isBlank) ∧
      (trimStart chars slot).stop = slot.stop := by
  obtain ⟨hfront, hrest, -⟩ := charsOf_cut hlength hslot
    (List.takeWhile_append_dropWhile (p := isBlank) (l := charsOf chars slot)).symm
  refine ⟨⟨trimStart_within chars hslot, hrest, ?_, ?_⟩, rfl⟩
  · show ∀ c ∈ charsOf chars ⟨slot.start, slot.start + _⟩, _
    rw [hfront]
    exact List.all_eq_true.mp List.all_takeWhile
  · show ∀ c ∈ charsOf chars ⟨slot.stop, slot.stop⟩, _
    simp [charsOf_self]

include hslot hlength in
/-- Cutting off the back takes all the white space there. -/
theorem cutTo_trimStop :
    CutTo chars slot (trimStop chars slot) ((charsOf chars slot).rdropWhile isBlank) := by
  -- read backwards, what is cut off comes first
  have hsplit : charsOf chars slot = (charsOf chars slot).rdropWhile isBlank ++
      ((charsOf chars slot).reverse.takeWhile isBlank).reverse := by
    rw [List.rdropWhile, ← List.reverse_append, List.takeWhile_append_dropWhile,
      List.reverse_reverse]
  obtain ⟨hrest, hback, hsum⟩ := charsOf_cut hlength hslot hsplit
  rw [List.length_reverse] at hsum
  have hstop : trimStop chars slot =
      ⟨slot.start, slot.start + ((charsOf chars slot).rdropWhile isBlank).length⟩ := by
    rw [trimStop, ← hsum, Nat.add_sub_cancel]
  refine ⟨trimStop_within chars hslot, ?_, ?_, ?_⟩
  · rw [hstop]
    exact hrest
  · rw [hstop]
    simp [charsOf_self]
  · rw [hstop, hback]
    intro c hc
    exact List.all_eq_true.mp List.all_takeWhile c (List.mem_reverse.mp hc)

/-- What is cut off in two steps. -/
theorem CutTo.trans {middle core : Span} {piece piece' : List Char}
    (h : CutTo chars slot middle piece) (h' : CutTo chars middle core piece') :
    CutTo chars slot core piece' where
  within := h.within.trans h'.within
  chars_eq := h'.chars_eq
  front := by
    rw [charsOf_append h.within.start_le h'.within.start_le]
    intro c hc
    exact (List.mem_append.mp hc).elim (h.front c) (h'.front c)
  back := by
    rw [charsOf_append h'.within.le_stop h.within.le_stop]
    intro c hc
    exact (List.mem_append.mp hc).elim (h'.back c) (h.back c)

include hslot hlength in
/-- **The item of the first slot.** -/
theorem cutTo_firstCore (alone : Bool) :
    CutTo chars slot (firstCore chars alone slot) (trimPiece true alone (charsOf chars slot)) := by
  cases alone with
  | true => exact cutTo_self hslot
  | false => exact cutTo_trimStop hslot hlength

include hslot hlength in
/-- **The item of a later slot.** If nothing is left, it is at the end of the slot. -/
theorem cutTo_laterCore (last : Bool) :
    CutTo chars slot (laterCore chars last slot) (trimPiece false last (charsOf chars slot)) := by
  obtain ⟨hfront, hstop⟩ := cutTo_trimStart hslot hlength
  show CutTo chars slot _ (if last then (charsOf chars slot).dropWhile isBlank
    else ((charsOf chars slot).dropWhile isBlank).rdropWhile isBlank)
  rw [laterCore]
  by_cases hempty : (trimStart chars slot).isEmpty = true
  · -- a slot of white space only, all of it cut off at the front
    have hle : (trimStart chars slot).stop ≤ (trimStart chars slot).start := of_decide_eq_true hempty
    have hstart : (trimStart chars slot).start = slot.stop := by
      have := hfront.within.ordered
      omega
    have hnil : (charsOf chars slot).dropWhile isBlank = [] := by
      rw [← hfront.chars_eq, charsOf, Span.length, Nat.sub_eq_zero_of_le hle, List.take_zero]
    have hblank := hfront.front
    rw [hstart] at hblank
    rw [if_pos hempty, hnil, List.rdropWhile_nil, ite_self]
    refine ⟨⟨hslot, Nat.le_refl _, Nat.le_refl _⟩, charsOf_self .., hblank, ?_⟩
    show ∀ c ∈ charsOf chars ⟨slot.stop, slot.stop⟩, _
    simp [charsOf_self]
  · rw [if_neg hempty]
    cases last with
    | true => exact hfront
    | false =>
      have hback := cutTo_trimStop hfront.within.ordered (hstop ▸ hlength)
      rw [hfront.chars_eq] at hback
      exact hfront.trans hback

/-- The characters of the middle of three parts. -/
theorem charsOf_middle (front piece back : List Char) :
    charsOf (front ++ (piece ++ back)) ⟨front.length, front.length + piece.length⟩ = piece := by
  rw [charsOf, Span.length, Nat.add_sub_cancel_left, List.drop_left, List.take_left]

end SimpleList

/-! ## Items and separators -/

/-- **Spans that stand end to end** from `start` to `stop`; some may be empty. -/
def Abut : Nat → List Span → Nat → Prop
  | start, [], stop => start = stop
  | start, span :: rest, stop =>
    span.start = start ∧ span.start ≤ span.stop ∧ Abut span.stop rest stop

namespace ListChild

open SimpleList

/-- **The child is the item of some characters**, and an empty item if there are none. -/
structure IsItem (child : ListChild) (chars piece : List Char) : Prop where
  /-- It stands over them. -/
  text : charsOf chars child.span = piece
  /-- It says what they are. -/
  kind : child.kind = if piece = [] then .emptyItem else .simpleItem (String.ofList piece)

/-- **The child is the separator of a semicolon** that has `k` others before it in the text. The
semicolon is `offset` characters from the start of the separator, and there is only white space around
it. -/
structure IsSeparator (child : ListChild) (chars : List Char) (k offset : Nat) : Prop where
  /-- It says where its semicolon is. -/
  kind : child.kind = .separator offset
  /-- It is a semicolon between white space, so the offset counts from a place before it. -/
  spelled : ∃ before after, charsOf chars child.span = before ++ ';' :: after ∧
    before.length = offset ∧ ∀ c ∈ before ++ after, isBlank c = true
  /-- So many semicolons come earlier. -/
  earlier : (chars.take (child.span.start + offset)).count ';' = k

/-- The item of a core is an item of the list over that core's characters. -/
theorem isItem_item {chars : List Char} {core : Span} (hlength : core.stop ≤ chars.length) :
    (item chars core).asChild.IsItem chars (charsOf chars core) := by
  have hchars : (charsOf chars core).length = core.stop - core.start := length_charsOf hlength
  have hempty : core.isEmpty = true ↔ charsOf chars core = [] := by
    rw [← List.length_eq_zero_iff, hchars, Nat.sub_eq_zero_iff_le]
    exact decide_eq_true_iff
  refine ⟨congrArg (charsOf chars) (span_item chars core), ?_⟩
  rw [item]
  by_cases h : charsOf chars core = []
  · rw [if_pos (hempty.mpr h), if_pos h]
    rfl
  · rw [if_neg (mt hempty.mp h), if_neg h]
    rfl

end ListChild

/-- **Items and separators in turn**, each of them starting where the one before it stops, from the
item of a piece that has `k` semicolons before it to the end of the text. -/
inductive Alternates (chars : List Char) : Nat → Nat → List (List Char) → List ListChild → Prop where
  /-- The item of the last piece. -/
  | last {k start : Nat} {piece : List Char} {item : ListChild} :
      item.IsItem chars (trimPiece (k = 0) true piece) → item.span.start = start →
      item.span.start ≤ item.span.stop → item.span.stop = chars.length →
      Alternates chars k start [piece] [item]
  /-- The item of a piece, and the separator after it. -/
  | step {k start offset : Nat} {piece : List Char} {pieces : List (List Char)}
      {item separator : ListChild} {children : List ListChild} :
      item.IsItem chars (trimPiece (k = 0) false piece) → item.span.start = start →
      item.span.start ≤ item.span.stop →
      separator.IsSeparator chars k offset → separator.span.start = item.span.stop →
      separator.span.start ≤ separator.span.stop →
      Alternates chars (k + 1) separator.span.stop pieces children →
      Alternates chars k start (piece :: pieces) (item :: separator :: children)

namespace Alternates

variable {chars piece : List Char} {k start i : Nat} {pieces : List (List Char)}
  {children : List ListChild}

/-- Children that alternate abut, from the start to the end of the text. -/
theorem abut (h : Alternates chars k start pieces children) :
    Abut start (children.map ListChild.span) chars.length := by
  induction h with
  | last _ hstart hordered hstop => exact ⟨hstart, hordered, hstop⟩
  | step _ hstart hordered _ htouches hordered' _ ih =>
    exact ⟨hstart, hordered, htouches, hordered', ih⟩

/-- `children.length + 1 = 2 * pieces.length`: one separator less than pieces. -/
theorem length_eq (h : Alternates chars k start pieces children) :
    children.length + 1 = 2 * pieces.length := by
  induction h with
  | last _ _ _ _ => rfl
  | step _ _ _ _ _ _ _ ih =>
    simp only [List.length_cons]
    omega

/-- **Every piece has its item**, and separators stand between the items. -/
theorem exists_item (h : Alternates chars k start pieces children)
    (hpiece : pieces[i]? = some piece) : ∃ child, children[2 * i]? = some child ∧
      child.IsItem chars (trimPiece (k + i = 0) (i + 1 = pieces.length) piece) := by
  induction h generalizing i with
  | @last k start first item hitem _ _ _ =>
    cases i with
    | zero =>
      cases hpiece
      exact ⟨item, rfl, hitem⟩
    | succ i => cases hpiece
  | @step k start offset first pieces item separator children hitem _ _ _ _ _ hlater ih =>
    cases i with
    | zero =>
      cases hpiece
      -- the relation has at least one piece, so this one is not the last
      have hmore : 0 + 1 ≠ (piece :: pieces).length := by
        have := hlater.length_eq
        rw [List.length_cons]
        omega
      rw [decide_eq_false hmore]
      exact ⟨item, rfl, hitem⟩
    | succ i =>
      obtain ⟨child, hchild, hitem⟩ := ih hpiece
      rw [Nat.add_right_comm k 1 i] at hitem
      refine ⟨child, hchild, ?_⟩
      simpa using hitem

/-- **Every semicolon has its separator.** -/
theorem exists_separator (h : Alternates chars k start pieces children) (hi : i + 1 < pieces.length) :
    ∃ child offset, children[2 * i + 1]? = some child ∧ child.IsSeparator chars (k + i) offset := by
  induction h generalizing i with
  | last _ _ _ _ => simp at hi
  | @step k start offset first pieces item separator children _ _ _ hseparator _ _ _ ih =>
    cases i with
    | zero => exact ⟨separator, offset, rfl, hseparator⟩
    | succ i =>
      obtain ⟨child, offset, hchild, hseparator⟩ := ih (Nat.lt_of_succ_lt_succ hi)
      rw [Nat.add_right_comm k 1 i] at hseparator
      exact ⟨child, offset, hchild, hseparator⟩

end Alternates

/-! ## Plain lists -/

namespace SimpleList

variable {chars : List Char}

/-- The slot of the first piece of what is left of a text. -/
theorem slotStop_bounds {front rest : List Char} (hchars : chars = front ++ rest) :
    front.length ≤ slotStop chars.length (semicolonsFrom front.length rest) ∧
      slotStop chars.length (semicolonsFrom front.length rest) ≤ chars.length := by
  have hspread := (lexFrom_tiles front.length rest).semicolonSpans_spread
  rw [semicolonSpans_lexFrom, ← List.length_append, ← hchars] at hspread
  obtain ⟨hle, hlater⟩ := slotStop_le hspread
  exact ⟨hle, hlater.le⟩

/-- The item of the next piece of a text, which starts at `start` and has semicolons after it. -/
def nextCore (chars : List Char) (first : Bool) (start : Nat) (semicolons : List Span) : Span :=
  if first then firstCore chars semicolons.isEmpty ⟨start, slotStop chars.length semicolons⟩
  else laterCore chars semicolons.isEmpty ⟨start, slotStop chars.length semicolons⟩

/-- **The item of the next piece is cut off its slot.** -/
theorem cutTo_nextCore (first : Bool) {front rest : List Char} (hchars : chars = front ++ rest) :
    CutTo chars ⟨front.length, slotStop chars.length (semicolonsFrom front.length rest)⟩
      (nextCore chars first front.length (semicolonsFrom front.length rest))
      (trimPiece first (semicolonsFrom front.length rest).isEmpty
        (charsOf chars ⟨front.length, slotStop chars.length (semicolonsFrom front.length rest)⟩)) := by
  obtain ⟨hslot, hlength⟩ := slotStop_bounds hchars
  cases first with
  | true => exact cutTo_firstCore hslot hlength _
  | false => exact cutTo_laterCore hslot hlength _

/-- Nothing is cut off at the end of a text. -/
theorem stop_nextCore (first : Bool) (start : Nat) :
    (nextCore chars first start []).stop = chars.length := by
  cases first with
  | true => rfl
  | false =>
    show (laterCore chars true ⟨start, chars.length⟩).stop = _
    rw [laterCore]
    split <;> rfl

/-- **A semicolon between two items makes a separator.** The item before it was cut off its slot, and
so was the item after it. -/
theorem isSeparator_between {front piece rest word word' : List Char} {core core' : Span} {stop : Nat}
    (hpiece : ';' ∉ piece) (hchars : chars = front ++ (piece ++ ';' :: rest))
    (hcore : CutTo chars ⟨front.length, front.length + piece.length⟩ core word)
    (hcore' : CutTo chars ⟨front.length + piece.length + 1, stop⟩ core' word') :
    (separatorExpr (front.length + piece.length) ⟨core.stop, core'.start⟩).asChild.IsSeparator chars
      (front.count ';') (front.length + piece.length - core.stop) := by
  have hbefore : core.stop ≤ front.length + piece.length := hcore.within.le_stop
  have hafter : front.length + piece.length + 1 ≤ core'.start := hcore'.within.start_le
  have hinside : front.length + piece.length ≤ chars.length := by
    rw [hchars, List.length_append, List.length_append]
    omega
  -- between the two cores there is white space, one semicolon and white space
  have hsemicolon : charsOf chars
      ⟨front.length + piece.length, front.length + piece.length + 1⟩ = [';'] := by
    rw [hchars, ← List.append_assoc, ← List.length_append]
    exact charsOf_middle (front ++ piece) [';'] rest
  refine ⟨rfl, ⟨charsOf chars ⟨core.stop, front.length + piece.length⟩,
    charsOf chars ⟨front.length + piece.length + 1, core'.start⟩, ?_, length_charsOf hinside, ?_⟩, ?_⟩
  · show charsOf chars ⟨core.stop, core'.start⟩ = _
    rw [charsOf_append hbefore (by omega), charsOf_append (Nat.le_succ _) hafter, hsemicolon]
    rfl
  · intro c hc
    exact (List.mem_append.mp hc).elim (hcore.back c) (hcore'.front c)
  · show (chars.take (core.stop + (front.length + piece.length - core.stop))).count ';' = _
    rw [Nat.add_sub_cancel' hbefore, hchars, ← List.append_assoc, ← List.length_append,
      List.take_left, List.count_append, List.count_eq_zero_of_not_mem hpiece, Nat.add_zero]

/-- **From an item on, a plain list alternates.** The text is read up to `front`, and `core` is the
item of the next piece. -/
theorem alternates_later (rest : List Char) : ∀ (front : List Char) (core : Span),
    chars = front ++ rest →
    core = nextCore chars (front.count ';' = 0) front.length (semicolonsFrom front.length rest) →
    Alternates chars (front.count ';') core.start (rest.splitOn ';')
      ((item chars core :: later chars chars.length core.stop
        (semicolonsFrom front.length rest)).map Expr.asChild) := by
  -- over the pieces that are left; a round moves one of them and its semicolon to the front
  induction rest using semicolon_induction with
  | last piece hpiece =>
    intro front core hchars hcore
    have hcut := cutTo_nextCore (front.count ';' = 0) hchars
    have hpieceOf : charsOf chars ⟨front.length, chars.length⟩ = piece := by
      have hmiddle := charsOf_middle front piece []
      rwa [List.append_nil, ← List.length_append, ← hchars] at hmiddle
    rw [← hcore, semicolonsFrom_eq_nil hpiece] at hcut
    rw [semicolonsFrom_eq_nil hpiece] at hcore ⊢
    rw [splitOn_last hpiece]
    have hspan : (item chars core).asChild.span = core := span_item chars core
    have hstop : core.stop = chars.length := by rw [hcore, stop_nextCore]
    have hitem := ListChild.isItem_item (Nat.le_of_eq hstop)
    rw [hcut.chars_eq, slotStop, hpieceOf] at hitem
    refine .last hitem ?_ ?_ ?_ <;> rw [hspan]
    · exact hcut.within.ordered
    · exact hstop
  | step piece rest hpiece ih =>
    intro front core hchars hcore
    have hcut := cutTo_nextCore (front.count ';' = 0) hchars
    have hsemicolons : semicolonsFrom front.length (piece ++ ';' :: rest) =
        ⟨front.length + piece.length, front.length + piece.length + 1⟩ ::
          semicolonsFrom (front.length + piece.length + 1) rest := by
      rw [semicolonsFrom_append hpiece, semicolonsFrom_semicolon]
    have hpieceOf : charsOf chars ⟨front.length, front.length + piece.length⟩ = piece := by
      rw [hchars]
      exact charsOf_middle front piece _
    rw [← hcore, hsemicolons] at hcut
    -- the text is read up to the semicolon, and goes on with a slot that is not the first
    have hchars' : chars = (front ++ (piece ++ [';'])) ++ rest := by simp [hchars]
    have hlength : (front ++ (piece ++ [';'])).length = front.length + piece.length + 1 := by
      simp [Nat.add_assoc]
    have hcount : (front ++ (piece ++ [';'])).count ';' = front.count ';' + 1 := by
      simp [List.count_eq_zero_of_not_mem hpiece]
    have hlater := ih (front ++ (piece ++ [';'])) _ hchars' rfl
    have hcut' := cutTo_nextCore false hchars'
    rw [hlength, hcount, decide_eq_false (Nat.succ_ne_zero _)] at hlater
    rw [hlength] at hcut'
    have hspan : (item chars core).asChild.span = core := span_item chars core
    have hstop : core.stop ≤ front.length + piece.length := hcut.within.le_stop
    have hbound := (slotStop_bounds hchars).2
    rw [hsemicolons] at hbound
    have hitem := ListChild.isItem_item (Nat.le_trans hcut.within.le_stop hbound)
    rw [hcut.chars_eq, slotStop, hpieceOf] at hitem
    rw [splitOn_step hpiece, hsemicolons, later]
    refine .step hitem ?_ ?_ (isSeparator_between hpiece hchars hcut hcut') ?_ ?_ hlater
    · rw [hspan]
    · rw [hspan]
      exact hcut.within.ordered
    · rw [hspan]
      rfl
    · exact Nat.le_trans hstop (Nat.le_trans (Nat.le_succ _) hcut'.within.start_le)

end SimpleList

/-- **The children of a plain list** are the items of all pieces of its text, with separators between
them. -/
theorem alternates_simpleListExpr (chars : List Char) :
    Alternates chars 0 0 (chars.splitOn ';')
      ((simpleListExpr chars (semicolonsFrom 0 chars)).children.map Expr.asChild) := by
  have h := SimpleList.alternates_later chars [] _ rfl rfl
  have hstart : (SimpleList.nextCore chars true 0 (semicolonsFrom 0 chars)).start = 0 := by
    show (SimpleList.firstCore chars _ _).start = 0
    rw [SimpleList.firstCore]
    split <;> rfl
  rw [List.nil_append, List.count_nil, List.length_nil, decide_eq_true rfl, hstart] at h
  exact h

/-- **A plain list is its text split at the semicolons**, the pieces without the white space next to
semicolons. -/
structure SplitList (text : String) (root : ExprNode) (children : List ExprNode) : Prop where
  /-- The root is a plain list. -/
  kind : root.kind = .simpleList
  /-- It stands over the whole text. -/
  span : root.span = ⟨0, text.length⟩
  /-- There is one separator for each semicolon, and one item more. -/
  length : children.length = 2 * text.toList.count ';' + 1
  /-- The children stand end to end over the whole text. -/
  abut : Abut 0 (children.map ExprNode.span) text.length
  /-- Every other child is an item, the first and the last one included. -/
  item : ∀ k piece, (text.toList.splitOn ';')[k]? = some piece →
    ∃ child, children[2 * k]? = some child ∧ child.asChild.IsItem text.toList
      (trimPiece (k = 0) (k = text.toList.count ';') piece)
  /-- Between them are the separators, one for each semicolon. -/
  separator : ∀ k < text.toList.count ';', ∃ child offset, children[2 * k + 1]? = some child ∧
    child.asChild.IsSeparator text.toList k offset

/-- Items and separators in turn are what the pieces of a text make. -/
theorem splitList_of_alternates {text : String} {root : ExprNode} {children : List ExprNode}
    (hkind : root.kind = .simpleList) (hspan : root.span = ⟨0, text.length⟩)
    (h : Alternates text.toList 0 0 (text.toList.splitOn ';') (children.map ExprNode.asChild)) :
    SplitList text root children := by
  have hpieces := length_splitOn text.toList
  -- a child of the list is that of a node
  have node_of {i : Nat} {child : ListChild} (hi : (children.map ExprNode.asChild)[i]? = some child) :
      ∃ node, children[i]? = some node ∧ node.asChild = child := by
    rw [List.getElem?_map] at hi
    exact Option.map_eq_some_iff.mp hi
  refine ⟨hkind, hspan, ?_, ?_, ?_, ?_⟩
  · have hlength := h.length_eq
    rw [List.length_map, hpieces] at hlength
    omega
  · have habut := h.abut
    rwa [List.map_map, String.length_toList] at habut
  · intro k piece hpiece
    obtain ⟨child, hchild, hitem⟩ := h.exists_item hpiece
    obtain ⟨node, hnode, rfl⟩ := node_of hchild
    simp only [hpieces, Nat.zero_add, Nat.add_right_cancel_iff] at hitem
    exact ⟨node, hnode, hitem⟩
  · intro k hk
    obtain ⟨child, offset, hchild, hseparator⟩ := h.exists_separator (i := k) (by omega)
    obtain ⟨node, hnode, rfl⟩ := node_of hchild
    rw [Nat.zero_add] at hseparator
    exact ⟨node, offset, hnode, hseparator⟩

/-- **A plain list never fails, and splits its text at the semicolons.** -/
theorem parseAs_splitList (text : String) : ∃ tree root, parseAs .simpleList text = .ok tree ∧
    tree.root? = some root ∧ SplitList text root (tree.childrenOf root) := by
  have hsemicolons : semicolonSpans (lex text) = semicolonsFrom 0 text.toList :=
    semicolonSpans_lexFrom 0 text.toList
  have hplain : parseExpr .simpleList text =
      .ok (simpleListExpr text.toList (semicolonsFrom 0 text.toList)) := by
    rw [parseExpr, Grammar.simpleList_parse, hsemicolons]
    rfl
  obtain ⟨root, hroot, hchildren⟩ := ExprTree.exists_root_asChild (parseExpr_wellFormed hplain).1
  -- the root is numbered first, and it is the list
  obtain ⟨root', hroot', hbare⟩ := ExprTree.exists_root?_of_expr
    (simpleListExpr text.toList (semicolonsFrom 0 text.toList))
  obtain rfl : root' = root := Option.some.inj (hroot'.symm.trans hroot)
  refine ⟨_, root', parseAs_eq_ok.mpr ⟨_, hplain, rfl⟩, hroot, splitList_of_alternates ?_ ?_ ?_⟩
  · show root'.bare.kind = _
    rw [hbare]
    rfl
  · rw [← root'.span_bare, hbare, Expr.span_rootNode 0 (Nat.zero_le _), ← String.length_toList]
    rfl
  · rw [hchildren]
    exact alternates_simpleListExpr text.toList

end ProjectLens
