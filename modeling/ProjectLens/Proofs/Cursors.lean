import ProjectLens.Markup.Scanner

/-! # Where reading steps lead

Every reading step that succeeds takes some characters from the front of what is left and goes on
right after them. So the text between two cursors is what was taken between them, and offsets never
have to be computed again.

* `Cursor.Leads c taken later`: reading `taken` from `c` leads to `later`; `Cursor.Reaches`: some
  characters lead there;
* one law for each reading step, up to `Cursor.qualifiedName`;
* `charsBefore_of_stop`: a run is read whole, up to where it stops. -/

namespace ProjectLens.Markup

/-- A sequence of two steps succeeds when both do. -/
theorem bind_eq_ok {ε α β : Type} {x : Except ε α} {f : α → Except ε β} {b : β} :
    x >>= f = .ok b ↔ ∃ a, x = .ok a ∧ f a = .ok b := by
  cases x with
  | error cause => simp [bind, Except.bind]
  | ok a => simp [bind, Except.bind]

/-- A run with a property ends before the first character without it. -/
theorem takeWhile_run {p : Char → Bool} {run tail : List Char} (hrun : ∀ c ∈ run, p c = true)
    (htail : tail.head?.any p = false) : (run ++ tail).takeWhile p = run := by
  rw [List.takeWhile_append_of_pos hrun]
  cases tail with
  | nil => rw [List.takeWhile_nil, List.append_nil]
  | cons c rest =>
    have hc : p c = false := htail
    rw [List.takeWhile_cons_of_neg (Bool.eq_false_iff.mp hc), List.append_nil]

/-- `(run ++ tail).dropWhile p = tail` where `p` holds all along `run` and stops at `tail`. -/
theorem dropWhile_run {p : Char → Bool} {run tail : List Char} (hrun : ∀ c ∈ run, p c = true)
    (htail : tail.head?.any p = false) : (run ++ tail).dropWhile p = tail := by
  rw [List.dropWhile_append_of_pos hrun]
  cases tail with
  | nil => rfl
  | cons c rest =>
    have hc : p c = false := htail
    rw [List.dropWhile_cons_of_neg (Bool.eq_false_iff.mp hc)]

namespace Cursor

/-- **Reading leads from a cursor to a later one**: it takes the characters between them. -/
structure Leads (c : Cursor) (taken : List Char) (later : Cursor) : Prop where
  /-- What is left is what was taken and then what is left later. -/
  rest_eq : c.rest = taken ++ later.rest
  /-- Offsets count characters. -/
  offset_eq : later.offset = c.offset + taken.length

/-- Some characters lead from a cursor to a later one. -/
def Reaches (c later : Cursor) : Prop := ∃ taken, c.Leads taken later

variable {c d e : Cursor} {taken more : List Char}

/-- `c.Leads [] c`: a cursor leads to itself over nothing. -/
theorem Leads.refl (c : Cursor) : c.Leads [] c := ⟨rfl, rfl⟩

/-- `c.Leads taken d → d.Leads more e → c.Leads (taken ++ more) e`. -/
theorem Leads.trans (h : c.Leads taken d) (h' : d.Leads more e) : c.Leads (taken ++ more) e where
  rest_eq := by rw [h.rest_eq, h'.rest_eq, List.append_assoc]
  offset_eq := by rw [h'.offset_eq, h.offset_eq, List.length_append, Nat.add_assoc]

/-- `c.Leads taken d → c.Reaches d`. -/
theorem Leads.reaches (h : c.Leads taken d) : c.Reaches d := ⟨taken, h⟩

/-- `c.Leads taken d → c.offset ≤ d.offset`. -/
theorem Leads.le (h : c.Leads taken d) : c.offset ≤ d.offset := by
  have := h.offset_eq
  omega

/-- `c.Leads taken d → taken ≠ [] → c.offset < d.offset`. -/
theorem Leads.lt (h : c.Leads taken d) (filled : taken ≠ []) : c.offset < d.offset := by
  have := h.offset_eq
  have := List.length_pos_iff.mpr filled
  omega

/-- What is taken and what is left later together make up what is left. -/
theorem Leads.length_eq (h : c.Leads taken d) :
    c.offset + c.rest.length = d.offset + d.rest.length := by
  rw [h.rest_eq, h.offset_eq, List.length_append, Nat.add_assoc]

/-- `c.Reaches c`. -/
theorem Reaches.refl (c : Cursor) : c.Reaches c := (Leads.refl c).reaches

/-- `c.Reaches d → d.Reaches e → c.Reaches e`. -/
theorem Reaches.trans (h : c.Reaches d) (h' : d.Reaches e) : c.Reaches e := by
  obtain ⟨taken, h⟩ := h
  obtain ⟨more, h'⟩ := h'
  exact (h.trans h').reaches

/-- `c.Reaches d → c.offset ≤ d.offset`: the offset never goes back. -/
theorem Reaches.le (h : c.Reaches d) : c.offset ≤ d.offset := by
  obtain ⟨taken, h⟩ := h
  exact h.le

/-! ## Single steps -/

/-- Advancing takes characters, as long as there are so many. -/
theorem advance_leads {count : Nat} (h : count ≤ c.rest.length) :
    c.Leads (c.rest.take count) (c.advance count) where
  rest_eq := (List.take_append_drop count c.rest).symm
  offset_eq := by
    rw [List.length_take, Nat.min_eq_left h]
    rfl

/-- `c.Leads (c.takeWhile p).1 (c.takeWhile p).2`: the cursor behind a run is past exactly that
run. -/
theorem takeWhile_leads (c : Cursor) (p : Char → Bool) :
    c.Leads (c.takeWhile p).1 (c.takeWhile p).2 where
  rest_eq := List.takeWhile_append_dropWhile.symm
  offset_eq := rfl

/-- `c.Reaches c.skipSpaces`. -/
theorem skipSpaces_reaches (c : Cursor) : c.Reaches c.skipSpaces :=
  (c.takeWhile_leads isSpace).reaches

/-- A text that comes next is no longer than what is left. -/
theorem length_le_of_startsWith {text : String} (h : c.startsWith text = true) :
    text.length ≤ c.rest.length := by
  have := (List.isPrefixOf_iff_prefix.mp h).length_le
  rwa [String.length_toList] at this

/-- `c.peek = .ok found` finds the first of what is ahead. -/
theorem peek_eq_ok {found : Char} (h : c.peek = .ok found) : ∃ rest, c.rest = found :: rest := by
  unfold peek at h
  split at h
  · cases h
  · next rest hrest =>
    cases h
    exact ⟨rest, hrest⟩

/-- One character leads to the next place. -/
theorem advance_one_leads {found : Char} (h : c.peek = .ok found) :
    c.Leads [found] (c.advance 1) := by
  obtain ⟨rest, hrest⟩ := peek_eq_ok h
  have hroom : 1 ≤ c.rest.length := by
    rw [hrest]
    simp
  have hleads := c.advance_leads hroom
  rw [hrest] at hleads
  exact hleads

/-- `c.expect wanted = .ok d → c.Leads [wanted] d`. -/
theorem expect_leads {wanted : Char} (h : c.expect wanted = .ok d) : c.Leads [wanted] d := by
  obtain ⟨found, hfound, h⟩ := bind_eq_ok.mp h
  split at h
  · next heq =>
    cases h
    rw [← heq]
    exact advance_one_leads hfound
  · cases h

/-- `c.expectText wanted = .ok d → c.Leads wanted.toList d`. -/
theorem expectText_leads {wanted : String} (h : c.expectText wanted = .ok d) :
    c.Leads wanted.toList d := by
  unfold expectText at h
  split at h
  · next hstart =>
    cases h
    have := c.advance_leads (length_le_of_startsWith hstart)
    rwa [← String.length_toList,
      ← List.prefix_iff_eq_take.mp (List.isPrefixOf_iff_prefix.mp hstart)] at this
  · cases h

/-- `c.spaces = .ok d → c.Reaches d`: blanks that have to be there are read forward. -/
theorem spaces_reaches (h : c.spaces = .ok d) : c.Reaches d := by
  obtain ⟨found, -, h⟩ := bind_eq_ok.mp h
  split at h
  · cases h
    exact c.skipSpaces_reaches
  · cases h

/-- `c.equalsSign = .ok d → c.Reaches d`. -/
theorem equalsSign_reaches (h : c.equalsSign = .ok d) : c.Reaches d := by
  obtain ⟨after, hafter, h⟩ := bind_eq_ok.mp h
  cases h
  exact c.skipSpaces_reaches.trans ((expect_leads hafter).reaches.trans after.skipSpaces_reaches)

/-- `c.quote = .ok (mark, d) → c.Leads [mark] d`. -/
theorem quote_leads {mark : Char} (h : c.quote = .ok (mark, d)) : c.Leads [mark] d := by
  obtain ⟨found, hfound, h⟩ := bind_eq_ok.mp h
  split at h
  · cases h
    exact advance_one_leads hfound
  · cases h

/-! ## Runs of characters -/

/-- A run with a property is taken whole. -/
theorem takeWhile_eq (p : Char → Bool) (run tail : List Char) (offset : Nat)
    (hrun : ∀ c ∈ run, p c = true) (htail : tail.head?.any p = false) :
    takeWhile ⟨offset, run ++ tail⟩ p = (run, ⟨offset + run.length, tail⟩) := by
  unfold takeWhile
  simp only [takeWhile_run hrun htail, dropWhile_run hrun htail]

/-- `charsBefore stop offset chars = .ok (taken, left) → chars = taken ++ left`. -/
theorem charsBefore_eq_append {stop : List Char → Bool} {offset : Nat} {chars left : List Char}
    (h : charsBefore stop offset chars = .ok (taken, left)) : chars = taken ++ left := by
  induction chars generalizing offset taken with
  | nil =>
    cases h
    rfl
  | cons c rest ih =>
    rw [charsBefore] at h
    split at h
    · cases h
    split at h
    · cases h
      rfl
    split at h
    · cases h
    · next htail =>
      cases h
      rw [ih htail, List.cons_append]

/-- A run does not stop before its first character when that does not. -/
theorem charsBefore_ne_nil {stop : List Char → Bool} {offset : Nat} {first : Char}
    {rest left : List Char} (hstop : stop (first :: rest) = false)
    (h : charsBefore stop offset (first :: rest) = .ok (taken, left)) : taken ≠ [] := by
  rw [charsBefore] at h
  split at h
  · cases h
  rw [if_neg (by simp [hstop])] at h
  split at h
  · cases h
  · cases h
    exact List.cons_ne_nil _ _

/-- **A run is read whole**: if it stops nowhere inside, all of its characters may stand in a
document, and what follows it stops it or is nothing. -/
theorem charsBefore_of_stop (stop : List Char → Bool) (run left : List Char) (offset : Nat)
    (hrun : ∀ front c back, run = front ++ c :: back →
      isChar c = true ∧ stop (c :: back ++ left) = false)
    (hleft : ∀ c back, left = c :: back → isChar c = true ∧ stop left = true) :
    charsBefore stop offset (run ++ left) = .ok (run, left) := by
  induction run generalizing offset with
  | nil =>
    cases left with
    | nil => rfl
    | cons c back =>
      obtain ⟨hc, hstop⟩ := hleft c back rfl
      rw [List.nil_append, charsBefore, if_neg (by simp [hc]), if_pos hstop]
  | cons c back ih =>
    obtain ⟨hc, hstop⟩ := hrun [] c back rfl
    have htail := ih (offset + 1) fun front c' back' heq =>
      hrun (c :: front) c' back' (by rw [heq, List.cons_append])
    rw [List.cons_append, charsBefore, if_neg (by simp [hc]),
      if_neg (by rw [← List.cons_append, hstop]; exact Bool.false_ne_true), htail]

/-- `c.chars stop = .ok (taken, d) → c.Leads taken d`. -/
theorem chars_leads {stop : List Char → Bool} (h : c.chars stop = .ok (taken, d)) :
    c.Leads taken d := by
  obtain ⟨⟨run, left⟩, hrun, h⟩ := bind_eq_ok.mp h
  cases h
  exact ⟨charsBefore_eq_append hrun, rfl⟩

/-- Where `stop` does not hold at once, at least one character is taken. -/
theorem chars_ne_nil {stop : List Char → Bool} {first : Char} {rest : List Char}
    (hrest : c.rest = first :: rest) (hstop : stop (first :: rest) = false)
    (h : c.chars stop = .ok (taken, d)) : taken ≠ [] := by
  obtain ⟨⟨run, left⟩, hrun, h⟩ := bind_eq_ok.mp h
  cases h
  rw [hrest] at hrun
  exact charsBefore_ne_nil hstop hrun

/-- What is taken up to a closing text leads to where that text begins, and on from there. -/
theorem charsThrough_leads {closing : String} (h : c.charsThrough closing = .ok (taken, d)) :
    ∃ middle, c.Leads taken middle ∧ middle.Reaches d := by
  obtain ⟨⟨run, middle⟩, hrun, h⟩ := bind_eq_ok.mp h
  obtain ⟨after, hafter, h⟩ := bind_eq_ok.mp h
  cases h
  exact ⟨middle, chars_leads hrun, (expectText_leads hafter).reaches⟩

/-- `c.charsThrough closing = .ok (taken, d) → c.Reaches d`. -/
theorem charsThrough_reaches {closing : String} (h : c.charsThrough closing = .ok (taken, d)) :
    c.Reaches d := by
  obtain ⟨middle, hleads, hreaches⟩ := charsThrough_leads h
  exact hleads.reaches.trans hreaches

/-- `c.literal = .ok d → c.Reaches d`. -/
theorem literal_reaches (h : c.literal = .ok d) : c.Reaches d := by
  obtain ⟨⟨mark, inside⟩, hquote, h⟩ := bind_eq_ok.mp h
  exact (quote_leads hquote).reaches.trans
    ((inside.takeWhile_leads _).reaches.trans (expect_leads h).reaches)

/-! ## Names -/

/-- `c.skipName = .ok d → c.Reaches d`. -/
theorem skipName_reaches (h : c.skipName = .ok d) : c.Reaches d := by
  unfold skipName at h
  split at h
  · cases h
    exact Reaches.refl c
  split at h
  · cases h
    exact (c.takeWhile_leads _).reaches
  · cases h

/-- `c.name = .ok (taken, d) → c.Leads taken d`: a name is what lies before the cursor behind it. -/
theorem name_leads (h : c.name = .ok (taken, d)) : c.Leads taken d := by
  unfold name at h
  split at h
  · cases h
  split at h
  · cases h
    exact c.takeWhile_leads _
  · cases h

/-- A name that was parted is the end of what it was made of, and not empty. In front of it there is
at most a colon that has nothing before it. -/
theorem parted_eq_some {offset : Nat} {whole : List Char} {name : QName}
    (h : parted offset whole = some name) :
    ∃ front, whole = front ++ name.text.toList ∧ name.text.toList ≠ [] ∧
      name.span = ⟨offset + front.length, offset + whole.length⟩ := by
  have hwhole : whole = whole.takeWhile (· ≠ ':') ++ whole.dropWhile (· ≠ ':') :=
    List.takeWhile_append_dropWhile.symm
  unfold parted at h
  generalize whole.takeWhile (· ≠ ':') = front at h hwhole
  generalize hback : whole.dropWhile (· ≠ ':') = back at h hwhole
  -- without a colon the whole is the name, with one it is what comes after it
  cases back with
  | nil =>
    rw [List.append_nil] at hwhole
    subst hwhole
    simp only at h
    split at h
    · cases h
    · next hfront =>
      cases h
      refine ⟨[], ?_, ?_, rfl⟩
      · simp [QName.text]
      · simp only [Bool.or_eq_true, List.isEmpty_iff, not_or] at hfront
        simpa [QName.text] using hfront.1
  | cons colon back =>
    have hcolon : colon = ':' := by
      have := List.head?_dropWhile_not (fun c : Char => decide (c ≠ ':')) whole
      rw [hback] at this
      simpa using this
    subst hcolon
    simp only at h
    split at h
    · cases h
    · next hparts =>
      cases h
      simp only [Bool.or_eq_true, List.isEmpty_iff, not_or] at hparts
      -- a name may begin with the colon, and then the colon is part of it
      cases front with
      | nil => exact ⟨[':'], by simp [QName.text, hwhole], by simp [QName.text, hparts], rfl⟩
      | cons first front => exact ⟨[], by simp [QName.text, hwhole], by simp [QName.text], rfl⟩

/-- **A qualified name is the end of what was taken for it**, which was taken as a name. -/
theorem qualifiedName_leads {name : QName} (h : c.qualifiedName = .ok (name, d)) :
    ∃ front, c.Leads (front ++ name.text.toList) d ∧ name.text.toList ≠ [] ∧
      name.span = ⟨c.offset + front.length, d.offset⟩ ∧
      ∀ a ∈ name.text.toList, continuesName a = true := by
  unfold qualifiedName at h
  have hleads := c.takeWhile_leads continuesName
  have htaken : ∀ a ∈ (c.takeWhile continuesName).1, continuesName a = true :=
    List.all_eq_true.mp List.all_takeWhile
  generalize c.takeWhile continuesName = pair at h hleads htaken
  obtain ⟨whole, after⟩ := pair
  simp only at h
  split at h
  · next found hparted =>
    cases h
    obtain ⟨front, hwhole, hfilled, hspan⟩ := parted_eq_some hparted
    subst hwhole
    rw [← hleads.offset_eq] at hspan
    exact ⟨front, hleads, hfilled, hspan, fun a ha => htaken a (List.mem_append_right _ ha)⟩
  · cases h

end Cursor

end ProjectLens.Markup
