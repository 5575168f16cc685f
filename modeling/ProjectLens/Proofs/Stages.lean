import Mathlib.Logic.Relation
import ProjectLens.Markup.Reader
import ProjectLens.Proofs.Scanning

/-! # The stages of reading a document

Reading goes from stage to stage: it takes one more piece, or goes on at another place after a fault.
Every turn leaves less to do, so reading ends, and what holds at the start and is kept by every turn
holds at the end.

* `Stage`, `Stage.Next`, `Stage.Ends`: one turn of reading, with nothing that cuts it short;
* `Reader.recover_resume`: where reading may go on after a fault;
* `Stage.Standing`: the scanner stands in the text, at or after all that was read;
* `Stage.Next.left_lt`: every turn leaves less to do;
* `Stage.run_induction`, `Stage.read_induction`: what every turn keeps holds at every stage, and at the
  end. -/

namespace ProjectLens.Markup

variable {index : Index}

/-! ## Where reading goes on -/

/-- A run without a character reaches up to the first one. -/
theorem takeWhile_ne_append {mark : Char} {front back : List Char} (h : mark ∉ front) :
    (front ++ mark :: back).takeWhile (fun c => decide (c ≠ mark)) = front :=
  takeWhile_run (fun c hc => by simpa using ne_of_mem_of_not_mem hc h) (by simp)

/-- Characters without the mark are dropped up to the first mark. -/
theorem dropWhile_ne_append {mark : Char} {front back : List Char} (h : mark ∉ front) :
    (front ++ mark :: back).dropWhile (fun c => decide (c ≠ mark)) = mark :: back :=
  dropWhile_run (fun c hc => by simpa using ne_of_mem_of_not_mem hc h) (by simp)

namespace Reader

/-- The text around the last `<` of a span. -/
theorem lastTag?_eq_some {span : Span} {offset : Nat} (h : lastTag? index span = some offset) :
    ∃ front back, index.sliceChars span = front ++ '<' :: back ∧ '<' ∉ back ∧
      offset = span.start + front.length := by
  unfold lastTag? at h
  simp only at h
  split at h
  · next hmem =>
    obtain ⟨back, front, hsplit, hback⟩ :=
      List.eq_append_cons_of_mem (List.contains_iff_mem.mp hmem)
    rw [hsplit, dropWhile_ne_append hback] at h
    refine ⟨front.reverse, back.reverse, ?_, by simpa using hback, ?_⟩
    · rw [← List.reverse_reverse (index.sliceChars span), hsplit]
      simp
    · cases h
      simp
  · cases h

/-- Where no last `<` is found there is none. -/
theorem lastTag?_eq_none {span : Span} (h : lastTag? index span = none) :
    '<' ∉ index.sliceChars span := by
  unfold lastTag? at h
  simp only at h
  split at h
  · cases h
  · next hmem => simpa using hmem

/-- The text up to the first `<` at or after an offset. -/
theorem nextTag?_eq_some {start offset : Nat} (h : nextTag? index start = some offset) :
    ∃ front back, index.chars.drop start = front ++ '<' :: back ∧ '<' ∉ front ∧
      offset = start + front.length := by
  unfold nextTag? at h
  simp only at h
  split at h
  · next hmem =>
    obtain ⟨front, back, hsplit, hfront⟩ :=
      List.eq_append_cons_of_mem (List.contains_iff_mem.mp hmem)
    rw [hsplit, takeWhile_ne_append hfront] at h
    cases h
    exact ⟨front, back, hsplit, hfront, rfl⟩
  · cases h

/-- Where no next `<` is found there is none. -/
theorem nextTag?_eq_none {start : Nat} (h : nextTag? index start = none) :
    '<' ∉ index.chars.drop start := by
  unfold nextTag? at h
  simp only at h
  split at h
  · cases h
  · next hmem => simpa using hmem

/-- The next `<` is at a character at or after the offset. -/
theorem nextTag?_bounds {start offset : Nat} (h : nextTag? index start = some offset) :
    start ≤ offset ∧ offset < index.length := by
  obtain ⟨front, back, hsplit, -, hoffset⟩ := nextTag?_eq_some h
  have hlength := congrArg List.length hsplit
  rw [List.length_drop, List.length_append, List.length_cons] at hlength
  unfold Index.length
  omega

/-- Where a fault is taken to start: at the last `<` that was passed, or where reading stopped. -/
def junkStart (index : Index) (lastGood faultAt : Nat) : Nat :=
  (lastTag? index ⟨lastGood, faultAt⟩).getD lastGood

/-- What could not be read starts between what was read and the fault. -/
theorem junkStart_bounds (index : Index) {lastGood faultAt : Nat} (h : lastGood ≤ faultAt) :
    lastGood ≤ junkStart index lastGood faultAt ∧ junkStart index lastGood faultAt ≤ faultAt := by
  unfold junkStart
  cases hlast : lastTag? index ⟨lastGood, faultAt⟩ with
  | none => exact ⟨Nat.le_refl _, h⟩
  | some offset =>
    obtain ⟨front, back, hsplit, -, hoffset⟩ := lastTag?_eq_some hlast
    have hlength := congrArg List.length hsplit
    simp only [Index.sliceChars, List.length_take, List.length_append, List.length_cons] at hlength
    simp only [Option.getD_some] at hoffset ⊢
    omega

/-- Where reading goes on once something could not be read, if anywhere. -/
def resumeAfter (index : Index) (junk faultAt : Nat) : Option Nat :=
  nextTag? index (max faultAt (junk + 1))

/-- What could not be read: up to where reading goes on, or to the end. -/
def junkSpan (index : Index) (junk faultAt : Nat) : Span :=
  ⟨junk, (resumeAfter index junk faultAt).getD index.length⟩

/-- **What recovering from a fault can do**, `junk` being where the fault is taken to start. -/
inductive Recovered (index : Index) (r : Reader) (junk faultAt : Nat) (retried : Bool)
    (message : String) : Reader → Option Nat → Prop where
  /-- A tag is tried again as a fragment, once. -/
  | retry (head : (index.chars.drop junk).head? = some '<') (outside : r.inStartTag = false)
      (first : retried = false) : Recovered index r junk faultAt retried message r (some junk)
  /-- A start tag that cannot be read on is closed. -/
  | broken {id : Nat} {below : List Frame} (stack : r.stack = ⟨id, true⟩ :: below) :
      Recovered index r junk faultAt retried message
        ({ r.say index .error (Span.emptyAt junk) message with stack := below }.closeUnclosed index
          id (junkSpan index junk faultAt).stop)
        (resumeAfter index junk faultAt)
  /-- A tag that cannot be read is made an element. -/
  | salvaged (head : (index.chars.drop junk).head? = some '<') (outside : r.inStartTag = false) :
      Recovered index r junk faultAt retried message
        ((r.say index .error (Span.emptyAt junk) message).salvage index
          (junkSpan index junk faultAt))
        (resumeAfter index junk faultAt)
  /-- Anything else is left out. -/
  | skipped (outside : r.inStartTag = false) :
      Recovered index r junk faultAt retried message
        ((r.say index .error (Span.emptyAt junk) message).say index .trace
          (junkSpan index junk faultAt) "skipped unreadable markup")
        (resumeAfter index junk faultAt)

/-- A reader inside a start tag has that element on top of its stack. -/
theorem inStartTag_eq_true {r : Reader} (h : r.inStartTag = true) :
    ∃ id below, r.stack = ⟨id, true⟩ :: below := by
  unfold inStartTag at h
  cases hstack : r.stack with
  | nil =>
    rw [hstack] at h
    cases h
  | cons frame below =>
    obtain ⟨id, open'⟩ := frame
    rw [hstack] at h
    obtain rfl : open' = true := h
    exact ⟨id, below, rfl⟩

/-- What `recover` does is one of the ways `Recovered` names. -/
theorem recover_recovered (index : Index) (r : Reader) (lastGood faultAt : Nat) (retried : Bool)
    (message : String) :
    Recovered index r (junkStart index lastGood faultAt) faultAt retried message
      (r.recover index lastGood faultAt retried message).1
      (r.recover index lastGood faultAt retried message).2 := by
  unfold recover
  rw [show (lastTag? index ⟨lastGood, faultAt⟩).getD lastGood = junkStart index lastGood faultAt
    from rfl]
  generalize junkStart index lastGood faultAt = junk
  simp only
  by_cases hinside : r.inStartTag = true
  · obtain ⟨id, below, hstack⟩ := inStartTag_eq_true hinside
    have hinside' : (r.say index .error (Span.emptyAt junk) message).inStartTag = true := hinside
    have hstack' : (r.say index .error (Span.emptyAt junk) message).stack = ⟨id, true⟩ :: below :=
      hstack
    rw [if_neg (by simp [hinside]), if_pos hinside', hstack']
    exact .broken hstack
  · -- outside of a start tag the last `<` is tried once, then salvaged
    have houtside : r.inStartTag = false := by simpa using hinside
    have hinside' : ¬ (r.say index .error (Span.emptyAt junk) message).inStartTag = true := hinside
    rw [if_neg hinside']
    split
    · next hretry =>
      simp only [Bool.and_eq_true, decide_eq_true_eq, Bool.not_eq_true'] at hretry
      exact .retry hretry.1.1 houtside hretry.2
    split
    · next hsalvage =>
      simp only [Bool.and_eq_true, decide_eq_true_eq] at hsalvage
      exact .salvaged hsalvage.1 houtside
    · exact .skipped houtside

/-- **Where reading may go on after a fault**: at a later character, or at the same one again when that
has not been tried before. -/
theorem recover_resume {r after : Reader} {lastGood faultAt resume : Nat} {retried : Bool}
    {message : String} (hfault : lastGood ≤ faultAt)
    (h : r.recover index lastGood faultAt retried message = (after, some resume)) :
    lastGood ≤ resume ∧ resume < index.length ∧ (retried = true → lastGood < resume) := by
  have hjunk := junkStart_bounds index hfault
  have hcases := recover_recovered index r lastGood faultAt retried message
  rw [h] at hcases
  generalize junkStart index lastGood faultAt = junk at hjunk hcases
  generalize hresume : (after, some resume).2 = found at hcases
  -- but for the first try, reading goes on at a later `<`
  have hlater (hnext : resumeAfter index junk faultAt = some resume) :
      lastGood ≤ resume ∧ resume < index.length ∧ (retried = true → lastGood < resume) := by
    obtain ⟨hstart, hstop⟩ := nextTag?_bounds hnext
    exact ⟨by omega, hstop, fun _ => by omega⟩
  cases hcases with
  | retry head outside first =>
    obtain ⟨rest, hrest⟩ := List.head?_eq_some_iff.mp head
    have hlength := congrArg List.length hrest
    rw [List.length_drop, List.length_cons] at hlength
    cases hresume
    refine ⟨hjunk.1, ?_, fun hretried => ?_⟩
    · unfold Index.length
      omega
    · rw [hretried] at first
      cases first
  | broken stack => exact hlater hresume.symm
  | salvaged head outside => exact hlater hresume.symm
  | skipped outside => exact hlater hresume.symm

end Reader

/-! ## Stages -/

/-- **A stage of reading**: all that the next turn depends on. -/
structure Stage where
  /-- The document so far. -/
  reader : Reader
  /-- Where reading goes on. -/
  scanner : Scanner
  /-- How far reading has come. -/
  progress : Progress

namespace Stage

/-- Before anything was read. -/
def start (index : Index) : Stage := ⟨Reader.start, Scanner.ofDocument index.chars, ⟨0, none⟩⟩

/-- What is done about a fault. -/
def recover (index : Index) (stage : Stage) (fault : Fault) : Reader × Option Nat :=
  stage.reader.recover index stage.progress.lastGood
    (max fault.offset stage.progress.lastGood) stage.progress.isRetry (fault.message index)

/-- **One turn of reading**: a piece is taken, or reading goes on after a fault. -/
inductive Next (index : Index) : Stage → Stage → Prop where
  /-- One more piece. -/
  | event {stage : Stage} {event : Event} {next : Scanner}
      (found : stage.scanner.next = .event event next) :
      Next index stage
        ⟨stage.reader.take index event, next, ⟨event.span.stop, stage.progress.resumed⟩⟩
  /-- Another place after a fault. -/
  | restart {stage : Stage} {fault : Fault} {after : Reader} {resume : Nat}
      (found : stage.scanner.next = .fault fault)
      (recovered : stage.recover index fault = (after, some resume)) :
      Next index stage
        ⟨after, Scanner.ofFragment index.chars resume, ⟨resume, some resume⟩⟩

/-- **Reading ends**: with the text, or after a fault behind which there is no tag. -/
inductive Ends (index : Index) : Stage → Reader → Prop where
  /-- The end of the text. -/
  | done {stage : Stage} (found : stage.scanner.next = .done) :
      Ends index stage (stage.reader.finish index)
  /-- No place to go on at. -/
  | stop {stage : Stage} {fault : Fault} {after : Reader}
      (found : stage.scanner.next = .fault fault)
      (recovered : stage.recover index fault = (after, none)) :
      Ends index stage (after.finish index)

/-- Reading on from a stage. -/
def read (index : Index) (stage : Stage) : Reader :=
  readFrom index stage.reader stage.scanner stage.progress

/-- Reading on from the start gives the document. -/
theorem readDocument_eq (index : Index) :
    readDocument index = (⟨((start index).read index).elements, ((start index).read index).roots⟩,
      ((start index).read index).diagnostics.toList) := rfl

/-- **Where a stage stands**: in the text, at or after all that was read, which is at or after the place
where reading last went on. -/
structure Standing (index : Index) (stage : Stage) : Prop where
  /-- The scanner stands in the text. -/
  inText : stage.scanner.cursor.In index
  /-- It has not gone back. -/
  lastGood_le : stage.progress.lastGood ≤ stage.scanner.cursor.offset
  /-- Nor has reading since it last went on. -/
  resumed_le : ∀ offset ∈ stage.progress.resumed, offset ≤ stage.progress.lastGood

variable {stage later : Stage}

/-- There is always a next turn, or reading ends. -/
theorem next_or_ends (index : Index) (stage : Stage) :
    (∃ later, stage.Next index later) ∨ ∃ r, stage.Ends index r := by
  cases hstep : stage.scanner.next with
  | done => exact .inr ⟨_, .done hstep⟩
  | event event next => exact .inl ⟨_, .event hstep⟩
  | fault fault =>
    rcases hrecover : stage.recover index fault with ⟨after, _ | resume⟩
    · exact .inr ⟨_, .stop hstep hrecover⟩
    · exact .inl ⟨_, .restart hstep hrecover⟩

/-- Reading starts with a standing stage. -/
theorem standing_start (index : Index) : (start index).Standing index where
  inText := by
    show (Scanner.ofDocument index.chars).cursor.In index
    unfold Scanner.ofDocument
    simp only
    split
    · next hmark =>
      obtain ⟨rest, hrest⟩ := List.head?_eq_some_iff.mp hmark
      exact ⟨[byteOrderMark], by simp [hrest], rfl⟩
    · exact Cursor.Reaches.refl _
  lastGood_le := Nat.zero_le _
  resumed_le := by
    intro offset h
    cases h

/-- A fragment starts in the text. -/
theorem ofFragment_in {resume : Nat} (h : resume ≤ index.length) :
    (Scanner.ofFragment index.chars resume).cursor.In index := by
  refine ⟨index.chars.take resume, (List.take_append_drop resume index.chars).symm, ?_⟩
  show resume = 0 + (index.chars.take resume).length
  rw [List.length_take, Nat.zero_add]
  exact (Nat.min_eq_left h).symm

/-- A piece ends after all that was read before. -/
theorem Standing.lt_stop (hs : stage.Standing index) {event : Event} {next : Scanner}
    (found : stage.scanner.next = .event event next) :
    stage.progress.lastGood ≤ event.span.start ∧ event.span.start < event.span.stop ∧
      event.span.stop = next.cursor.offset ∧ next.cursor.In index ∧ event.Stands index := by
  have hsound := Scanner.next_sound hs.inText
  rw [found] at hsound
  obtain ⟨⟨start, hreaches, htaken⟩, -, -⟩ := hsound
  have hle := hs.lastGood_le
  have hle' := hreaches.le
  have hlt := htaken.filled
  rw [htaken.span_eq]
  exact ⟨Nat.le_trans hle hle', hlt, rfl, (hs.inText.step hreaches).step htaken.reaches,
    htaken.stands⟩

/-- A fault is at a character after all that was read. -/
theorem Standing.fault_lt (hs : stage.Standing index) {fault : Fault}
    (found : stage.scanner.next = .fault fault) :
    stage.progress.lastGood ≤ fault.offset ∧ fault.offset < index.length := by
  have hsound := Scanner.next_sound hs.inText
  rw [found] at hsound
  exact ⟨Nat.le_trans hs.lastGood_le hsound.1, hsound.2⟩

/-- What recovering from a fault can do, the fault starting at or after all that was read. -/
theorem Standing.exists_recovered (hs : stage.Standing index) {fault : Fault}
    (found : stage.scanner.next = .fault fault) {after : Reader} {resume : Option Nat}
    (recovered : stage.recover index fault = (after, resume)) :
    ∃ junk, Reader.Recovered index stage.reader junk fault.offset stage.progress.isRetry
        (fault.message index) after resume ∧
      stage.progress.lastGood ≤ junk ∧ junk < index.length := by
  have hcases := Reader.recover_recovered index stage.reader stage.progress.lastGood
    (max fault.offset stage.progress.lastGood) stage.progress.isRetry (fault.message index)
  unfold Stage.recover at recovered
  rw [recovered] at hcases
  have hbounds := Reader.junkStart_bounds index
    (Nat.le_max_right fault.offset stage.progress.lastGood)
  obtain ⟨hle, hlt⟩ := hs.fault_lt found
  rw [Nat.max_eq_left hle] at hcases hbounds
  exact ⟨_, hcases, hbounds.1, by omega⟩

/-- Reading goes on after a fault at a later place than it did before. -/
theorem Standing.lt_resume (hs : stage.Standing index) {fault : Fault} {after : Reader}
    {resume : Nat} (recovered : stage.recover index fault = (after, some resume)) :
    stage.progress.lastGood ≤ resume ∧ resume < index.length ∧
      ∀ offset ∈ stage.progress.resumed, offset < resume := by
  obtain ⟨hle, hlt, hretry⟩ := Reader.recover_resume (Nat.le_max_right _ _) recovered
  refine ⟨hle, hlt, fun offset hoffset => ?_⟩
  have := hs.resumed_le offset hoffset
  by_cases heq : offset = stage.progress.lastGood
  · have : stage.progress.isRetry = true := by
      simp only [Progress.isRetry, decide_eq_true_eq]
      rw [← heq]
      exact hoffset
    have := hretry this
    omega
  · omega

/-- **Every turn keeps a stage standing.** -/
theorem Standing.next (hs : stage.Standing index) (h : stage.Next index later) :
    later.Standing index := by
  cases h with
  | event found =>
    obtain ⟨hstart, hlt, hstop, hin, -⟩ := hs.lt_stop found
    refine ⟨hin, Nat.le_of_eq hstop, fun offset hoffset => ?_⟩
    have := hs.resumed_le offset hoffset
    simp only
    omega
  | restart found recovered =>
    obtain ⟨-, hlt, -⟩ := hs.lt_resume recovered
    refine ⟨ofFragment_in (Nat.le_of_lt hlt), Nat.le_refl _, fun offset hoffset => ?_⟩
    cases hoffset
    exact Nat.le_refl _

/-- **Every turn leaves less to do.** -/
theorem Next.left_lt (hs : stage.Standing index) (h : stage.Next index later) :
    later.progress.left index.length < stage.progress.left index.length := by
  cases h with
  | event found =>
    obtain ⟨hstart, hlt, hstop, hin, -⟩ := hs.lt_stop found
    have hle := hin.offset_le
    unfold Progress.left
    simp only
    split <;> split <;> omega
  | restart found recovered =>
    obtain ⟨hle, hlt, hretry⟩ := hs.lt_resume recovered
    unfold Progress.left Progress.isRetry
    simp only [decide_true, if_true, decide_eq_true_eq]
    by_cases hsame : stage.progress.resumed = some stage.progress.lastGood
    · have := hretry _ hsame
      omega
    · rw [if_neg hsame]
      omega

/-! ## Reading from stage to stage -/

/-- Reading on from a stage is reading on from the next one. -/
theorem Next.read_eq (hs : stage.Standing index) (h : stage.Next index later) :
    stage.read index = later.read index := by
  have hleft := h.left_lt hs
  cases h with
  | event found =>
    unfold read
    rw [readFrom, found]
    exact if_pos hleft
  | restart found recovered =>
    unfold read
    unfold Stage.recover at recovered
    rw [readFrom, found]
    simp only
    rw [recovered]
    exact if_pos hleft

/-- `stage.Ends index r → stage.read index = r`. -/
theorem Ends.read_eq {r : Reader} (h : stage.Ends index r) : stage.read index = r := by
  cases h with
  | done found =>
    unfold read
    rw [readFrom, found]
  | stop found recovered =>
    unfold read
    unfold Stage.recover at recovered
    rw [readFrom, found]
    simp only
    rw [recovered]

/-- A stage that is reached stands where stages do. -/
theorem Standing.run (hs : stage.Standing index)
    (h : Relation.ReflTransGen (Next index) stage later) : later.Standing index := by
  induction h with
  | refl => exact hs
  | tail _ hnext ih => exact ih.next hnext

/-- Reading on from a stage is reading on from any stage that is reached. -/
theorem read_run (hs : stage.Standing index)
    (h : Relation.ReflTransGen (Next index) stage later) :
    stage.read index = later.read index := by
  induction h with
  | refl => rfl
  | tail hrun hnext ih => rw [ih, hnext.read_eq (hs.run hrun)]

/-- **Reading ends**: some stage that is reached is the last one. -/
theorem Standing.exists_ends (hs : stage.Standing index) :
    ∃ last r, Relation.ReflTransGen (Next index) stage last ∧ last.Ends index r := by
  -- by induction on what is left to do
  induction hleft : stage.progress.left index.length using Nat.strongRecOn generalizing stage with
  | _ left ih =>
    rcases next_or_ends index stage with ⟨later, hnext⟩ | ⟨r, hends⟩
    · have hlt := hnext.left_lt hs
      rw [hleft] at hlt
      obtain ⟨last, r, hrun, hends⟩ := ih _ hlt (hs.next hnext) rfl
      exact ⟨last, r, .head hnext hrun, hends⟩
    · exact ⟨stage, r, .refl, hends⟩

/-- **What holds at the start and is kept by every turn holds at every stage.** -/
theorem run_induction {P : Stage → Prop} (hstart : P (start index))
    (hnext : ∀ {stage later}, stage.Standing index → P stage → stage.Next index later → P later)
    (hrun : Relation.ReflTransGen (Next index) (start index) stage) : P stage := by
  induction hrun with
  | refl => exact hstart
  | tail hrun hturn ih => exact hnext ((standing_start index).run hrun) ih hturn

/-- **What holds at the start and is kept by every turn holds at the end.** -/
theorem read_induction {P : Stage → Prop} {Q : Reader → Prop} (hstart : P (start index))
    (hnext : ∀ {stage later}, stage.Standing index → P stage → stage.Next index later → P later)
    (hends : ∀ {stage r}, stage.Standing index → P stage → stage.Ends index r → Q r) :
    Q ((start index).read index) := by
  have hs := standing_start index
  obtain ⟨last, r, hrun, hlast⟩ := hs.exists_ends
  rw [read_run hs hrun, hlast.read_eq]
  exact hends (hs.run hrun) (run_induction hstart hnext hrun) hlast

/-- The place where reading went on is never before an earlier one. -/
theorem resumed_mono (hs : stage.Standing index)
    (h : Relation.ReflTransGen (Next index) stage later) :
    ∀ offset ∈ stage.progress.resumed, ∃ offset' ∈ later.progress.resumed, offset ≤ offset' := by
  intro offset hoffset
  induction h with
  | refl => exact ⟨offset, hoffset, Nat.le_refl _⟩
  | tail hrun hnext ih =>
    obtain ⟨offset', hoffset', hle⟩ := ih
    cases hnext with
    | event found => exact ⟨offset', hoffset', hle⟩
    | restart found recovered =>
      have hlt := ((hs.run hrun).lt_resume recovered).2.2 offset' hoffset'
      exact ⟨_, rfl, by omega⟩

end Stage

end ProjectLens.Markup
