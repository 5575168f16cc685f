import ProjectLens.Proofs.Building
import ProjectLens.Proofs.Offsets

/-! # Recovery counted in bytes

A text is stored as bytes, and cutting it inside of a character, or out of bounds, is an error. Here
reading is done once more with all places counted in bytes and every cut checked. No check fails, and
the places are those of reading by characters.

* `Reader.takeBytes`, `Reader.takeBytes_eq`: a piece is taken by its bytes as it is by its characters;
* `Reader.recoverBytes?`: what is done about a fault, with every cut of the text checked;
* `Reader.recoverBytes?_eq`: it is what is done by characters;
* `Stage.turn?`: one turn of reading in bytes; `Stage.Standing.turn?_of_next`: it goes on as reading
  by characters does;
* `SafeReading`, `safeReading`: reading ends within a number of turns, no cut is out of place, and every
  fault stops it or takes it to a later place. -/

namespace ProjectLens

variable {index : Index}

/-! ## Finding characters in bytes -/

/-- The byte at which a character first occurs. -/
def firstByteOf? (mark : Char) : List Char → Option Nat
  | [] => none
  | c :: rest => if c = mark then some 0 else (firstByteOf? mark rest).map (c.utf8Size + ·)

/-- The byte at which a character last occurs. -/
def lastByteOf? (mark : Char) : List Char → Option Nat
  | [] => none
  | c :: rest =>
    match lastByteOf? mark rest with
    | some byte => some (c.utf8Size + byte)
    | none => if c = mark then some 0 else none

variable {mark : Char} {front back chars : List Char}

/-- What comes before the first `mark` is `front`. -/
theorem firstByteOf?_append (h : mark ∉ front) :
    firstByteOf? mark (front ++ mark :: back) = some (byteLength front) := by
  induction front with
  | nil => exact if_pos rfl
  | cons c front ih =>
    rw [List.mem_cons, not_or] at h
    rw [List.cons_append, firstByteOf?, if_neg (Ne.symm h.1), ih h.2]
    rfl

/-- There is no first `mark` where there is none. -/
theorem firstByteOf?_eq_none (h : mark ∉ chars) : firstByteOf? mark chars = none := by
  induction chars with
  | nil => rfl
  | cons c chars ih =>
    rw [List.mem_cons, not_or] at h
    rw [firstByteOf?, if_neg (Ne.symm h.1), ih h.2]
    rfl

/-- There is no last `mark` where there is none. -/
theorem lastByteOf?_eq_none (h : mark ∉ chars) : lastByteOf? mark chars = none := by
  induction chars with
  | nil => rfl
  | cons c chars ih =>
    rw [List.mem_cons, not_or] at h
    rw [lastByteOf?, ih h.2]
    exact if_neg (Ne.symm h.1)

/-- What comes before the last `mark` is `front`. -/
theorem lastByteOf?_append (h : mark ∉ back) :
    lastByteOf? mark (front ++ mark :: back) = some (byteLength front) := by
  induction front with
  | nil =>
    rw [List.nil_append, lastByteOf?, lastByteOf?_eq_none h]
    exact if_pos rfl
  | cons c front ih =>
    rw [List.cons_append, lastByteOf?, ih]
    rfl

/-- The bytes of a run that stands at an offset. -/
theorem Index.Lined.offsetToByte_run (h : index.Lined) {offset : Nat}
    (hrun : front <+: index.chars.drop offset) :
    index.offsetToByte (offset + front.length) = index.offsetToByte offset + byteLength front := by
  obtain ⟨rest, hrest⟩ := hrun
  rw [h.offsetToByte_add (Nat.le_add_right _ _), Index.sliceChars, Nat.add_sub_cancel_left, ← hrest,
    List.take_left]

/-- The later of two offsets has the later of their bytes. -/
theorem Index.Lined.offsetToByte_max (h : index.Lined) {a b : Nat} (ha : a ≤ index.length)
    (hb : b ≤ index.length) :
    max (index.offsetToByte a) (index.offsetToByte b) = index.offsetToByte (max a b) := by
  rcases Nat.le_total a b with hle | hle
  · rw [Nat.max_eq_right hle, Nat.max_eq_right (h.offsetToByte_le hle hb)]
  · rw [Nat.max_eq_left hle, Nat.max_eq_left (h.offsetToByte_le hle ha)]

/-- The bytes of a span of characters. -/
def Index.byteSpan (index : Index) (span : Span) : Span :=
  ⟨index.offsetToByte span.start, index.offsetToByte span.stop⟩

/-- The characters of a span of bytes. -/
def Index.charSpan (index : Index) (bytes : Span) : Span :=
  ⟨index.byteToOffset bytes.start, index.byteToOffset bytes.stop⟩

/-- `index.charSpan (index.byteSpan span) = span` for a span in the text. -/
theorem Index.Lined.charSpan_byteSpan (h : index.Lined) {span : Span} (hspan : span.start ≤ span.stop)
    (hstop : span.stop ≤ index.length) : index.charSpan (index.byteSpan span) = span := by
  unfold Index.charSpan Index.byteSpan
  rw [h.byteToOffset_offsetToByte (Nat.le_trans hspan hstop), h.byteToOffset_offsetToByte hstop]

namespace Markup

/-! ## Pieces

The places of a piece come as those of bytes, and the reader counts them in characters before it keeps
them. -/

/-- A piece whose places are counted otherwise. -/
def Event.mapSpans (count : Span → Span) : Event → Event
  | .tagStart name span => .tagStart { name with span := count name.span } (count span)
  | .attribute name value valueSpan span =>
    .attribute { name with span := count name.span } value (count valueSpan) (count span)
  | .tagEnd selfClosing span => .tagEnd selfClosing (count span)
  | .endTag name span => .endTag { name with span := count name.span } (count span)
  | .text run span => .text run (count span)
  | .cdata run runSpan span => .cdata run (count runSpan) (count span)
  | .comment run span => .comment run (count span)
  | .skipped span => .skipped (count span)

/-- A piece with its places counted in bytes. -/
def Event.inBytes (index : Index) : Event → Event := Event.mapSpans index.byteSpan

/-- `(event.mapSpans count).span = count event.span`: what a piece covers is counted as its other places
are. -/
theorem Event.span_mapSpans (count : Span → Span) (event : Event) :
    (event.mapSpans count).span = count event.span := by
  cases event <;> rfl

/-- **Takes one more piece, in bytes**: every place that is kept is counted in characters first. -/
def Reader.takeBytes (index : Index) (r : Reader) : Event → Reader
  | .tagStart name span =>
    r.openElement index { name with span := index.charSpan name.span } (index.charSpan span)
  | .attribute name value valueSpan span =>
    r.addAttribute index { name with span := index.charSpan name.span } value
      (index.charSpan valueSpan) (index.charSpan span)
  | .tagEnd selfClosing span => r.endStartTag index selfClosing (index.charSpan span)
  | .endTag name span => r.closeElement index name (index.charSpan span)
  | .text run span => r.keep (.text run (index.charSpan span))
  | .cdata run runSpan _ => r.keep (.cdata run (index.charSpan runSpan))
  | .comment run span => r.keep (.comment run (index.charSpan span))
  | .skipped span => r.say index .trace (index.charSpan span) "skipped markup declaration"

/-- **A piece is taken alike in bytes**, where its places are in the text. -/
theorem Reader.takeBytes_eq (lined : index.Lined) {event : Event} (stands : event.Stands index)
    (hspan : event.span.start ≤ event.span.stop) (hstop : event.span.stop ≤ index.length)
    (r : Reader) : r.takeBytes index (event.inBytes index) = r.take index event := by
  have whole := lined.charSpan_byteSpan hspan hstop
  match event, stands with
  | .tagStart name span, stands =>
    have hname := lined.charSpan_byteSpan stands.1.start_le stands.1.stop_le
    simp only [Event.inBytes, Event.mapSpans, takeBytes, hname]
    exact congrArg (r.openElement index name) whole
  | .attribute name value valueSpan span, stands =>
    obtain ⟨hname, -, hvalue, -⟩ := stands
    simp only [Event.inBytes, Event.mapSpans, takeBytes,
      lined.charSpan_byteSpan hname.start_le hname.stop_le,
      lined.charSpan_byteSpan hvalue.start_le hvalue.stop_le]
    exact congrArg (r.addAttribute index name value valueSpan) whole
  | .tagEnd selfClosing span, _ => exact congrArg (r.endStartTag index selfClosing) whole
  | .endTag name span, _ =>
    -- of the name only its text is looked at
    exact congrArg (r.closeElement index name) whole
  | .text run span, _ => exact congrArg (fun span => r.keep (.text run span)) whole
  | .cdata run runSpan span, stands =>
    exact congrArg (fun span => r.keep (.cdata run span))
      (lined.charSpan_byteSpan stands.1.start_le stands.1.stop_le)
  | .comment run span, _ => exact congrArg (fun span => r.keep (.comment run span)) whole
  | .skipped span, _ =>
    exact congrArg (fun span => r.say index .trace span "skipped markup declaration") whole

/-! ## What is done about a fault -/

/-- The byte of a fault, which is only known by its row and column; a place that is not in the text
counts as its end. -/
def Fault.byte (index : Index) (fault : Fault) : Nat :=
  match index.toOffset (index.positionAt fault.offset) with
  | .ok offset => index.offsetToByte offset
  | .error _ => byteLength index.chars

namespace Reader

/-- Makes an element from a tag of which these characters come after its start. -/
def salvageFrom (index : Index) (r : Reader) (inside : List Char) (junk : Span) : Reader :=
  let name := inside.takeWhile isSalvageable
  let qualifier := if name.contains ':' then name.takeWhile (· ≠ ':') else []
  let id := r.elements.size
  let r := r.newElement index (String.ofList name) (String.ofList qualifier) junk
    ⟨junk.start + 1, junk.start + 1 + name.length⟩
  let r := r.say index .trace junk ("salvaged broken tag as element #" ++ toString id)
  r.finishElement index id

/-- **Deals with a fault, in bytes**: `none` when the text would have to be cut out of bounds or inside
of a character. -/
def recoverBytes? (index : Index) (r : Reader) (lastGood faultAt : Nat) (retried : Bool)
    (message : String) : Option (Reader × Option Nat) := do
  let skipped ← index.betweenBytes? lastGood faultAt
  let junkStart := ((lastByteOf? '<' skipped).map (lastGood + ·)).getD lastGood
  let rest ← index.fromByte? junkStart
  let atTag := rest.head? = some '<'
  if atTag && !r.inStartTag && !retried then return (r, some junkStart)
  let searchFrom := max faultAt (junkStart + (rest.head?.map Char.utf8Size).getD 1)
  let ahead ← index.fromByte? searchFrom
  let resume := (firstByteOf? '<' ahead).map (searchFrom + ·)
  let stop := resume.getD (byteLength index.chars)
  let junk : Span := ⟨index.byteToOffset junkStart, index.byteToOffset stop⟩
  let r := r.say index .error (Span.emptyAt junk.start) message
  if r.inStartTag then
    match r.stack with
    | [] => return (r, resume)
    | frame :: below =>
      return ({ r with stack := below }.closeUnclosed index frame.element junk.stop, resume)
  else if atTag && !"</".toList.isPrefixOf rest then
    let inside ← index.betweenBytes? (junkStart + 1) stop
    return (r.salvageFrom index inside junk, resume)
  else return (r.say index .trace junk "skipped unreadable markup", resume)

variable {r : Reader} {lastGood faultAt junk : Nat} {retried : Bool} {message : String}

/-- What could not be read starts at the same place. -/
theorem byte_junkStart (lined : index.Lined) :
    ((lastByteOf? '<' (index.sliceChars ⟨lastGood, faultAt⟩)).map
        (index.offsetToByte lastGood + ·)).getD (index.offsetToByte lastGood) =
      index.offsetToByte (junkStart index lastGood faultAt) := by
  unfold junkStart
  cases hlast : lastTag? index ⟨lastGood, faultAt⟩ with
  | none => rw [lastByteOf?_eq_none (lastTag?_eq_none hlast)]; rfl
  | some offset =>
    obtain ⟨front, back, hslice, hback, rfl⟩ := lastTag?_eq_some hlast
    rw [hslice, lastByteOf?_append hback]
    have hrun : front <+: index.sliceChars ⟨lastGood, faultAt⟩ := ⟨_, hslice.symm⟩
    exact (lined.offsetToByte_run (hrun.trans (List.take_prefix _ _))).symm

/-- The next tag is found at the same place. -/
theorem byte_nextTag (lined : index.Lined) (start : Nat) :
    (firstByteOf? '<' (index.chars.drop start)).map (index.offsetToByte start + ·) =
      (nextTag? index start).map index.offsetToByte := by
  cases hnext : nextTag? index start with
  | none => rw [firstByteOf?_eq_none (nextTag?_eq_none hnext)]; rfl
  | some offset =>
    obtain ⟨front, back, hdrop, hfront, rfl⟩ := nextTag?_eq_some hnext
    rw [hdrop, firstByteOf?_append hfront]
    exact congrArg some (lined.offsetToByte_run ⟨_, hdrop.symm⟩).symm

/-- The search goes on after the first character of what could not be read. -/
theorem byte_searchFrom (lined : index.Lined) (hlt : junk < index.length)
    (hfault : faultAt ≤ index.length) :
    max (index.offsetToByte faultAt) (index.offsetToByte junk +
        ((index.chars.drop junk).head?.map Char.utf8Size).getD 1) =
      index.offsetToByte (max faultAt (junk + 1)) := by
  obtain ⟨c, rest, hdrop⟩ := List.exists_cons_of_ne_nil
    (List.ne_nil_of_length_pos (l := index.chars.drop junk) (by
      rw [List.length_drop]
      unfold Index.length at hlt
      omega))
  have hrun : [c] <+: index.chars.drop junk := ⟨rest, hdrop.symm⟩
  rw [hdrop, ← lined.offsetToByte_max hfault hlt]
  exact congrArg (max _) (lined.offsetToByte_run hrun).symm

/-- What could not be read ends at the same place. -/
theorem byte_stop (lined : index.Lined) (resume : Option Nat) :
    (resume.map index.offsetToByte).getD (byteLength index.chars) =
      index.offsetToByte (resume.getD index.length) := by
  cases resume with
  | none => exact (lined.offsetToByte_length (List.append_nil _).symm).symm
  | some offset => rfl

/-- **By bytes the same is done about a fault as by characters**, and the text is never cut out of
place. -/
theorem recoverBytes?_eq (lined : index.Lined) (hle : lastGood ≤ faultAt)
    (hfault : faultAt < index.length) :
    r.recoverBytes? index (index.offsetToByte lastGood) (index.offsetToByte faultAt) retried message =
      some ((r.recover index lastGood faultAt retried message).1,
        (r.recover index lastGood faultAt retried message).2.map index.offsetToByte) := by
  have hjunk := junkStart_bounds index hle
  unfold recoverBytes? recover
  rw [lined.betweenBytes?_eq hle]
  simp only [Option.bind_eq_bind, Option.bind_some]
  rw [byte_junkStart lined, show (lastTag? index ⟨lastGood, faultAt⟩).getD lastGood =
    junkStart index lastGood faultAt from rfl]
  generalize junkStart index lastGood faultAt = junk at hjunk
  rw [lined.fromByte?_eq]
  simp only [Option.bind_some]
  split
  · rfl
  rw [byte_searchFrom lined (by omega) (Nat.le_of_lt hfault), lined.fromByte?_eq]
  simp only [Option.bind_some]
  rw [byte_nextTag lined, byte_stop lined]
  have hspan := Sound.follows_junkSpan faultAt (Nat.le_refl junk)
    (Nat.lt_of_le_of_lt hjunk.2 hfault)
  unfold junkSpan resumeAfter at hspan
  generalize nextTag? index (max faultAt (junk + 1)) = resume at hspan ⊢
  have hstart : junk < resume.getD index.length := hspan.start_lt
  have hstop : resume.getD index.length ≤ index.length := hspan.stop_le
  rw [lined.byteToOffset_offsetToByte (by omega), lined.byteToOffset_offsetToByte hstop]
  generalize r.say index .error (Span.emptyAt junk) message = said
  split
  · cases said.stack <;> rfl
  split
  · next htag =>
    simp only [Bool.and_eq_true, decide_eq_true_eq] at htag
    -- the tag starts with a character of one byte
    have hbyte : index.offsetToByte junk + 1 = index.offsetToByte (junk + 1) := by
      obtain ⟨rest, hrest⟩ := List.head?_eq_some_iff.mp htag.1
      have hrun : ['<'] <+: index.chars.drop junk := ⟨rest, hrest.symm⟩
      exact (lined.offsetToByte_run hrun).symm
    rw [hbyte, lined.betweenBytes?_eq hstart]
    rfl
  · rfl

end Reader

/-- The byte of a fault in the text is the byte of its offset. -/
theorem Fault.byte_eq (lined : index.Lined) {fault : Fault} (h : fault.offset ≤ index.length) :
    fault.byte index = index.offsetToByte fault.offset := by
  rw [Fault.byte, lined.toOffset_positionAt h]

/-! ## Turns -/

/-- What a turn of reading comes to. -/
inductive Turn where
  /-- Reading goes on. -/
  | on (later : Stage)
  /-- Reading is over. -/
  | over (r : Reader)

namespace Stage

/-- What is done about a fault, at a stage whose progress is counted in bytes. -/
def recoverBytes? (index : Index) (stage : Stage) (fault : Fault) : Option (Reader × Option Nat) :=
  stage.reader.recoverBytes? index stage.progress.lastGood
    (max (fault.byte index) stage.progress.lastGood) stage.progress.isRetry (fault.message index)

/-- **One turn of reading**, at a stage whose progress is counted in bytes; `none` when the text would
have to be cut out of place. -/
def turn? (index : Index) (stage : Stage) : Option Turn :=
  match stage.scanner.next with
  | .done => some (.over (stage.reader.finish index))
  | .event event next =>
    let event := event.inBytes index
    some (.on ⟨stage.reader.takeBytes index event, next, ⟨event.span.stop, stage.progress.resumed⟩⟩)
  | .fault fault => do
    let (after, resume) ← stage.recoverBytes? index fault
    match resume with
    | none => return .over (after.finish index)
    | some resume => return .on ⟨after,
        Scanner.ofFragment index.chars (index.byteToOffset resume), ⟨resume, some resume⟩⟩

/-- A turn takes one stage to another. -/
def Turns (index : Index) (stage later : Stage) : Prop := stage.turn? index = some (.on later)

/-- The stage with its progress counted in bytes. -/
def inBytes (index : Index) (stage : Stage) : Stage :=
  { stage with
    progress := ⟨index.offsetToByte stage.progress.lastGood,
      stage.progress.resumed.map index.offsetToByte⟩ }

/-- A stage, in bytes, that reading comes to. -/
def Reached (index : Index) (stage : Stage) : Prop :=
  Relation.ReflTransGen (Turns index) ((start index).inBytes index) stage

variable {stage later : Stage}

/-- Whether a tag was tried again does not depend on how places are counted. -/
theorem Standing.isRetry_inBytes (hs : stage.Standing index) (lined : index.Lined) :
    (stage.inBytes index).progress.isRetry = stage.progress.isRetry := by
  unfold inBytes Progress.isRetry
  refine decide_eq_decide.mpr ?_
  cases hresumed : stage.progress.resumed with
  | none => exact ⟨nofun, nofun⟩
  | some offset =>
    have hle := hs.resumed_le offset hresumed
    have hlength := Nat.le_trans hs.lastGood_le hs.inText.offset_le
    simp only [Option.map_some, Option.some.injEq]
    constructor
    · intro heq
      rcases Nat.lt_or_eq_of_le hle with hlt | heq'
      · have := lined.offsetToByte_lt hlt hlength
        omega
      · exact heq'
    · exact congrArg _

/-- What is done about a fault in bytes is what is done about it. -/
theorem Standing.recoverBytes?_eq (hs : stage.Standing index) (lined : index.Lined) {fault : Fault}
    (found : stage.scanner.next = .fault fault) :
    (stage.inBytes index).recoverBytes? index fault =
      some ((stage.recover index fault).1,
        (stage.recover index fault).2.map index.offsetToByte) := by
  obtain ⟨hle, hlt⟩ := hs.fault_lt found
  have hmax : max (fault.byte index) (index.offsetToByte stage.progress.lastGood) =
      index.offsetToByte fault.offset := by
    rw [Fault.byte_eq lined (Nat.le_of_lt hlt), lined.offsetToByte_max (Nat.le_of_lt hlt) (by omega),
      Nat.max_eq_left hle]
  unfold Stage.recoverBytes? Stage.recover
  rw [hs.isRetry_inBytes lined, Nat.max_eq_left hle]
  show stage.reader.recoverBytes? index _ (max _ (index.offsetToByte stage.progress.lastGood)) _ _ = _
  rw [hmax]
  exact Reader.recoverBytes?_eq lined hle hlt

/-- **In bytes reading goes on as it does in characters.** -/
theorem Standing.turn?_of_next (hs : stage.Standing index) (lined : index.Lined)
    (h : stage.Next index later) : (stage.inBytes index).Turns index (later.inBytes index) := by
  cases h with
  | event found =>
    obtain ⟨-, hlt, hstop, hin, stands⟩ := hs.lt_stop found
    -- the cuts of a piece and of a fault are at characters, so they hold
    have taken := Reader.takeBytes_eq lined stands (Nat.le_of_lt hlt) (hstop ▸ hin.offset_le)
      stage.reader
    unfold Turns turn?
    rw [show (stage.inBytes index).scanner.next = _ from found]
    simp only [Event.inBytes, Event.span_mapSpans] at taken ⊢
    rw [show (stage.inBytes index).reader = stage.reader from rfl, taken]
    rfl
  | restart found recovered =>
    obtain ⟨-, hlt, -⟩ := hs.lt_resume recovered
    have hbytes := hs.recoverBytes?_eq lined found
    rw [recovered] at hbytes
    unfold Turns turn?
    rw [show (stage.inBytes index).scanner.next = _ from found]
    simp only [hbytes, Option.bind_eq_bind, Option.bind_some, Option.map_some]
    rw [lined.byteToOffset_offsetToByte (Nat.le_of_lt hlt)]
    rfl

/-- **In bytes reading is over when it is in characters.** -/
theorem Standing.turn?_of_ends (hs : stage.Standing index) (lined : index.Lined) {r : Reader}
    (h : stage.Ends index r) : (stage.inBytes index).turn? index = some (.over r) := by
  cases h with
  | done found =>
    unfold turn?
    rw [show (stage.inBytes index).scanner.next = _ from found]
    rfl
  | stop found recovered =>
    have hbytes := hs.recoverBytes?_eq lined found
    rw [recovered] at hbytes
    unfold turn?
    rw [show (stage.inBytes index).scanner.next = _ from found]
    simp only [hbytes]
    rfl

/-- Every turn in bytes is a turn in characters. -/
theorem Standing.exists_next (hs : stage.Standing index) (lined : index.Lined)
    (h : (stage.inBytes index).Turns index later) :
    ∃ next, stage.Next index next ∧ later = next.inBytes index := by
  rcases next_or_ends index stage with ⟨next, hnext⟩ | ⟨r, hends⟩
  · have hturns := hs.turn?_of_next lined hnext
    unfold Turns at h hturns
    rw [h] at hturns
    cases hturns
    exact ⟨next, hnext, rfl⟩
  · unfold Turns at h
    rw [hs.turn?_of_ends lined hends] at h
    cases h

/-- Every run in bytes is a run in characters. -/
theorem Standing.exists_run (hs : stage.Standing index) (lined : index.Lined)
    (h : Relation.ReflTransGen (Turns index) (stage.inBytes index) later) :
    ∃ next, Relation.ReflTransGen (Next index) stage next ∧ later = next.inBytes index := by
  induction h with
  | refl => exact ⟨stage, .refl, rfl⟩
  | tail _ hturn ih =>
    obtain ⟨middle, hrun, rfl⟩ := ih
    obtain ⟨next, hnext, rfl⟩ := (hs.run hrun).exists_next lined hturn
    exact ⟨next, hrun.tail hnext, rfl⟩

/-- Every run in characters is a run in bytes. -/
theorem Standing.reaches_inBytes (hs : stage.Standing index) (lined : index.Lined)
    (h : Relation.ReflTransGen (Next index) stage later) :
    Relation.ReflTransGen (Turns index) (stage.inBytes index) (later.inBytes index) := by
  induction h with
  | refl => exact .refl
  | tail hrun hnext ih => exact ih.tail ((hs.run hrun).turn?_of_next lined hnext)

/-- The place where reading went on, in bytes, is never before an earlier one. -/
theorem Standing.resumed_inBytes_mono (hs : stage.Standing index) (lined : index.Lined)
    (h : Relation.ReflTransGen (Turns index) (stage.inBytes index) later) :
    ∀ byte ∈ (stage.inBytes index).progress.resumed, ∃ byte' ∈ later.progress.resumed,
      byte ≤ byte' := by
  intro byte hbyte
  obtain ⟨offset, hoffset, rfl⟩ := Option.map_eq_some_iff.mp hbyte
  obtain ⟨next, hrun, rfl⟩ := hs.exists_run lined h
  obtain ⟨offset', hoffset', hle⟩ := resumed_mono hs hrun offset hoffset
  have hnext := hs.run hrun
  have hlength : offset' ≤ index.length := Nat.le_trans (hnext.resumed_le offset' hoffset')
    (Nat.le_trans hnext.lastGood_le hnext.inText.offset_le)
  exact ⟨_, Option.map_eq_some_iff.mpr ⟨offset', hoffset', rfl⟩, lined.offsetToByte_le hle hlength⟩

/-- A fault takes reading to the start of a later character, counted in bytes. -/
theorem Standing.restart_inBytes (hs : stage.Standing index) (lined : index.Lined) {fault : Fault}
    {after : Reader} {resume : Nat} (recovered : stage.recover index fault = (after, some resume)) :
    (String.Pos.Raw.mk (index.offsetToByte resume)).IsValid index.text ∧
      (stage.inBytes index).progress.lastGood ≤ index.offsetToByte resume ∧
      ∀ byte ∈ (stage.inBytes index).progress.resumed, byte < index.offsetToByte resume := by
  obtain ⟨hle, hlt, hlater⟩ := hs.lt_resume recovered
  refine ⟨lined.isValid_offsetToByte resume, lined.offsetToByte_le hle (Nat.le_of_lt hlt), ?_⟩
  intro byte hbyte
  obtain ⟨offset, hoffset, rfl⟩ := Option.map_eq_some_iff.mp hbyte
  exact lined.offsetToByte_lt (hlater offset hoffset) (Nat.le_of_lt hlt)

/-- Some turns from the start use up as much of what is left to do. -/
theorem exists_left_le (lined : index.Lined) {run : Nat → Stage} {count : Nat}
    (hstart : run 0 = (start index).inBytes index)
    (hturns : ∀ k < count, Turns index (run k) (run (k + 1))) :
    ∃ stage : Stage, stage.Standing index ∧ run count = stage.inBytes index ∧
      stage.progress.left index.length + count ≤ 2 * index.length + 1 := by
  induction count with
  | zero => exact ⟨start index, standing_start index, hstart, Nat.le_refl _⟩
  | succ count ih =>
    obtain ⟨stage, hs, hrun, hle⟩ := ih fun k hk => hturns k (Nat.lt_succ_of_lt hk)
    have hturn := hturns count (Nat.lt_succ_self _)
    rw [hrun] at hturn
    obtain ⟨next, hnext, heq⟩ := hs.exists_next lined hturn
    have hlt := hnext.left_lt hs
    exact ⟨next, hs.next hnext, heq, by omega⟩

end Stage

/-! ## All of reading -/

open Stage in
/-- **Reading a text is safe**, all places being counted in bytes. -/
structure SafeReading (index : Index) : Prop where
  /-- Reading comes to an end, and that gives the document. -/
  ends : ∃ last r, Reached index last ∧ last.turn? index = some (.over r) ∧
    readDocument index = (⟨r.elements, r.roots⟩, r.diagnostics.toList)
  /-- The number of turns is bounded by the length of the text. -/
  turns_le : ∀ (run : Nat → Stage) (count : Nat), run 0 = (start index).inBytes index →
    (∀ k < count, Turns index (run k) (run (k + 1))) → count ≤ 2 * index.length + 1
  /-- No turn cuts the text out of bounds or inside of a character. -/
  turn_isSome : ∀ stage, Reached index stage → (stage.turn? index).isSome = true
  /-- What is open is an element. -/
  frame_lt : ∀ stage, Reached index stage → ∀ frame ∈ stage.reader.stack,
    frame.element < stage.reader.elements.size
  /-- A fault ends reading, or takes it to the start of a character that is not before the end of the
  last piece, and after every place that a fault took it to before. -/
  fault : ∀ stage fault, Reached index stage → stage.scanner.next = .fault fault →
    (∃ r, stage.turn? index = some (.over r)) ∨
    ∃ later resume, Turns index stage later ∧ later.progress = ⟨resume, some resume⟩ ∧
      later.scanner = Scanner.ofFragment index.chars (index.byteToOffset resume) ∧
      (String.Pos.Raw.mk resume).IsValid index.text ∧ stage.progress.lastGood ≤ resume ∧
      ∀ earlier, Reached index earlier → Relation.ReflTransGen (Turns index) earlier stage →
        ∀ byte ∈ earlier.progress.resumed, byte < resume
  /-- No range is the wrong way round. -/
  range : ∀ span : Span,
    Range.ofEnds (index.positionAt span.start) (index.positionAt (max span.start span.stop)) =
      .ok (index.spanToRange span)

/-- **Reading is safe for every text.** -/
theorem safeReading (text : String) : SafeReading (Index.ofText text) := by
  have lined := Index.lined_ofText text
  -- only that the text is cut into lines is used from here on
  generalize Index.ofText text = index at lined
  have hs := Stage.standing_start index
  constructor
  case ends =>
    obtain ⟨last, r, hrun, hends⟩ := hs.exists_ends
    refine ⟨last.inBytes index, r, hs.reaches_inBytes lined hrun,
      (hs.run hrun).turn?_of_ends lined hends, ?_⟩
    rw [Stage.readDocument_eq, Stage.read_run hs hrun, hends.read_eq]
  case turns_le =>
    intro run count hstart hturns
    obtain ⟨stage, -, -, hle⟩ := Stage.exists_left_le lined hstart hturns
    omega
  case turn_isSome =>
    intro stage hreached
    obtain ⟨stage, hrun, rfl⟩ := hs.exists_run lined hreached
    rcases Stage.next_or_ends index stage with ⟨next, hnext⟩ | ⟨r, hends⟩
    · exact Option.isSome_iff_exists.mpr ⟨_, (hs.run hrun).turn?_of_next lined hnext⟩
    · exact Option.isSome_iff_exists.mpr ⟨_, (hs.run hrun).turn?_of_ends lined hends⟩
  case frame_lt =>
    intro stage hreached frame hframe
    obtain ⟨stage, hrun, rfl⟩ := hs.exists_run lined hreached
    have hsound : stage.Sound index := Stage.run_induction (Stage.sound_start index)
      (fun hs h hnext => h.next hs hnext) hrun
    exact hsound.kept.chain.lt_bound _ (List.mem_map_of_mem hframe)
  case fault =>
    intro stage fault hreached found
    obtain ⟨stage, hrun, rfl⟩ := hs.exists_run lined hreached
    have hstage := hs.run hrun
    rcases hrecover : stage.recover index fault with ⟨after, _ | resume⟩
    · exact .inl ⟨_, hstage.turn?_of_ends lined (.stop found hrecover)⟩
    · obtain ⟨hvalid, hle, hlater⟩ := hstage.restart_inBytes lined hrecover
      -- the byte it goes on at is that of a character of the text
      have hlt := (hstage.lt_resume hrecover).2.1
      refine .inr ⟨_, index.offsetToByte resume,
        hstage.turn?_of_next lined (.restart found hrecover), rfl, ?_, hvalid, hle, ?_⟩
      · rw [lined.byteToOffset_offsetToByte (Nat.le_of_lt hlt)]
        rfl
      · intro earlier hearlier hbetween byte hbyte
        obtain ⟨earlier, hfront, rfl⟩ := hs.exists_run lined hearlier
        obtain ⟨byte', hbyte', hle'⟩ :=
          (hs.run hfront).resumed_inBytes_mono lined hbetween byte hbyte
        exact Nat.lt_of_le_of_lt hle' (hlater byte' hbyte')
  case range => exact index.ofEnds_positionAt

end Markup

end ProjectLens
