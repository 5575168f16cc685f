import ProjectLens.Snapshot

/-! # Who listens does not matter

While it opens, closes and salvages elements, a reader asks its receiver whether it has a use for
traces. What is read does not depend on the answer, and a receiver hears what it would hear if all
there is to say were given to it afterwards.

* `Receiver.giveAll`: diagnostics given one after another; `Receiver.giveAll_pair`: to two receivers;
* `Markup.Reader.heardBy`: a reader whose diagnostics, all of which it kept, are given to a receiver;
* `Markup.Reader.heardBy_take`, `Markup.Reader.heardBy_recover`: one more piece, and what is done about
  a fault; `Markup.readFrom_heardBy`: reading on to the end;
* `Sink.Heard`: what became of a sink; `Snapshot.readInto_independent`: any two sinks. -/

namespace ProjectLens

/-! ## Diagnostics one after another -/

namespace Receiver

variable {σ τ : Type} [Receiver σ] [Receiver τ] {d : Diagnostic}

/-- **Gives diagnostics one after another.** -/
def giveAll (ds : List Diagnostic) (receiver : σ) : σ :=
  ds.foldl (fun receiver d => give d receiver) receiver

/-- `giveAll [] receiver = receiver`. -/
@[simp] theorem giveAll_nil (receiver : σ) : giveAll [] receiver = receiver := rfl

/-- `giveAll (d :: ds) receiver = giveAll ds (give d receiver)`. -/
@[simp] theorem giveAll_cons (d : Diagnostic) (ds : List Diagnostic) (receiver : σ) :
    giveAll (d :: ds) receiver = giveAll ds (give d receiver) := rfl

/-- `giveAll (ds ++ ds') receiver = giveAll ds' (giveAll ds receiver)`. -/
theorem giveAll_append (ds ds' : List Diagnostic) (receiver : σ) :
    giveAll (ds ++ ds') receiver = giveAll ds' (giveAll ds receiver) :=
  List.foldl_append

/-- What is not a trace is always given. -/
theorem give_of_report (h : d.isTrace = false) (receiver : σ) :
    give d receiver = emit d receiver := by
  rw [give, h]
  simp

/-- A trace is given to whoever wants traces. -/
theorem give_of_trace (h : d.isTrace = true) (receiver : σ) :
    give d receiver = if wantsTrace receiver then emit d receiver else receiver := by
  rw [give, h]
  simp

/-- **Each of two receivers gets what it would get alone**: where neither wants a trace, neither
would. -/
theorem give_pair (d : Diagnostic) (first : σ) (second : τ) :
    give d (first, second) = (give d first, give d second) := by
  by_cases hd : d.isTrace = true
  · rw [give_of_trace hd, give_of_trace hd, give_of_trace hd]
    show (if (wantsTrace first || wantsTrace second) = true then (give d first, give d second)
      else (first, second)) = _
    rw [give_of_trace hd, give_of_trace hd]
    cases wantsTrace first <;> cases wantsTrace second <;> rfl
  · have hreport : d.isTrace = false := Bool.eq_false_iff.mpr hd
    rw [give_of_report hreport (first, second)]
    rfl

/-- `giveAll ds (first, second) = (giveAll ds first, giveAll ds second)`. -/
theorem giveAll_pair (ds : List Diagnostic) (first : σ) (second : τ) :
    giveAll ds (first, second) = (giveAll ds first, giveAll ds second) := by
  induction ds generalizing first second with
  | nil => rfl
  | cons d ds ih => rw [giveAll_cons, give_pair, ih, giveAll_cons, giveAll_cons]

/-- **Reports are what there is to say without its traces.** -/
theorem kept_giveAll (ds : List Diagnostic) (reports : Reports) :
    (giveAll ds reports).kept = reports.kept ++ ds.filter fun d => !d.isTrace := by
  induction ds generalizing reports with
  | nil => simp
  | cons d ds ih =>
    rw [giveAll_cons, ih]
    by_cases hd : d.isTrace = true
    · rw [give_of_trace hd]
      simp [hd, wantsTrace]
    · have hreport : d.isTrace = false := Bool.eq_false_iff.mpr hd
      rw [give_of_report hreport]
      simp [hreport, emit]

end Receiver

/-! ## Sinks -/

namespace Sink

open Receiver

/-- A collecting sink takes everything. -/
theorem giveAll_collecting (ds received : List Diagnostic) :
    giveAll ds (Sink.collecting received) = .collecting (received ++ ds) := by
  induction ds generalizing received with
  | nil => simp
  | cons d ds ih =>
    have hgive : give d (Sink.collecting received) = .collecting (received ++ [d]) := rfl
    rw [giveAll_cons, hgive, ih, List.append_assoc, List.singleton_append]

/-- The sink that drops everything stays as it is. -/
theorem giveAll_null (ds : List Diagnostic) : giveAll ds Sink.null = .null := by
  induction ds with
  | nil => rfl
  | cons d ds ih =>
    have hgive : give d Sink.null = .null := ite_self _
    rw [giveAll_cons, hgive, ih]

/-- A sink that logs keeps nothing of what it hears. -/
theorem giveAll_logging (ds : List Diagnostic) (traces : Bool) :
    giveAll ds (Sink.logging traces) = .logging traces := by
  induction ds with
  | nil => rfl
  | cons d ds ih =>
    have hgive : give d (Sink.logging traces) = .logging traces := ite_self _
    rw [giveAll_cons, hgive, ih]

/-- **A tee gives to each side what that side would get alone.** -/
theorem give_tee (d : Diagnostic) (first second : Sink) :
    give d (Sink.tee first second) = .tee (give d first) (give d second) := by
  by_cases hd : d.isTrace = true
  · rw [give_of_trace hd, give_of_trace hd, give_of_trace hd]
    show (if (first.wantsTrace || second.wantsTrace) = true then
      Sink.tee (if !d.isTrace || first.wantsTrace then first.emit d else first)
        (if !d.isTrace || second.wantsTrace then second.emit d else second)
      else .tee first second) = .tee (if first.wantsTrace = true then first.emit d else first)
        (if second.wantsTrace = true then second.emit d else second)
    rw [hd]
    cases first.wantsTrace <;> cases second.wantsTrace <;> rfl
  · have hreport : d.isTrace = false := Bool.eq_false_iff.mpr hd
    rw [give_of_report hreport, give_of_report hreport, give_of_report hreport]
    show Sink.tee (if !d.isTrace || first.wantsTrace then first.emit d else first)
        (if !d.isTrace || second.wantsTrace then second.emit d else second) = _
    rw [hreport]
    rfl

/-- `giveAll ds (Sink.tee first second) = .tee (giveAll ds first) (giveAll ds second)`. -/
theorem giveAll_tee (ds : List Diagnostic) (first second : Sink) :
    giveAll ds (Sink.tee first second) = .tee (giveAll ds first) (giveAll ds second) := by
  induction ds generalizing first second with
  | nil => rfl
  | cons d ds ih => rw [giveAll_cons, give_tee, ih, giveAll_cons, giveAll_cons]

/-- **What became of a sink** when a text was read, `stored` being what the snapshot keeps of all
there was to say: what a collecting sink received is that, apart from traces, wherever in a tee it
stands. -/
def Heard (stored : List Diagnostic) : Sink → Sink → Prop
  | .collecting before, after => ∃ received, after = .collecting (before ++ received) ∧
      (received.filter fun d => !d.isTrace) = stored
  | .null, after => after = .null
  | .logging traces, after => after = .logging traces
  | .tee first second, after => ∃ first' second', after = .tee first' second' ∧
      first.Heard stored first' ∧ second.Heard stored second'

/-- What a sink has heard when all are given, the traces left out, is what `Sink.Heard` says of
it. -/
theorem heard_giveAll (ds : List Diagnostic) (sink : Sink) :
    sink.Heard (ds.filter fun d => !d.isTrace) (giveAll ds sink) := by
  induction sink with
  | collecting before => exact ⟨ds, giveAll_collecting ds before, rfl⟩
  | null => exact giveAll_null ds
  | logging traces => exact giveAll_logging ds traces
  | tee first second ih ih' => exact ⟨_, _, giveAll_tee ds first second, ih, ih'⟩

end Sink

/-! ## Readers -/

namespace Markup

open Receiver

variable {σ : Type} [Receiver σ] (receiver : σ) (index : Index)

namespace Reader

variable (r : Reader)

/-- **A reader that kept all it had to say**, with all of it given to a receiver instead. -/
def heardBy : Reader σ := ⟨r.elements, r.roots, r.stack, giveAll r.diagnostics.toList receiver⟩

/-- What is said to a receiver is what is kept and given to it later. -/
@[simp] theorem heardBy_say (severity : Severity) (span : Span) (message : String) :
    (r.heardBy receiver).say index severity span message =
      (r.say index severity span message).heardBy receiver := by
  have hgiven (d : Diagnostic) : give d (giveAll r.diagnostics.toList receiver) =
      giveAll (r.diagnostics.push d).toList receiver := by
    rw [Array.toList_push, giveAll_append]
    rfl
  exact congrArg (Reader.mk r.elements r.roots r.stack) (hgiven _)

/-- A new element is the same whoever is told. -/
@[simp] theorem heardBy_newElement (name qualifier : String) (span nameSpan : Span) :
    (r.heardBy receiver).newElement index name qualifier span nameSpan =
      (r.newElement index name qualifier span nameSpan).heardBy receiver := by
  unfold newElement heardBy
  dsimp only
  cases r.stack.head?.map Frame.element <;> rfl

/-- So is a change to an element, -/
@[simp] theorem heardBy_update (id : Nat) (f : Element → Element) :
    (r.heardBy receiver).update id f = (r.update id f).heardBy receiver := rfl

/-- and another stack, -/
@[simp] theorem heardBy_withStack (stack : List Frame) :
    { r.heardBy receiver with stack } = { r with stack }.heardBy receiver := rfl

/-- and the end of an element, -/
@[simp] theorem heardBy_finishElement (id : Nat) :
    (r.heardBy receiver).finishElement index id =
      (r.finishElement index id).heardBy receiver := by
  unfold finishElement
  rw [heardBy_update]
  exact heardBy_say receiver index _ _ _ _

/-- and the closing of one left open: what it reports is given to the receiver. -/
@[simp] theorem heardBy_closeUnclosed (id stop : Nat) :
    (r.heardBy receiver).closeUnclosed index id stop =
      (r.closeUnclosed index id stop).heardBy receiver := by
  unfold closeUnclosed
  rw [heardBy_update]
  dsimp only
  rw [← heardBy_finishElement, ← heardBy_say]
  rfl

/-- Closing one element after another. -/
theorem heardBy_closeAll (frames : List Frame) (stop : Nat) :
    frames.foldl (fun r frame => r.closeUnclosed index frame.element stop) (r.heardBy receiver) =
      (frames.foldl (fun r frame => r.closeUnclosed index frame.element stop) r).heardBy
        receiver := by
  induction frames generalizing r with
  | nil => rfl
  | cons frame frames ih => rw [List.foldl_cons, heardBy_closeUnclosed, ih, List.foldl_cons]

/-- `openElement` does the same whoever is told. -/
theorem heardBy_openElement (name : QName) (span : Span) :
    (r.heardBy receiver).openElement index name span =
      (r.openElement index name span).heardBy receiver := by
  unfold openElement
  rw [heardBy_newElement]
  dsimp only
  rw [heardBy_say]
  rfl

/-- `addAttribute` does the same whoever is told. -/
theorem heardBy_addAttribute (name : QName) (value : String) (valueSpan span : Span) :
    (r.heardBy receiver).addAttribute index name value valueSpan span =
      (r.addAttribute index name value valueSpan span).heardBy receiver := by
  unfold addAttribute
  have hstack : (r.heardBy receiver).stack = r.stack := rfl
  rw [hstack, heardBy_say]
  cases r.stack with
  | nil => rfl
  | cons frame below =>
    obtain ⟨id, inside⟩ := frame
    cases inside <;> rfl

/-- `endStartTag` does the same whoever is told. -/
theorem heardBy_endStartTag (selfClosing : Bool) (span : Span) :
    (r.heardBy receiver).endStartTag index selfClosing span =
      (r.endStartTag index selfClosing span).heardBy receiver := by
  unfold endStartTag
  have hstack : (r.heardBy receiver).stack = r.stack := rfl
  rw [hstack]
  cases r.stack with
  | nil => rfl
  | cons frame below =>
    cases selfClosing with
    | false => rfl
    | true =>
      dsimp only
      rw [heardBy_update, heardBy_withStack, if_pos rfl, if_pos rfl, heardBy_finishElement]

/-- `closeElement` does the same whoever is told: the last open one of the name is sought in the
stack. -/
theorem heardBy_closeElement (name : QName) (span : Span) :
    (r.heardBy receiver).closeElement index name span =
      (r.closeElement index name span).heardBy receiver := by
  unfold closeElement
  have hstack : (r.heardBy receiver).stack = r.stack := rfl
  have hname : (r.heardBy receiver).nameOf = r.nameOf := rfl
  simp only [hstack, hname, heardBy_closeAll]
  cases r.stack.dropWhile fun frame => decide (r.nameOf frame.element ≠ name.text) with
  | nil => exact heardBy_say receiver index _ _ _ _
  | cons frame below =>
    dsimp only
    rw [heardBy_update, heardBy_withStack, heardBy_finishElement]

/-- `keep` does the same whoever is told. -/
theorem heardBy_keep (content : Content) :
    (r.heardBy receiver).keep content = (r.keep content).heardBy receiver := by
  unfold keep
  have hstack : (r.heardBy receiver).stack = r.stack := rfl
  rw [hstack]
  cases r.stack with
  | nil => rfl
  | cons frame below =>
    obtain ⟨id, inside⟩ := frame
    cases inside <;> rfl

/-- **One more piece** is taken alike. -/
theorem heardBy_take (event : Event) :
    (r.heardBy receiver).take index event = (r.take index event).heardBy receiver := by
  match event with
  | .tagStart name span => exact heardBy_openElement receiver index r name span
  | .attribute name value valueSpan span =>
    exact heardBy_addAttribute receiver index r name value valueSpan span
  | .tagEnd selfClosing span => exact heardBy_endStartTag receiver index r selfClosing span
  | .endTag name span => exact heardBy_closeElement receiver index r name span
  | .text text span => exact heardBy_keep receiver r _
  | .cdata text textSpan span => exact heardBy_keep receiver r _
  | .comment text span => exact heardBy_keep receiver r _
  | .skipped span => exact heardBy_say receiver index r _ _ _

/-- `salvage` does the same whoever is told. -/
theorem heardBy_salvage (junk : Span) :
    (r.heardBy receiver).salvage index junk = (r.salvage index junk).heardBy receiver := by
  unfold salvage
  dsimp only
  rw [heardBy_newElement, heardBy_say, heardBy_finishElement]
  rfl

/-- **What is done about a fault** is the same, and reading goes on at the same place. -/
theorem heardBy_recover (lastGood faultAt : Nat) (retried : Bool) (message : String) :
    (r.heardBy receiver).recover index lastGood faultAt retried message =
      (r.recover index lastGood faultAt retried message).map (heardBy receiver) id := by
  unfold recover
  dsimp only
  have houtside : (r.heardBy receiver).inStartTag = r.inStartTag := rfl
  rw [houtside, heardBy_say]
  generalize (lastTag? index ⟨lastGood, faultAt⟩).getD lastGood = junk
  generalize nextTag? index (max faultAt (junk + 1)) = resume
  generalize r.say index .error (Span.emptyAt junk) message = said
  have hinside : (said.heardBy receiver).inStartTag = said.inStartTag := rfl
  have hstack : (said.heardBy receiver).stack = said.stack := rfl
  rw [hinside, hstack]
  -- tried again, closed, salvaged or skipped, which is decided without looking at the receiver
  split
  · rfl
  split
  · cases said.stack with
    | nil => rfl
    | cons frame below =>
      dsimp only
      rw [heardBy_withStack, heardBy_closeUnclosed]
      rfl
  split
  · rw [heardBy_salvage]
    rfl
  · rw [heardBy_say]
    rfl

/-- What a fault leads to, as reading goes on with it. -/
theorem heardBy_recovered {r after : Reader} {lastGood faultAt : Nat} {retried : Bool}
    {message : String} {resume : Option Nat}
    (h : r.recover index lastGood faultAt retried message = (after, resume)) :
    (r.heardBy receiver).recover index lastGood faultAt retried message =
      (after.heardBy receiver, resume) := by
  rw [heardBy_recover, h]
  rfl

/-- `finish` does the same whoever is told. -/
theorem heardBy_finish : (r.heardBy receiver).finish index = (r.finish index).heardBy receiver := by
  unfold finish
  have hstack : (r.heardBy receiver).stack = r.stack := rfl
  dsimp only
  rw [hstack, heardBy_closeAll]
  rfl

end Reader

/-- **Reading on to the end** is the same for every receiver. -/
theorem readFrom_heardBy (r : Reader) (scanner : Scanner) (p : Progress) :
    readFrom index (r.heardBy receiver) scanner p =
      (readFrom index r scanner p).heardBy receiver := by
  -- one case for each way a turn of the loop can go
  fun_induction readFrom index r scanner p with
  | case1 r scanner p hdone =>
    -- the scanner has come to the end
    rw [readFrom, hdone]
    exact Reader.heardBy_finish receiver index r
  | case2 r scanner p event next hevent later hless ih =>
    rw [readFrom, hevent]
    dsimp only
    -- a piece is taken, and less is left
    rw [if_pos hless, Reader.heardBy_take, ih]
  | case3 r scanner p event next hevent later hstuck =>
    rw [readFrom, hevent]
    dsimp only
    rw [if_neg hstuck, Reader.heardBy_finish]
  | case4 r scanner p fault hfault faultAt after hrecover =>
    rw [readFrom, hfault]
    dsimp only
    -- the fault ends reading
    rw [Reader.heardBy_recovered receiver index hrecover]
    exact Reader.heardBy_finish receiver index after
  | case5 r scanner p fault hfault faultAt after resume hrecover later hless ih =>
    rw [readFrom, hfault]
    dsimp only
    -- the fault takes reading somewhere further on
    rw [Reader.heardBy_recovered receiver index hrecover]
    dsimp only
    rw [if_pos hless]
    exact ih
  | case6 r scanner p fault hfault faultAt after resume hrecover later hstuck =>
    rw [readFrom, hfault]
    dsimp only
    rw [Reader.heardBy_recovered receiver index hrecover]
    dsimp only
    rw [if_neg hstuck]
    exact Reader.heardBy_finish receiver index after

/-- **Reading for a receiver** gives the document that reading on its own gives, and gives the
receiver what there was to say. -/
theorem readDocumentInto_eq : readDocumentInto index receiver =
    ((readDocument index).1, giveAll (readDocument index).2 receiver) := by
  have hinto : Reader.into receiver = Reader.start.heardBy receiver := rfl
  unfold readDocumentInto
  rw [hinto, readFrom_heardBy]
  rfl

end Markup

/-! ## Snapshots -/

namespace Snapshot

open Receiver

/-- **What reading into a sink comes to**: the snapshot of the text, and all there was to say given to
the sink. -/
theorem readInto_eq (text : String) (sink : Sink) : readInto text sink =
    (ofText text, giveAll (Markup.readDocument (Index.ofText text)).2 sink) := by
  unfold readInto
  dsimp only
  rw [Markup.readDocumentInto_eq, giveAll_pair]
  dsimp only
  rw [kept_giveAll, List.nil_append]
  rfl

/-- **A sink has no influence on what is read.** For any two sinks, which may be tees of others, the
snapshots are the same, which is that of reading without a sink; it keeps no traces; and a sink hears
what the snapshot keeps, in the same order, with traces only in between. -/
theorem readInto_independent (text : String) (sink other : Sink) :
    (readInto text sink).1 = (readInto text other).1 ∧
      (readInto text sink).1 = ofText text ∧
      (∀ d ∈ (readInto text sink).1.diagnostics, d.isTrace = false) ∧
      sink.Heard (readInto text sink).1.diagnostics (readInto text sink).2 := by
  rw [readInto_eq, readInto_eq]
  refine ⟨rfl, rfl, ?_, Sink.heard_giveAll _ sink⟩
  intro d hd
  have hkept : d ∈ (Markup.readDocument (Index.ofText text)).2.filter fun d => !d.isTrace := hd
  simpa using (List.mem_filter.mp hkept).2

end Snapshot

end ProjectLens
