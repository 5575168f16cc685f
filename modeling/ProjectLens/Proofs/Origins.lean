import ProjectLens.Proofs.Laminar
import ProjectLens.Proofs.Neighbours

/-! # What the nodes of a model come from

Every node of a model is that of an element, of an attribute of an element, or of a run of text or
blanks, and only to the nodes of elements other nodes belong. So what is known of elements and
attributes as written is known of nodes.

* `Draft.Drawn`: what a draft is drawn from; `Draft.Row.drawn`: the drafts of all rows are;
* `Draft.Belongs`, `Draft.Drawn.belongs`: what belongs to a draft, by its path;
* `StemsFrom`, `Model.stemsFrom_ofDocument`: what a node comes from. -/

namespace ProjectLens

variable {index : Index} {document : Markup.Document}

namespace Draft

/-- **What a draft is drawn from** in a document. -/
inductive Drawn (document : Markup.Document) (index : Index) : Draft → Prop where
  /-- An element, with all that belongs to it. -/
  | ofElement {i : Nat} {e : Markup.Element} (path : Path) : document.get? i = some e →
      Drawn document index (ofElement document index path e)
  /-- An attribute of an element. -/
  | ofAttribute {i : Nat} {e : Markup.Element} (path : Path) (a : Markup.Attribute) :
      document.get? i = some e → a ∈ e.attributes → Drawn document index (attributeDraft index path a)
  /-- A run of text. -/
  | ofText (path : Path) (start : Nat) (run : List Char) :
      Drawn document index (leaf (.text (String.ofList run)) ⟨start, start + run.length⟩ path)
  /-- A run of blanks. -/
  | ofWhitespace (path : Path) (start : Nat) (run : List Char) :
      Drawn document index (leaf (.whitespace (String.ofList run)) ⟨start, start + run.length⟩ path)

variable {draft : Draft} {part : Part} {span : Span} {path own : Path}
  {attributes content : List Draft}

/-- The draft of blanks is drawn from the document. -/
theorem drawn_of_mem_whitespaceDraft {start : Nat} {run : List Char}
    (h : draft ∈ whitespaceDraft path start run) : Drawn document index draft := by
  unfold whitespaceDraft at h
  split at h
  · cases h
  · rw [List.mem_singleton.mp h]
    exact .ofWhitespace _ start run

/-- So is the draft of a text. -/
theorem drawn_of_mem_textDraft {start : Nat} {run : List Char}
    (h : draft ∈ textDraft path start run) : Drawn document index draft := by
  unfold textDraft at h
  split at h
  · cases h
  · rw [List.mem_singleton.mp h]
    exact .ofText _ start run

/-- So are all drafts of a run. -/
theorem drawn_of_mem_textDrafts {start : Nat} {run : List Char}
    (h : draft ∈ textDrafts path start run) : Drawn document index draft := by
  rcases List.mem_append.mp h with h | h
  · rcases List.mem_append.mp h with h | h
    · exact drawn_of_mem_whitespaceDraft h
    · exact drawn_of_mem_textDraft h
  · exact drawn_of_mem_whitespaceDraft h

/-- **What belongs to a draft** with the path `own`. -/
inductive Belongs (document : Markup.Document) (index : Index) (own : Path) : Draft → Prop where
  /-- An element. -/
  | ofElement {i : Nat} {e : Markup.Element} : document.get? i = some e →
      Belongs document index own (ofElement document index own e)
  /-- An attribute. -/
  | ofAttribute {i : Nat} {e : Markup.Element} (a : Markup.Attribute) :
      document.get? i = some e → a ∈ e.attributes →
      Belongs document index own (attributeDraft index own a)
  /-- A part of a run of characters. -/
  | ofRun {start : Nat} {run : List Char} {draft : Draft} : draft ∈ textDrafts own start run →
      Belongs document index own draft

/-- What stands between the tags of an element belongs to it. -/
theorem belongs_of_mem_drafts {e : Markup.Element} {node : Span} {c : Markup.Content}
    (h : draft ∈ Markup.Content.drafts document index e own node c) :
    Belongs document index own draft := by
  cases c with
  | element id =>
    rw [Markup.Content.drafts] at h
    split at h
    · next child hchild =>
      split at h
      · rw [List.mem_singleton.mp h]
        exact .ofElement hchild
      · cases h
    · cases h
  | text run place | cdata run place =>
    rw [Markup.Content.drafts] at h
    split at h
    · exact .ofRun h
    · cases h
  | comment run place => cases h

/-- What belongs to an element is drawn from the document. -/
theorem Belongs.drawn (h : Belongs document index own draft) : Drawn document index draft := by
  cases h with
  | ofElement he => exact .ofElement own he
  | ofAttribute a he ha => exact .ofAttribute own a he ha
  | ofRun hdraft => exact drawn_of_mem_textDrafts hdraft

/-- **Only to the drafts of elements others belong**: attributes, and what stands between the tags. -/
theorem Drawn.belongs (h : Drawn document index (.node part span own attributes content)) :
    ∀ draft ∈ attributes ++ content, Belongs document index own draft := by
  -- only the draft of an element has anything in it
  generalize hwhole : node part span own attributes content = whole at h
  intro draft hdraft
  cases h with
  | ofElement around he =>
    rw [Markup.ofElement_eq] at hwhole
    cases hwhole
    rcases List.mem_append.mp hdraft with hdraft | hdraft
    · obtain ⟨a, ha, rfl⟩ := List.mem_map.mp hdraft
      exact .ofAttribute a he ha
    · obtain ⟨c, -, hdraft⟩ := List.mem_flatMap.mp hdraft
      exact belongs_of_mem_drafts hdraft
  | ofAttribute around a he ha =>
    cases hwhole
    cases hdraft
  | ofText around start run =>
    cases hwhole
    cases hdraft
  | ofWhitespace around start run =>
    cases hwhole
    cases hdraft

/-- What belongs to a draft is drawn from the document as well. -/
theorem Drawn.inside (h : Drawn document index (.node part span path attributes content)) :
    ∀ draft ∈ attributes ++ content, Drawn document index draft :=
  fun draft hdraft => (h.belongs draft hdraft).drawn

/-- **The drafts of all rows are drawn from the document.** -/
theorem Row.drawn {id : Nat} {parent previous : Option Nat} {drafts : List Draft}
    (h : Row (ofDocument document index) id parent previous drafts) :
    ∀ draft ∈ drafts, Drawn document index draft := by
  induction h with
  | outermost =>
    intro draft hdraft
    obtain ⟨e, he, rfl⟩ := List.mem_map.mp hdraft
    obtain ⟨i, -, hget⟩ := List.mem_filterMap.mp he
    exact .ofElement Path.root hget
  | tail _ ih => exact fun draft hdraft => ih draft (List.mem_cons_of_mem _ hdraft)
  | attributes _ ih =>
    exact fun draft hdraft => (ih _ List.mem_cons_self).inside draft (List.mem_append_left _ hdraft)
  | content _ ih =>
    exact fun draft hdraft => (ih _ List.mem_cons_self).inside draft (List.mem_append_right _ hdraft)

end Draft

/-- **What a node comes from** in a document. -/
inductive StemsFrom (document : Markup.Document) (index : Index) : Part → Span → Prop where
  /-- An element. -/
  | ofElement {i : Nat} {e : Markup.Element} : document.get? i = some e →
      StemsFrom document index (.element (elementPart index e)) (shapeOf index e).2
  /-- An attribute of an element. -/
  | ofAttribute {i : Nat} {e : Markup.Element} (a : Markup.Attribute) : document.get? i = some e →
      a ∈ e.attributes → StemsFrom document index (.attribute (attributePart index a)) a.span
  /-- A run of text. -/
  | ofText (start : Nat) (run : List Char) :
      StemsFrom document index (.text (String.ofList run)) ⟨start, start + run.length⟩
  /-- A run of blanks. -/
  | ofWhitespace (start : Nat) (run : List Char) :
      StemsFrom document index (.whitespace (String.ofList run)) ⟨start, start + run.length⟩

/-- **Every node of a model comes from its document.** -/
theorem Model.stemsFrom_ofDocument {n : Node}
    (hn : n ∈ (ofDocument document index).nodes.toList) : StemsFrom document index n.part n.span := by
  obtain ⟨i, hi⟩ := List.mem_iff_getElem?.mp hn
  rw [← get?_eq] at hi
  obtain ⟨parent, previous, draft, drafts, row, rfl⟩ := exists_row hi
  cases row.drawn draft List.mem_cons_self with
  | ofElement path he =>
    rw [Markup.ofElement_eq]
    exact .ofElement he
  | ofAttribute path a he ha => exact .ofAttribute a he ha
  | ofText path start run => exact .ofText start run
  | ofWhitespace path start run => exact .ofWhitespace start run

end ProjectLens
