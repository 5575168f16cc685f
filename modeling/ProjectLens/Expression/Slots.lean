import ProjectLens.Expression.Grammar
import ProjectLens.Text.Blank

/-! # The slots of a list

Both kinds of lists have one slot more than semicolons, so `;A;` has three. A slot without text is
an empty item. White space next to a semicolon belongs to the separator, never to an item.

* `listExpr`: a list of expressions from what the grammar read;
* `simpleListExpr`: a list of plain texts from the semicolons of the text. -/

namespace ProjectLens

/-- What stands in a slot; a missing expression is an empty item at the start of the slot. -/
def slotExpr (item : Option Expr) (start : Nat) : Expr :=
  item.getD (Expr.leaf .emptyItem (Span.emptyAt start))

/-- A separator over `whole`, its semicolon starting at `semicolon`. -/
def separatorExpr (semicolon : Nat) (whole : Span) : Expr :=
  Expr.leaf (.separator (semicolon - whole.start)) whole

/-- The list over a text of `length` characters. -/
def listExpr (parts : Grammar.ListParts) (length : Nat) : Expr :=
  .node .list ⟨0, length⟩ (slotExpr parts.first 0 :: parts.rest.flatMap fun (spans, item) =>
    [separatorExpr spans.semicolon.start spans.whole, slotExpr item spans.whole.stop])

namespace SimpleList

/-- The characters of a span. -/
def charsOf (chars : List Char) (span : Span) : List Char :=
  (chars.drop span.start).take span.length

/-- A span without the white space at its front. -/
def trimStart (chars : List Char) (span : Span) : Span :=
  ⟨span.start + ((charsOf chars span).takeWhile isBlank).length, span.stop⟩

/-- A span without the white space at its back. -/
def trimStop (chars : List Char) (span : Span) : Span :=
  ⟨span.start, span.stop - ((charsOf chars span).reverse.takeWhile isBlank).length⟩

/-- The part of the first slot that is its item: white space before a semicolon is cut off. -/
def firstCore (chars : List Char) (alone : Bool) (slot : Span) : Span :=
  if alone then slot else trimStop chars slot

/-- The part of a later slot that is its item: white space next to semicolons is cut off, and a slot
of nothing else is left to the separator before it. -/
def laterCore (chars : List Char) (last : Bool) (slot : Span) : Span :=
  let front := trimStart chars slot
  if front.isEmpty then Span.emptyAt slot.stop
  else if last then front else trimStop chars front

/-- One item. -/
def item (chars : List Char) (core : Span) : Expr :=
  if core.isEmpty then Expr.leaf .emptyItem core
  else Expr.leaf (.simpleItem (String.ofList (charsOf chars core))) core

/-- Where the slot after a semicolon stops: at the next one, or at the end of the text. -/
def slotStop (length : Nat) : List Span → Nat
  | [] => length
  | semicolon :: _ => semicolon.start

/-- Separators and items from the first semicolon on, the item before it ending at `previous`. -/
def later (chars : List Char) (length previous : Nat) : List Span → List Expr
  | [] => []
  | semicolon :: rest =>
    let core := laterCore chars rest.isEmpty ⟨semicolon.stop, slotStop length rest⟩
    separatorExpr semicolon.start ⟨previous, core.start⟩ :: item chars core ::
      later chars length core.stop rest

end SimpleList

/-- The simple list over a text, given the spans of its semicolons. -/
def simpleListExpr (chars : List Char) (semicolons : List Span) : Expr :=
  let length := chars.length
  let core :=
    SimpleList.firstCore chars semicolons.isEmpty ⟨0, SimpleList.slotStop length semicolons⟩
  .node .simpleList ⟨0, length⟩
    (SimpleList.item chars core :: SimpleList.later chars length core.stop semicolons)

end ProjectLens
