import ProjectLens.Diagnostic.Basic

/-! # Where diagnostics go

A receiver takes diagnostics one by one. It says whether it wants traces at all; whoever has
diagnostics to give skips traces for a receiver that does not.

* `Receiver`, `Receiver.give`: what takes diagnostics, and how one is given to it;
* `Sink`: the receivers that can be asked for;
* `Reports`: keeps warnings and errors; pairs: give to both of two receivers. -/

namespace ProjectLens

/-- What diagnostics can be given to. -/
class Receiver (σ : Type) where
  /-- Whether it has a use for traces. -/
  wantsTrace : σ → Bool
  /-- What becomes of it with one more diagnostic. -/
  emit : Diagnostic → σ → σ

/-- Gives a diagnostic to a receiver, unless it is a trace that the receiver does not want. -/
def Receiver.give {σ : Type} [Receiver σ] (d : Diagnostic) (receiver : σ) : σ :=
  if wantsTrace receiver || !d.isTrace then emit d receiver else receiver

/-- A plain sequence keeps everything, in order. -/
instance : Receiver (Array Diagnostic) where
  wantsTrace _ := true
  emit d received := received.push d

/-- Two receivers take what each of them wants. -/
instance {σ τ : Type} [Receiver σ] [Receiver τ] : Receiver (σ × τ) where
  wantsTrace both := Receiver.wantsTrace both.1 || Receiver.wantsTrace both.2
  emit d both := (Receiver.give d both.1, Receiver.give d both.2)

/-- Warnings and errors, in order. -/
structure Reports where
  /-- What was kept. -/
  kept : List Diagnostic
  deriving Repr

/-- Traces are neither wanted nor kept. -/
instance : Receiver Reports where
  wantsTrace _ := false
  emit d reports := if d.isTrace then reports else ⟨reports.kept ++ [d]⟩

/-- A receiver that can be asked for. -/
inductive Sink where
  /-- Keeps everything, in order. -/
  | collecting (received : List Diagnostic)
  /-- Drops everything. -/
  | null
  /-- Passes everything on to the log, traces only when asked for. -/
  | logging (traces : Bool)
  /-- Gives to two sinks what each of them wants. -/
  | tee (first second : Sink)
  deriving Repr

namespace Sink

/-- Whether a sink has a use for traces. -/
def wantsTrace : Sink → Bool
  | .collecting _ => true
  | .null => false
  | .logging traces => traces
  | .tee first second => first.wantsTrace || second.wantsTrace

/-- The sink after one more diagnostic. A tee keeps traces from the side that does not want them. -/
def emit (d : Diagnostic) : Sink → Sink
  | .collecting received => .collecting (received ++ [d])
  | .null => .null
  | .logging traces => .logging traces
  | .tee first second =>
    .tee (if !d.isTrace || first.wantsTrace then first.emit d else first)
      (if !d.isTrace || second.wantsTrace then second.emit d else second)

instance : Receiver Sink where
  wantsTrace := wantsTrace
  emit := emit

/-- What a collecting sink has received. -/
def received? : Sink → Option (List Diagnostic)
  | .collecting received => some received
  | _ => none

end Sink

end ProjectLens
