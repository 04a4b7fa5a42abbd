import Abacus.Layout.Writer

/-!
# Scripts

A *script* is what a producer of text asks of a writer, in order: texts to
write, layers to open and close, and marks that tell what is being written.
Separating the script from its performance leaves one loop that meets a full
sink.

At the first text that is refused the performance ends.  The layers and the
marks that are open then are still closed, and nothing else of the script is
carried out.
-/

namespace Abacus

/-- One step of a script. -/
inductive Step where
  /-- Write a text. -/
  | write (text : String)
  /-- Open a layer. -/
  | indent (pad : String)
  /-- Close the innermost layer. -/
  | dedent
  /-- A part of the given kind begins. -/
  | enter (kind : String)
  /-- The part that began last ends. -/
  | leave
  deriving DecidableEq

/-- The steps that a writer is asked to take, in order. -/
abbrev Script := List Step

/-- What a performance tells about the parts of its script. -/
inductive Mark where
  /-- A part of the given kind begins. -/
  | enter (kind : String)
  /-- The part that began last ends. -/
  | leave
  deriving DecidableEq

/-- How a performance ended. -/
structure Performance where
  /-- Whether every text was taken. -/
  complete : Bool
  /-- The writer after the performance. -/
  writer : Writer
  /-- The marks, in order. -/
  marks : List Mark

/-- Closes what is open after a refusal.  The number counts the parts and
layers of the remaining script that were never opened, and so are not closed. -/
def Script.abandon : Script → Nat → Writer → List Mark → Performance
  | [], _, w, marks => ⟨false, w, marks.reverse⟩
  | .write _ :: rest, unopened, w, marks => Script.abandon rest unopened w marks
  | .indent _ :: rest, unopened, w, marks => Script.abandon rest (unopened + 1) w marks
  | .enter _ :: rest, unopened, w, marks => Script.abandon rest (unopened + 1) w marks
  | .dedent :: rest, 0, w, marks => Script.abandon rest 0 w.dedent marks
  | .leave :: rest, 0, w, marks => Script.abandon rest 0 w (.leave :: marks)
  | .dedent :: rest, unopened + 1, w, marks => Script.abandon rest unopened w marks
  | .leave :: rest, unopened + 1, w, marks => Script.abandon rest unopened w marks

/-- Carries out a script.  The marks so far come last first. -/
def Script.performFrom : Script → Writer → List Mark → Performance
  | [], w, marks => ⟨true, w, marks.reverse⟩
  | .write text :: rest, w, marks =>
    match w.write text with
    | (true, w) => Script.performFrom rest w marks
    | (false, w) => Script.abandon rest 0 w marks
  | .indent pad :: rest, w, marks => Script.performFrom rest (w.indent pad) marks
  | .dedent :: rest, w, marks => Script.performFrom rest w.dedent marks
  | .enter kind :: rest, w, marks => Script.performFrom rest w (.enter kind :: marks)
  | .leave :: rest, w, marks => Script.performFrom rest w (.leave :: marks)

/-- Carries out a script. -/
def Script.perform (script : Script) (w : Writer) : Performance := script.performFrom w []

/-- The text of a script, written without layers and without a limit. -/
def Script.text (script : Script) : String := (script.perform (.onto "" none)).writer.sink.text

end Abacus
