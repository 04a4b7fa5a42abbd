/-!
# Indenting writers

Text goes into a *sink* through a stack of *layers*.  Each layer puts its pad in
front of every line that has text.  A pad is written as late as possible, just
before the first character of its line, so a line has it once however many
writes make up the line, and a blank line has none.

A sink may be limited.  It keeps the characters that fit and refuses the rest.
A layer then has to know how far its text got.  So a write hands the text to
the outermost layer, expanded by all the layers on the way, and comes back with
the number of characters that were taken.  From that number each layer works
out how many of its own characters went through, and whether its pad is still
due.  A pad that was cut stays due as a whole.  A pad that went through is no
longer due, even if the character after it was refused.

Only `'\n'` ends a line.
-/

namespace Abacus

/-! ## Sinks -/

/-- Where text ends up. -/
structure Sink where
  /-- The text so far. -/
  text : String
  /-- The number of characters that still fit, if there is a limit. -/
  room : Option Nat

/-- Adds characters as far as they fit.  The number is how many did. -/
def Sink.accept (sink : Sink) (cs : List Char) : Nat × Sink :=
  match sink.room with
  | none => (cs.length, { sink with text := sink.text ++ String.ofList cs })
  | some n => (min n cs.length, ⟨sink.text ++ String.ofList (cs.take n), some (n - cs.length)⟩)

/-! ## Layers -/

/-- One level of indentation. -/
structure Layer where
  /-- What stands in front of each line that has text. -/
  pad : String
  /-- Whether the pad is to be written before the next text. -/
  due : Bool
  deriving DecidableEq

namespace Layer

/-- What a layer with the given pad passes on for a text. -/
def expandWith (pad : List Char) : Bool → List Char → List Char
  | _, [] => []
  | due, c :: cs =>
    if c = '\n' then c :: expandWith pad true cs
    else if due then pad ++ c :: expandWith pad false cs
    else c :: expandWith pad false cs

/-- The number of characters that a pad puts in front of a character. -/
def leadWidth (width : Nat) (due : Bool) (c : Char) : Nat :=
  if due && c != '\n' then width else 0

/-- How many characters of a text went through a layer, if the first `taken`
characters of the expanded text were taken.  The pad has `width` characters. -/
def countWith (width : Nat) : Bool → List Char → Nat → Nat
  | _, [], _ => 0
  | due, c :: cs, taken =>
    if taken ≤ leadWidth width due c then 0
    else countWith width (c == '\n') cs (taken - leadWidth width due c - 1) + 1

/-- Whether the pad of a layer is due after a text, if the first `taken`
characters of the expanded text were taken. -/
def dueWith (width : Nat) : Bool → List Char → Nat → Bool
  | due, [], _ => due
  | due, c :: cs, taken =>
    if taken < leadWidth width due c then due
    else if taken = leadWidth width due c then due && c == '\n'
    else dueWith width (c == '\n') cs (taken - leadWidth width due c - 1)

/-- What a layer passes on for a text. -/
def expand (layer : Layer) (cs : List Char) : List Char :=
  expandWith layer.pad.toList layer.due cs

/-- How many characters of a text went through, if the first `taken` characters
of the expanded text were taken. -/
def count (layer : Layer) (cs : List Char) (taken : Nat) : Nat :=
  countWith layer.pad.length layer.due cs taken

/-- The layer after a text, if the first `taken` characters of the expanded
text were taken. -/
def after (layer : Layer) (cs : List Char) (taken : Nat) : Layer :=
  { layer with due := dueWith layer.pad.length layer.due cs taken }

end Layer

/-- Writes characters through layers, the innermost first.  The number is how
many of them went through. -/
def Layer.pass : List Layer → Sink → List Char → Nat × List Layer × Sink
  | [], sink, cs =>
    let (taken, sink) := sink.accept cs
    (taken, [], sink)
  | layer :: outer, sink, cs =>
    let (taken, outer, sink) := Layer.pass outer sink (layer.expand cs)
    (layer.count cs taken, layer.after cs taken :: outer, sink)

/-! ## Writers -/

/-- A stack of layers over a sink. -/
structure Writer where
  /-- The layers, the innermost first. -/
  layers : List Layer
  /-- The sink. -/
  sink : Sink

namespace Writer

/-- A writer without layers over a sink that holds some text already. -/
def onto (text : String) (room : Option Nat) : Writer := ⟨[], ⟨text, room⟩⟩

/-- Writes a text.  The flag says whether all of it was taken; if not, the
writer is as the refusal left it. -/
def write (w : Writer) (text : String) : Bool × Writer :=
  let cs := text.toList
  let (count, layers, sink) := Layer.pass w.layers w.sink cs
  (count == cs.length, ⟨layers, sink⟩)

/-- Writes texts in turn, up to the first that is not taken. -/
def writeAll : Writer → List String → Bool × Writer
  | w, [] => (true, w)
  | w, text :: texts =>
    match w.write text with
    | (true, w) => w.writeAll texts
    | (false, w) => (false, w)

/-- Writes a text and ends the line. -/
def writeLine (w : Writer) (text : String) : Bool × Writer := w.writeAll [text, "\n"]

/-- Opens a layer.  Its pad is due. -/
def indent (w : Writer) (pad : String) : Writer := { w with layers := ⟨pad, true⟩ :: w.layers }

/-- Closes the innermost layer.  The others keep their state. -/
def dedent (w : Writer) : Writer := { w with layers := w.layers.tail }

/-- Makes room for more characters in a limited sink. -/
def makeRoom (w : Writer) (n : Nat) : Writer :=
  { w with sink := { w.sink with room := w.sink.room.map (· + n) } }

end Writer

end Abacus
