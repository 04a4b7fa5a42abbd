/-!
# Structured values as text

A `Datum` is the shape of a value: a word, a labelled value, or a group of
values in parentheses, braces or brackets.  It has two texts.  The compact text
is a single line.  The expanded text gives each member of a group a line of its
own, four spaces further in than the group, and an empty group stays closed.
-/

namespace Abacus

/-- The brackets of a group. -/
inductive Brackets where
  /-- A name and parentheses. -/
  | tuple (name : String)
  /-- A name and braces. -/
  | record (name : String)
  /-- Square brackets. -/
  | list
  deriving DecidableEq

/-- A value by its shape. -/
inductive Datum where
  /-- A value without parts. -/
  | word (text : String)
  /-- A value with a label in front. -/
  | labelled (label : String) (value : Datum)
  /-- Values in brackets. -/
  | group (brackets : Brackets) (members : List Datum)

namespace Brackets

/-- What opens a group. -/
def opening : Brackets → String
  | .tuple name => name ++ "("
  | .record name => name ++ " \x7b"
  | .list => "["

/-- What closes a group. -/
def closing : Brackets → String
  | .tuple _ => ")"
  | .record _ => "\x7d"
  | .list => "]"

/-- What keeps the members of a group off its brackets on a single line. -/
def gap : Brackets → String
  | .record _ => " "
  | _ => ""

end Brackets

namespace Datum

mutual

/-- The value on a single line. -/
def compact : Datum → String
  | .word text => text
  | .labelled label value => label ++ ": " ++ value.compact
  | .group brackets [] => brackets.opening ++ brackets.closing
  | .group brackets (m :: ms) =>
    brackets.opening ++ brackets.gap ++ m.compact ++ compactRest ms ++ brackets.gap ++
      brackets.closing

/-- The members of a group after its first, on a single line. -/
def compactRest : List Datum → String
  | [] => ""
  | m :: ms => ", " ++ m.compact ++ compactRest ms

end

/-- The margin of a line at a depth. -/
def margin (depth : Nat) : String := String.ofList (List.replicate (4 * depth) ' ')

mutual

/-- The value over several lines, where its first line is at the given depth. -/
def expanded (depth : Nat) : Datum → String
  | .word text => text
  | .labelled label value => label ++ ": " ++ value.expanded depth
  | .group brackets [] => brackets.opening ++ brackets.closing
  | .group brackets (m :: ms) =>
    brackets.opening ++ "\n" ++ expandedMembers (depth + 1) (m :: ms) ++ margin depth ++
      brackets.closing

/-- The members of a group, each with its lines. -/
def expandedMembers (depth : Nat) : List Datum → String
  | [] => ""
  | m :: ms => margin depth ++ m.expanded depth ++ ",\n" ++ expandedMembers depth ms

end

end Datum

end Abacus
