import StagePlanner.Yaml.Cursor

/-!
# Scalars

How a scalar is written, and the rule of folding. What separates two words of a
plain or quoted scalar is its blanks as long as there is no break in it. With breaks
the blanks are gone: a single break becomes a space, and of several the first one is
dropped.
-/

namespace StagePlanner.Yaml

/-- How a scalar is written, as far as its meaning depends on that. -/
inductive ScalarStyle where
  | plain
  | literal
  /-- In quotes or folded. -/
  | other
  deriving DecidableEq, Repr

/-- What separates two words. -/
structure Gap where
  /-- The blanks before the first break. -/
  blanks : List Char := []
  /-- Whether there is a break. -/
  isBroken : Bool := false
  /-- The text of the first break; nothing for an escaped one. -/
  first : List Char := []
  /-- The text of the other breaks. -/
  more : List Char := []

namespace Gap

/-- The text that a gap stands for. -/
def text (gap : Gap) : List Char :=
  if !gap.isBroken then gap.blanks
  else if gap.first = ['\n'] then
    if gap.more.isEmpty then [' '] else gap.more
  else gap.first ++ gap.more

/-- A gap with one more blank. -/
def addBlank (gap : Gap) (blank : Char) : Gap :=
  if gap.isBroken then gap else { gap with blanks := gap.blanks ++ [blank] }

/-- A gap with one more break. -/
def addBreak (gap : Gap) (text : List Char) : Gap :=
  if gap.isBroken then { gap with more := gap.more ++ text }
  else { isBroken := true, first := text }

/-- Reads the rest of a gap. After a break no tab may stand before a given column. -/
def read? (column : Nat) : Nat → Gap → Cursor → Option (Gap × Cursor)
  | 0, _, _ => none
  | fuel + 1, gap, cursor =>
    match cursor.rest with
    | [] => some (gap, cursor)
    | character :: _ =>
      if isBlank character then
        if character = '\t' && gap.isBroken && cursor.column < column then none
        else read? column fuel (gap.addBlank character) (cursor.advance 1)
      else if isBreak character then
        let (text, cursor) := cursor.takeBreak
        read? column fuel (gap.addBreak text) cursor
      else some (gap, cursor)

end Gap

end StagePlanner.Yaml
