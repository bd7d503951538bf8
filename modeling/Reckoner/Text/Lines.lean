import Reckoner.Text.Blank

/-!
# Lines — cutting text into lines

A line ends at any of the ten line breaks; a carriage return and the line feed after it are one
break. Text after the last break is a line of its own only if there is any.
-/

namespace Reckoner.Text

/-- The characters that end a line. -/
def isLineBreak (c : Char) : Bool :=
  let n := c.toNat
  (0x0A ≤ n && n ≤ 0x0D) || (0x1C ≤ n && n ≤ 0x1E) || n == 0x85 || n == 0x2028 || n == 0x2029

/-- The rest of the text in lines; `line` holds what the current line has so far, last character
first. -/
def linesFrom (line : List Char) : List Char → List (List Char)
  | [] => if line.isEmpty then [] else [line.reverse]
  | '\r' :: '\n' :: rest => line.reverse :: linesFrom [] rest
  | c :: rest =>
    if isLineBreak c then line.reverse :: linesFrom [] rest
    else linesFrom (c :: line) rest

/-- The lines of a text, without their breaks. -/
def lines (cs : List Char) : List (List Char) := linesFrom [] cs

/-- The lines that are not blank, without the blanks around them. -/
def contentLines (cs : List Char) : List (List Char) :=
  ((lines cs).map trim).filter (!·.isEmpty)

/-- The rest of a text with each carriage return, and each carriage return with the line feed after
it, made one line feed; `done` is what precedes it, last character first. -/
def plainBreaksFrom (done : List Char) : List Char → List Char
  | [] => done.reverse
  | '\r' :: '\n' :: rest => plainBreaksFrom ('\n' :: done) rest
  | c :: rest => plainBreaksFrom ((if c = '\r' then '\n' else c) :: done) rest

/-- A text with line feeds for its carriage returns. -/
def plainBreaks (cs : List Char) : List Char := plainBreaksFrom [] cs

end Reckoner.Text
