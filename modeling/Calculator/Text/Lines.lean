/-!
# Calculator.Text.Lines

Lines of a text. Files are read with every line ending turned into a line feed; a text is then
cut at each line boundary, of which there are more kinds than the line feed.
-/

namespace Calculator

/-- The characters that end a line. A carriage return and a line feed together end one line. -/
def isLineBoundary (c : Char) : Bool :=
  let n := c.toNat
  (10 ≤ n && n ≤ 13) || (28 ≤ n && n ≤ 30) || n == 0x85 || n == 0x2028 || n == 0x2029

/-- A text with each line ending of a file turned into a line feed. -/
def normalizeNewlines : List Char → List Char
  | [] => []
  | '\r' :: '\n' :: rest => '\n' :: normalizeNewlines rest
  | c :: rest => (if c == '\r' then '\n' else c) :: normalizeNewlines rest

/-- The lines of a text whose current line, in reverse, is `current`. No empty line follows the
last boundary. -/
def linesFrom (current : List Char) : List Char → List (List Char)
  | [] => if current.isEmpty then [] else [current.reverse]
  | '\r' :: '\n' :: rest => current.reverse :: linesFrom [] rest
  | c :: rest =>
    if isLineBoundary c then current.reverse :: linesFrom [] rest
    else linesFrom (c :: current) rest

def lines (cs : List Char) : List (List Char) := linesFrom [] cs

/-- The pieces of a text between the occurrences of a separator; there is always at least one. -/
def splitOnChar (separator : Char) : List Char → List (List Char)
  | [] => [[]]
  | c :: rest =>
    match splitOnChar separator rest with
    | [] => [[c]]
    | piece :: pieces =>
      if c == separator then [] :: piece :: pieces else (c :: piece) :: pieces

end Calculator
