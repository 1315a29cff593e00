/-!
# Lines

A line ends at a line feed, and a carriage return directly before the line feed belongs to the
ending. Text after the last line feed is a line of its own when it is not empty, and keeps a
carriage return at its end.
-/

namespace PolicyBundle.Text

/-- A finished line, given backwards, without the carriage return of its ending. -/
def closeLine : List Char → List Char
  | '\r' :: line => line.reverse
  | line => line.reverse

/-- The lines of `text`, when `open` holds, backwards, what the current line has so far. -/
def linesFrom : List Char → List Char → List (List Char)
  | [], [] => []
  | c :: begun, [] => [(c :: begun).reverse]
  | begun, c :: rest =>
    if c = '\n' then closeLine begun :: linesFrom [] rest else linesFrom (c :: begun) rest

/-- The lines of a text, without their endings. -/
def lines (text : List Char) : List (List Char) :=
  linesFrom [] text

end PolicyBundle.Text
