/-!
# Lines

The lines of a text, without what ends them. Besides the newline there are control characters and
two separators that end a line.
-/
namespace PathGlob.Text

/-- Makes every line end of one or two characters a newline. -/
def unifyNewlines : List Char → List Char
  | '\r' :: '\n' :: rest => '\n' :: unifyNewlines rest
  | c :: rest => (if c = '\r' then '\n' else c) :: unifyNewlines rest
  | [] => []

def isLineEnd (c : Char) : Bool :=
  let n := c.toNat
  (0x0a ≤ n && n ≤ 0x0d) || (0x1c ≤ n && n ≤ 0x1e) || n == 0x85 || n == 0x2028 || n == 0x2029

/-- The pieces between the characters that end a line; nothing follows the last end. -/
def linesBy (ends : Char → Bool) : List Char → List (List Char)
  | [] => []
  | c :: rest =>
    if ends c then [] :: linesBy ends rest
    else
      match linesBy ends rest with
      | [] => [[c]]
      | line :: more => (c :: line) :: more

/-- The lines of a text whose line ends are of one character. -/
def lines (cs : List Char) : List (List Char) := linesBy isLineEnd cs

end PathGlob.Text
