/-! Lines of a text. A line ends at a line feed, a carriage return or the two together, a vertical
tab, a form feed, one of the separators U+001C to U+001E, U+0085, U+2028 or U+2029. A text that ends
in a boundary has no empty line after it. -/

namespace Backtrack.Text

def isLineBoundary (c : Char) : Bool :=
  (0x0a ≤ c.toNat && c.toNat ≤ 0x0d) || (0x1c ≤ c.toNat && c.toNat ≤ 0x1e) ||
    c.toNat == 0x85 || c.toNat == 0x2028 || c.toNat == 0x2029

/-- The lines of the text, where the open line already holds the reversed characters given. -/
def linesFrom (line : List Char) : List Char → List (List Char)
  | [] => if line.isEmpty then [] else [line.reverse]
  | '\r' :: '\n' :: rest => line.reverse :: linesFrom [] rest
  | c :: rest =>
      if isLineBoundary c then line.reverse :: linesFrom [] rest
      else linesFrom (c :: line) rest

def lines (text : String) : List String :=
  (linesFrom [] text.toList).map String.ofList

end Backtrack.Text
