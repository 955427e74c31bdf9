/-!
# Cutting text

Texts are cut as lists of characters: at every character of a class, at every
occurrence of a separator, or into lines.

## Main definitions

* `Text.pieces`: the maximal runs of characters outside a class, empty runs included
* `Text.splitOn`: the texts between the occurrences of a separator
* `Text.lines`: the lines of a text, without their ends
* `Text.fullLines`: the lines of a text, with their ends
-/

namespace TypedClient.Text

/-- A character put before the first of a list of texts. -/
def consHead (c : Char) : List (List Char) → List (List Char)
  | [] => [[c]]
  | t :: ts => (c :: t) :: ts

@[simp]
theorem consHead_nil (c : Char) : consHead c [] = [[c]] := rfl

@[simp]
theorem consHead_cons (c : Char) (t : List Char) (ts : List (List Char)) :
    consHead c (t :: ts) = (c :: t) :: ts := rfl

/-- The runs of characters between the separators of the class `p`. Two neighbouring
separators enclose an empty run. -/
def pieces (p : Char → Bool) : List Char → List (List Char)
  | [] => [[]]
  | c :: s => if p c then [] :: pieces p s else consHead c (pieces p s)

/-- Cutting at `sep`, with `skip` characters of a separator still to be passed over. -/
def splitFrom (sep : List Char) : Nat → List Char → List (List Char)
  | _, [] => [[]]
  | skip + 1, _ :: s => splitFrom sep skip s
  | 0, c :: s =>
    if sep.isPrefixOf (c :: s) then [] :: splitFrom sep (sep.length - 1) s
    else consHead c (splitFrom sep 0 s)

/-- The texts between the occurrences of a non-empty separator, which are found from
left to right without overlap. -/
def splitOn (sep s : List Char) : List (List Char) :=
  splitFrom sep 0 s

/-- Whether `part` occurs in a text. -/
def occursIn (part : List Char) : List Char → Bool
  | [] => part.isEmpty
  | c :: s => part.isPrefixOf (c :: s) || occursIn part s

/-! ## Lines -/

/-- The lines of a text. A line ends at a line feed, together with a carriage return
just before it; an end of line at the end of the text opens no further line. -/
def lines : List Char → List (List Char)
  | [] => []
  | '\n' :: s => [] :: lines s
  | '\r' :: '\n' :: s => [] :: lines s
  | c :: s => consHead c (lines s)

/-- The lines of a text with their ends: a line feed, a carriage return, or both in
the order carriage return, line feed. -/
def fullLines : List Char → List (List Char)
  | [] => []
  | '\n' :: s => ['\n'] :: fullLines s
  | '\r' :: '\n' :: s => ['\r', '\n'] :: fullLines s
  | '\r' :: s => ['\r'] :: fullLines s
  | c :: s => consHead c (fullLines s)

end TypedClient.Text
