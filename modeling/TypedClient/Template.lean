import TypedClient.Fault
import TypedClient.Text.Split
import TypedClient.TypeScript.Expr

/-!
# Templates

A template literal is put together from texts and expressions, and a text is cut at
placeholders into the texts between them and the placeholders themselves.

## Main definitions

* `Piece`: a text or an expression
* `templateOf`: the template of a list of pieces
* `splitKeeping`, `splitAll`: a text cut at one delimiter, and at several in turn
-/

namespace TypedClient

open TypeScript

/-- A part of a template: literal text, or an expression to be substituted. -/
inductive Piece
  | text (value : String)
  | expr (value : Expr)
  deriving Repr

/-- The substitutions of a template, from pieces that are taken in pairs: an expression
and the text after it, or two expressions next to each other. A text may not begin a
pair; `index` is the place of the first piece in the whole list. -/
def spansFrom (index : Nat) : List Piece → Except Fault (List (Span Expr))
  | [] => .ok []
  | .text _ :: _ => .error (.misplacedText index)
  | [.expr e] => .ok [⟨e, ""⟩]
  | .expr e :: .text t :: ps => return ⟨e, t⟩ :: (← spansFrom (index + 2) ps)
  | .expr e :: .expr f :: ps => return ⟨e, ""⟩ :: ⟨f, ""⟩ :: (← spansFrom (index + 2) ps)

/-- The template of a list of pieces. A text at the beginning is its head. -/
def templateOf : List Piece → Except Fault (Template Expr)
  | .text t :: ps => return ⟨t, ← spansFrom 1 ps⟩
  | ps => return ⟨"", ← spansFrom 0 ps⟩

/-! ## Cutting at placeholders -/

/-- A text cut at every occurrence of a delimiter, the delimiter kept between each two
texts. Nothing is cut at the empty delimiter. -/
def splitKeeping (text delimiter : String) : List String :=
  if delimiter.isEmpty then [text]
  else ((Text.splitOn delimiter.toList text.toList).map String.ofList).intersperse delimiter

/-- One round of cutting: pieces that are one of the delimiters stay as they are. -/
def splitPieces (delimiters : List String) (delimiter : String) (pieces : List String) :
    List String :=
  pieces.flatMap fun p => if p ∈ delimiters then [p] else splitKeeping p delimiter

/-- A text cut at each of several delimiters in turn. -/
def splitAll (text : String) (delimiters : List String) : List String :=
  delimiters.foldl (fun pieces d => splitPieces delimiters d pieces) [text]

end TypedClient
