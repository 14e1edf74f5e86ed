import ApiContract.Source.Tree
import ApiContract.Text.Pieces

namespace ApiContract.Source.Doc

def isMargin (c : Char) : Bool := c = ' ' || c = '\t' || c = '\r' || c = '/' || c = '*'

def cleanLine (line : List Char) : List Char := Text.strip isMargin line

def isTag (line : List Char) : Bool := line.head? = some '@'

/-- Lines of one documentation text as they are kept. A text without characters is a blank line. -/
def keptLines (text : String) : List (List Char) :=
  ((Text.cutAt '\n' text.toList).map cleanLine).filter fun line => !isTag line

def textOf? (note : Attribute) : Option String :=
  if note.path.ident? = some "doc" then
    match note.body with
    | .value text => text
    | _ => none
  else none

def text (attributes : List Attribute) : String :=
  let kept := (attributes.filterMap textOf?).flatMap keptLines
  Text.trim (String.ofList (Text.join ['\n'] kept))

end ApiContract.Source.Doc
