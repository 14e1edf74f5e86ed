import ApiContract.Text.Pieces

namespace ApiContract.Uri

def isSlash (c : Char) : Bool := c = '/'

def braced (name : List Char) : List Char := '{' :: name ++ ['}']

def placeholder? : List Char → Option (List Char)
  | '{' :: rest => Text.suffix? ['}'] rest
  | _ => none

/-- The marker of a wildcard stands before the name, that of an optional segment behind it. -/
def normalizeSegment : List Char → List Char
  | ':' :: name => braced name
  | '*' :: name => braced name
  | segment =>
    match placeholder? segment with
    | some inner => braced (Text.dropEnd (· = '?') (Text.dropStart (· = '*') inner))
    | none => segment

def normalizeChars (uri : List Char) : List Char :=
  '/' :: Text.join ['/'] ((Text.cutAt '/' (Text.strip isSlash uri)).map normalizeSegment)

/-- The form that documents use: one leading slash, no slash at the end, and every placeholder in
braces. -/
def normalize (uri : String) : String := String.ofList (normalizeChars uri.toList)

def placeholders (uri : String) : List String :=
  ((Text.cutAt '/' uri.toList).filterMap placeholder?).map String.ofList

/-- Exactly one slash where the two parts meet. -/
def combine (start path : String) : String :=
  if start.isEmpty then path
  else
    let before := Text.dropEnd isSlash start.toList
    match Text.dropStart isSlash path.toList with
    | [] => String.ofList before
    | rest => String.ofList (before ++ '/' :: rest)

end ApiContract.Uri
