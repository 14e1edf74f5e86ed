import ApiContract.Text.Pieces

namespace ApiContract

inductive Verb where
  | get | post | put | delete | patch | options | head
deriving DecidableEq, Repr

namespace Verb

def all : List Verb := [get, post, put, delete, patch, options, head]

def text : Verb → String
  | get => "GET"
  | post => "POST"
  | put => "PUT"
  | delete => "DELETE"
  | patch => "PATCH"
  | options => "OPTIONS"
  | head => "HEAD"

def key (v : Verb) : String := Text.lowerAscii v.text

/-- Case does not matter. No letter outside the basic range has a lower case among the letters of
the verbs, so folding the basic range is enough. -/
def parse? (method : String) : Option Verb := all.find? fun v => v.key == Text.lowerAscii method

def hasBody : Verb → Bool
  | post | put | patch => true
  | _ => false

end Verb

end ApiContract
