import ApiContract.Source.Token

namespace ApiContract.Source

mutual

inductive TypeExpr where
  | path (path : Path)
  | reference (target : TypeExpr)
  | paren (inside : TypeExpr)
  | other

inductive GenericArg where
  | type (type : TypeExpr)
  | other

inductive Arguments where
  | none
  | angled (args : List GenericArg)
  | parenthesized

inductive Segment where
  | mk (name : String) (arguments : Arguments)

/-- A path is rooted if it starts with a double colon. -/
inductive Path where
  | mk (rooted : Bool) (segments : List Segment)

end

instance : Inhabited TypeExpr := ⟨.other⟩

def Segment.name : Segment → String
  | mk name _ => name

def Segment.arguments : Segment → Arguments
  | mk _ arguments => arguments

def Path.segments : Path → List Segment
  | mk _ segments => segments

def Path.rooted : Path → Bool
  | mk rooted _ => rooted

instance : Inhabited Path := ⟨.mk false []⟩

namespace Path

def names (p : Path) : List String := p.segments.map Segment.name

def text (p : Path) : String := String.intercalate "::" p.names

def last? (p : Path) : Option Segment := p.segments.getLast?

def ident? : Path → Option String
  | mk false [.mk name .none] => some name
  | _ => none

def ofIdent (name : String) : Path := mk false [.mk name .none]

def isPlain (p : Path) : Bool :=
  p.segments.all fun s =>
    match s.arguments with
    | .none => true
    | _ => false

end Path

inductive Pattern where
  | name (ident : String)
  | typed (pattern : Pattern) (type : TypeExpr)
  | reference (pattern : Pattern)
  | constructor (elements : List Pattern)
  | other

instance : Inhabited Pattern := ⟨.other⟩

inductive Param where
  | receiver
  | typed (pattern : Pattern) (type : TypeExpr)

inductive UseTree where
  | path (ident : String) (tree : UseTree)
  | name (ident : String)
  | rename (ident «as» : String)
  | glob
  | group (trees : List UseTree)

inductive AttributeBody where
  | word
  | list (tokens : List Token)
  /-- An assignment; only the value of a literal text is kept. -/
  | value (text : Option String)

structure Attribute where
  path : Path
  body : AttributeBody

structure FieldDecl where
  attributes : List Attribute
  name : String
  type : TypeExpr

inductive Fields where
  | named (fields : List FieldDecl)
  | positional
  | unit

mutual

/-- Every expression without a reading of its own is `compound`. Constants inside types and patterns
are kept beside them in lists called `inner`. -/
inductive Expr where
  | lit (value : Literal)
  | path (path : Path) (inner : List Expr)
  | paren (e : Expr)
  | reference (e : Expr)
  | negate (e : Expr)
  | tuple (elements : List Expr)
  | array (elements : List Expr)
  | record (path : Path) (inner : List Expr) (fields : List FieldInit) (rest : Option Expr)
  | call (callee : Expr) (args : List Expr)
  | method (receiver : Expr) (name : String) (inner : List Expr) (args : List Expr)
  | field (base : Expr)
  | index (base position : Expr)
  | await (e : Expr)
  | attempt (e : Expr)
  | assign (left right : Expr)
  | ret (value : Option Expr)
  | closure (parts : List Expr)
  | async (body : List Stmt)
  | branch (condition : Expr) (body : List Stmt) (otherwise : Option Expr)
  | cases (subject : Expr) (arms : List Arm)
  | block (body : List Stmt)
  | unchecked (body : List Stmt)
  /-- A literal of the data format, written in place. -/
  | json (template : Template)
  | vec (elements : List Expr)
  /-- Any other macro; what it is given is not read. -/
  | expansion
  | compound (parts : List Expr)

/-- One field of a record; the name is absent where the field is given by its position. -/
inductive FieldInit where
  | mk (name : Option String) (value : Expr)

inductive Arm where
  | mk (inner : List Expr) (guard : Option Expr) (body : Expr)

inductive Template where
  | null
  | value (e : Expr)
  | array (items : List Template)
  | object (entries : List TemplateEntry)

inductive TemplateKey where
  | text (name : String)
  | value (e : Expr)

inductive TemplateEntry where
  | mk (key : TemplateKey) (value : Template)

inductive Stmt where
  | bind (pattern : Pattern) (inner : List Expr) (value : Option Expr) (otherwise : Option Expr)
  | item (item : Item)
  /-- An expression; `closed` if a semicolon follows. -/
  | expr (e : Expr) (closed : Bool)
  /-- A macro that stands as a statement. -/
  | expansion (e : Expr) (closed : Bool)

inductive Function where
  | mk (attributes : List Attribute) (name : String) (params : List Param) (inner : List Expr)
      (body : List Stmt)

inductive Member where
  | function (function : Function)
  | other (inner : List Expr)

inductive Item where
  | function (function : Function)
  | struct (attributes : List Attribute) (name : String) (fields : Fields) (inner : List Expr)
  | enum (attributes : List Attribute) (name : String) (inner : List Expr)
  /-- A union, a trait or an alias of a type. -/
  | declaration (name : String) (inner : List Expr)
  | implementation (trait : Option Path) (type : TypeExpr) (inner : List Expr)
      (members : List Member)
  | imports (tree : UseTree)
  | module (name : String) (content : Option (List Item))
  | other (inner : List Expr)

end

instance : Inhabited Expr := ⟨.expansion⟩

namespace Function

def attributes : Function → List Attribute
  | mk attributes _ _ _ _ => attributes

def name : Function → String
  | mk _ name _ _ _ => name

def params : Function → List Param
  | mk _ _ params _ _ => params

def inner : Function → List Expr
  | mk _ _ _ inner _ => inner

def body : Function → List Stmt
  | mk _ _ _ _ body => body

end Function

structure File where
  items : List Item

end ApiContract.Source
