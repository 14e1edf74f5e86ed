import ApiContract.Datum.Basic
import ApiContract.Yaml.Token

namespace ApiContract.Yaml

namespace Tag

def standard (name : String) : String := "tag:yaml.org,2002:" ++ name

def isLocal (tag : Option String) : Bool := tag.any fun t => t.toList.head? = some '!'

end Tag

namespace Scalar

def isNullWord (s : String) : Bool := !s.isEmpty && Plain.nullWords.contains s

def plainValue (s : String) : Option Json :=
  match Plain.read s with
  | .null => some .null
  | .bool b => some (.bool b)
  | .number n => some (.number n)
  | .oversized => none
  | .unbounded => some .null
  | .text => some (.string s)

def taggedValue (name s : String) : Option Json :=
  match name with
  | "bool" => (Plain.truthOf? s).map .bool
  | "int" => ((Plain.integer? s.toList).filter Number.representable).map fun n => .number (.int n)
  | "float" =>
    if Plain.unboundedWords.contains s then some .null
    else ((Plain.withoutPlus s.toList).bind Plain.fraction?).map fun x => .number (.float x)
  | "null" => if isNullWord s then some .null else none
  | _ => some (.string s)

def valueOf (tag : Option String) (style : Style) (s : String) : Option Json :=
  match tag with
  | none => if style = .plain then plainValue s else some (.string s)
  | some tag =>
    match ["bool", "int", "float", "null"].find? fun name => tag = Tag.standard name with
    | some name => taggedValue name s
    | none => some (.string s)

def toDatum (tag : Option String) (style : Style) (s : String) : Datum :=
  let plain := style = .plain
  let truth := plain || (style = .literal && tag = some (Tag.standard "bool"))
  let missing := match tag with
    | none => plain && Plain.nullWords.contains s
    | some t => plain && t = Tag.standard "null" && isNullWord s
  let d : Datum := .scalar
    { text := some s
      truth := if truth then Plain.truthOf? s else none
      value := valueOf tag style s
      missing
      hollow := plain && s.isEmpty }
  if Tag.isLocal tag then .tagged d else d

def empty : Datum := toDatum none .plain ""

end Scalar

structure Reader where
  tokens : List Token
  /-- Named parts, and how many repetitions each of them holds. -/
  anchors : List (String × Datum × Nat) := []
  /-- What the handles of tags stand for. -/
  handles : List (String × String) := [("!", "!"), ("!!", Tag.standard "")]
  /-- How many scalars, repetitions, starts and ends of collections have been read. -/
  events : Nat := 0
  /-- How many repetitions of named parts there are, those inside repeated parts included. -/
  repeats : Nat := 0

namespace Reader

def next (r : Reader) : Reader := { r with tokens := r.tokens.drop 1 }

def count (r : Reader) (events : Nat) : Reader := { r with events := r.events + events }

def name (r : Reader) (anchor : Option String) (d : Datum) (repeats : Nat) : Reader :=
  match anchor with
  | some a => { r with anchors := (a, d, r.repeats - repeats) :: r.anchors }
  | none => r

def repeated? (r : Reader) (anchor : String) : Option (Datum × Reader) :=
  (List.lookup anchor r.anchors).map fun (d, inside) =>
    (d, { r.next.count 1 with repeats := r.repeats + 1 + inside })

def absent (r : Reader) : Datum × Reader := (Scalar.empty, r.count 1)

def tagOf? (r : Reader) (handle text : String) : Option String :=
  if handle.isEmpty then some text else (List.lookup handle r.handles).map (· ++ text)

def properties? (r : Reader) : Option (Option String × Option String × Reader) :=
  match r.tokens with
  | .anchor a :: .tag h t :: _ => (r.tagOf? h t).map fun tag => (some a, some tag, r.next.next)
  | .anchor a :: _ => some (some a, none, r.next)
  | .tag h t :: .anchor a :: _ => (r.tagOf? h t).map fun tag => (some a, some tag, r.next.next)
  | .tag h t :: _ => (r.tagOf? h t).map fun tag => (none, some tag, r.next)
  | _ => some (none, none, r)

def depthLimit : Nat := 128

def collection (depth : Nat) (tag : Option String) (d : Datum) : Datum :=
  if depth = 0 then .scalar {} else if Tag.isLocal tag then .tagged d else d

def asList (depth : Nat) (tag : Option String) : List Datum × Reader → Datum × Reader
  | (items, r) => (collection depth tag (.list false items), r.count 2)

def asMap (depth : Nat) (tag : Option String) : List (Datum × Datum) × Reader → Datum × Reader
  | (entries, r) => (collection depth tag (.map entries), r.count 2)

/-- A scalar that is written out. The bare tag says no more about it than none. -/
def asScalar (tag : Option String) (style : Style) (s : String) (r : Reader) : Datum × Reader :=
  (Scalar.toDatum (tag.filter (· ≠ "!")) style s, r.count 1)

def asBlank? (anchor tag : Option String) (r : Reader) : Option (Datum × Reader) :=
  if anchor.isSome || tag.isSome then some (Scalar.toDatum tag .plain "", r.count 1) else none

def endsEntry : Option Token → Bool
  | some .key | some .value | some .blockEnd => true
  | _ => false

def endsItem : Option Token → Bool
  | some .item => true
  | t => endsEntry t

def endsFlowItem : Option Token → Bool
  | some .comma | some .flowListEnd => true
  | _ => false

def endsFlowEntry : Option Token → Bool
  | some .comma | some .flowMapEnd => true
  | _ => false

def isValue : Option Token → Bool
  | some .value => true
  | _ => false

mutual

/-- A node. Only in a block, blocks can be nodes, and only as the value of a name can the dashes of
a list stand in the column of the name. -/
def node? (block dashes : Bool) (depth : Nat) : Nat → Reader → Option (Datum × Reader)
  | 0, _ => none
  | fuel + 1, r =>
    match r.tokens with
    | .alias a :: _ => r.repeated? a
    | _ => do
      let before := r.repeats
      let (anchor, tag, r) ← r.properties?
      let (d, r) ←
        match r.tokens with
        | .scalar s style :: _ => some (asScalar tag style s r.next)
        | .flowListStart :: _ => (flowItems? (depth - 1) [] fuel r.next).map (asList depth tag)
        | .flowMapStart :: _ => (flowEntries? (depth - 1) [] fuel r.next).map (asMap depth tag)
        | t :: _ =>
          match block, dashes, t with
          | _, true, .item => (dashItems? (depth - 1) [] fuel r).map (asList depth tag)
          | true, _, .blockListStart =>
            (blockItems? (depth - 1) [] fuel r.next).map (asList depth tag)
          | true, _, .blockMapStart =>
            (blockEntries? (depth - 1) [] fuel r.next).map (asMap depth tag)
          | _, _, _ => asBlank? anchor tag r
        | [] => asBlank? anchor tag r
      return (d, r.name anchor d before)
termination_by structural fuel => fuel

def blockItems? (depth : Nat) (soFar : List Datum) : Nat → Reader → Option (List Datum × Reader)
  | 0, _ => none
  | fuel + 1, r =>
    match r.tokens with
    | .blockEnd :: _ => some (soFar.reverse, r.next)
    | .item :: rest =>
      let ended := match rest.head? with
        | some .item | some .blockEnd => true
        | _ => false
      if ended then blockItems? depth (Scalar.empty :: soFar) fuel (r.next.count 1)
      else do
        let (d, r) ← node? true false depth fuel r.next
        blockItems? depth (d :: soFar) fuel r
    | _ => none
termination_by structural fuel => fuel

def dashItems? (depth : Nat) (soFar : List Datum) : Nat → Reader → Option (List Datum × Reader)
  | 0, _ => none
  | fuel + 1, r =>
    match r.tokens with
    | .item :: rest =>
      if endsItem rest.head? then dashItems? depth (Scalar.empty :: soFar) fuel (r.next.count 1)
      else do
        let (d, r) ← node? true false depth fuel r.next
        dashItems? depth (d :: soFar) fuel r
    | _ => some (soFar.reverse, r)
termination_by structural fuel => fuel

def blockEntries? (depth : Nat) (soFar : List (Datum × Datum)) :
    Nat → Reader → Option (List (Datum × Datum) × Reader)
  | 0, _ => none
  | fuel + 1, r =>
    match r.tokens with
    | .blockEnd :: _ => some (soFar.reverse, r.next)
    | .key :: rest => do
      let (k, r) ←
        if endsEntry rest.head? then some r.next.absent else node? true true depth fuel r.next
      let (v, r) ← blockValue? depth fuel r
      blockEntries? depth ((k, v) :: soFar) fuel r
    | _ => none
termination_by structural fuel => fuel

def blockValue? (depth : Nat) : Nat → Reader → Option (Datum × Reader)
  | 0, _ => none
  | fuel + 1, r =>
    match r.tokens with
    | .value :: rest =>
      if endsEntry rest.head? then some r.next.absent else node? true true depth fuel r.next
    | _ => some r.absent
termination_by structural fuel => fuel

/-- Items between brackets. An entry among them is a map of its own. -/
def flowItems? (depth : Nat) (soFar : List Datum) : Nat → Reader → Option (List Datum × Reader)
  | 0, _ => none
  | fuel + 1, r =>
    match r.tokens with
    | .flowListEnd :: _ => some (soFar.reverse, r.next)
    | tokens => do
      let r ← if soFar.isEmpty then some r else match tokens with
        | .comma :: _ => some r.next
        | _ => none
      match r.tokens with
      | .flowListEnd :: _ => return (soFar.reverse, r.next)
      | .key :: rest =>
        let (k, r) ←
          if isValue rest.head? || endsFlowItem rest.head? then some r.next.next.absent
          else node? false false (depth - 1) fuel r.next
        let (v, r) ←
          match r.tokens with
          | .value :: rest =>
            if endsFlowItem rest.head? then some r.next.absent
              else node? false false (depth - 1) fuel r.next
          | _ => some r.absent
        flowItems? depth (collection depth none (.map [(k, v)]) :: soFar) fuel (r.count 2)
      | _ =>
        let (d, r) ← node? false false depth fuel r
        flowItems? depth (d :: soFar) fuel r
termination_by structural fuel => fuel

def flowEntries? (depth : Nat) (soFar : List (Datum × Datum)) :
    Nat → Reader → Option (List (Datum × Datum) × Reader)
  | 0, _ => none
  | fuel + 1, r =>
    match r.tokens with
    | .flowMapEnd :: _ => some (soFar.reverse, r.next)
    | tokens => do
      let r ← if soFar.isEmpty then some r else match tokens with
        | .comma :: _ => some r.next
        | _ => none
      match r.tokens with
      | .flowMapEnd :: _ => return (soFar.reverse, r.next)
      | .key :: rest =>
        let (k, r) ←
          if isValue rest.head? || endsFlowEntry rest.head? then some r.next.absent
          else node? false false depth fuel r.next
        let (v, r) ←
          match r.tokens with
          | .value :: rest =>
            if endsFlowEntry rest.head? then some r.next.absent
              else node? false false depth fuel r.next
          | _ => some r.absent
        flowEntries? depth ((k, v) :: soFar) fuel r
      | _ =>
        let (k, r) ← node? false false depth fuel r
        flowEntries? depth ((k, Scalar.empty) :: soFar) fuel (r.count 1)
termination_by structural fuel => fuel

end

def directives? (version : Bool) (seen : List String) : List Token → Reader → Option Reader
  | .directive (.version major minor) :: rest, r =>
    if version || major ≠ 1 || (minor ≠ 1 && minor ≠ 2) then none
    else directives? true seen rest r.next
  | .directive (.tag handle text) :: rest, r =>
    if seen.contains handle then none
    else directives? version (handle :: seen) rest { r.next with
        handles := (handle, text) :: r.handles }
  | _, r => some r

def ended (r : Reader) : Bool :=
  r.tokens.all fun
    | .documentEnd => true
    | _ => false

def nothing : Datum := .scalar { missing := true, hollow := true }

def endsDocument : Option Token → Bool
  | some (.directive _) | some .documentStart | some .documentEnd | none => true
  | _ => false

def repeatLimit : Nat := 100

/-- What has been read, if it is the only document and is not inflated by repetitions. -/
def finish? (r : Reader) (d : Datum) : Option Datum :=
  if r.ended && r.repeats ≤ repeatLimit * r.events then some d else none

/-- The only document. One that starts with a mark may be empty. -/
def document? (r : Reader) : Option Datum := do
  let fuel := 3 * r.tokens.length + 3
  let r ← directives? false [] r.tokens r
  match r.tokens with
  | .documentStart :: rest =>
    let (d, r) ←
      if endsDocument rest.head? then some r.next.absent
        else node? true false depthLimit fuel r.next
    r.finish? d
  | _ =>
    let (d, r) ← node? true false depthLimit fuel r
    r.finish? d

end Reader

def read? (text : String) : Option Datum := do
  let tokens ← tokens? text.toList
  if tokens.isEmpty then return Reader.nothing
  Reader.document? { tokens }

end ApiContract.Yaml
