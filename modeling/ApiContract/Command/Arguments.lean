namespace ApiContract.Command

inductive Format where
  | yaml | json
deriving DecidableEq, Repr

structure Arguments where
  project : String
  config : Option String := none
  manifest : Option String := none
  format : Format := .yaml
  output : Option String := none
  verbose : Bool := false
deriving DecidableEq, Repr

inductive UsageError where
  | unknownArgument
  | invalidValue
  | argumentConflict
  | tooManyValues
  | missingRequiredArgument
  | help
  | version
deriving DecidableEq, Repr

inductive Slot where
  | project | config | manifest | format | output
deriving DecidableEq, Repr

inductive Switch where
  | takes (slot : Slot)
  | verbose
  | help
  | version
deriving DecidableEq, Repr

namespace Switch

def ofLong? (name : String) : Option Switch :=
  List.lookup name [("config", takes .config), ("routes", takes .manifest),
    ("format", takes .format), ("output", takes .output), ("verbose", verbose), ("help", help),
    ("version", version)]

def ofShort? (c : Char) : Option Switch :=
  List.lookup c [('c', takes .config), ('r', takes .manifest), ('f', takes .format),
    ('o', takes .output), ('v', verbose), ('h', help), ('V', version)]

end Switch

def Format.ofText? (text : String) : Option Format :=
  if text = "yaml" then some .yaml else if text = "json" then some .json else none

structure Reading where
  values : List (Slot × String) := []
  verbose : Bool := false
  /-- A slot whose value has not been looked at, and the value, if it has come. -/
  pending : Option (Slot × Option String) := none
  /-- Whether two dashes have been read. -/
  onlyValues : Bool := false
  hasProject : Bool := false

namespace Reading

def admits (slot : Slot) (value : String) : Bool :=
  if slot = .format then (Format.ofText? value).isSome else !value.isEmpty

/-- Gives a value to a slot, which can have only one. -/
def give (r : Reading) (slot : Slot) (value : String) : Except UsageError Reading :=
  if (r.values.lookup slot).isSome then .error .argumentConflict
  else if admits slot value then .ok { r with values := r.values ++ [(slot, value)] }
  else .error .invalidValue

def settle (r : Reading) : Except UsageError Reading :=
  match r.pending with
  | none => .ok r
  | some (_, none) => .error .invalidValue
  | some (slot, some value) => { r with pending := none }.give slot value

def flip (r : Reading) : Switch → Except UsageError Reading
  | .verbose => do
    let r ← r.settle
    if r.verbose then throw .argumentConflict
    return { r with verbose := true }
  | .help => r.settle.bind fun _ => .error .help
  | .version => r.settle.bind fun _ => .error .version
  | .takes slot => r.settle.map fun r => { r with pending := some (slot, none) }

def long (r : Reading) (text : List Char) : Except UsageError Reading := do
  let name := text.takeWhile (· ≠ '=')
  let value := match text.dropWhile (· ≠ '=') with
    | [] => none
    | _ :: value => some (String.ofList value)
  match Switch.ofLong? (String.ofList name), value with
  | none, _ => throw .unknownArgument
  | some (.takes slot), some value => (← r.settle).give slot value
  | some _, some _ => throw .tooManyValues
  | some switch, none => r.flip switch

/-- Options by their letters. The value of one may follow it at once, with or without an equals
sign. -/
def short (r : Reading) : List Char → Except UsageError Reading
  | [] => .ok r
  | c :: rest => do
    match Switch.ofShort? c, rest with
    | none, _ => throw .unknownArgument
    | some (.takes slot), '=' :: value => (← r.settle).give slot (String.ofList value)
    | some (.takes slot), v :: value => (← r.settle).give slot (String.ofList (v :: value))
    | some switch, rest => short (← r.flip switch) rest

/-- A value that is no option's: the project. -/
def free (r : Reading) (value : String) : Except UsageError Reading := do
  if r.hasProject then throw .unknownArgument
  return { ← r.settle with pending := some (.project, some value), hasProject := true }

def step (r : Reading) (argument : String) : Except UsageError Reading :=
  if r.onlyValues then r.free argument
  else
    match argument.toList with
    | ['-', '-'] => .ok { r with onlyValues := true }
    | '-' :: '-' :: text => r.long text
    | '-' :: c :: text => r.short (c :: text)
    | _ =>
      match r.pending with
      | some (slot, none) => .ok { r with pending := some (slot, some argument) }
      | _ => r.free argument

def finish (r : Reading) : Except UsageError Arguments := do
  let r ← r.settle
  match r.values.lookup .project with
  | none => throw .missingRequiredArgument
  | some project =>
    return {
      project
      config := r.values.lookup .config
      manifest := r.values.lookup .manifest
      format := ((r.values.lookup .format).bind Format.ofText?).getD .yaml
      output := r.values.lookup .output
      verbose := r.verbose }

end Reading

def Arguments.parse (arguments : List String) : Except UsageError Arguments := do
  (← arguments.foldlM Reading.step {}).finish

end ApiContract.Command
