import ApiContract.Schema.Basic

namespace ApiContract.Schema

def readPair (first second meaning : Char) : List Char → List Char
  | x :: y :: rest =>
    if x = first ∧ y = second then meaning :: readPair first second meaning rest
    else x :: readPair first second meaning (y :: rest)
  | rest => rest

def unescape (s : List Char) : List Char := readPair '~' '0' '~' (readPair '~' '1' '/' s)

def definitionsPath : List Char := "#/definitions/".toList

def keyOf? (pointer : String) : Option String :=
  if definitionsPath.isPrefixOf pointer.toList then
    some (String.ofList (unescape (pointer.toList.drop definitionsPath.length)))
  else none

/-- A key with only its tildes escaped, as it stands between the two readings. -/
def escapeTilde : List Char → List Char
  | [] => []
  | '~' :: rest => '~' :: '0' :: escapeTilde rest
  | c :: rest => c :: escapeTilde rest

theorem readPair_cons (first second meaning c : Char) (rest : List Char) (h : c ≠ first) :
    readPair first second meaning (c :: rest) = c :: readPair first second meaning rest := by
  cases rest with
  | nil => rfl
  | cons y rest => rw [readPair, if_neg fun hp => h hp.1]

theorem readPair_slash (s : List Char) : readPair '~' '1' '/' (escapeKey s) = escapeTilde s := by
  fun_induction escapeKey s with
  | case1 => rfl
  | case2 rest ih =>
    rw [readPair, if_neg (by decide), readPair_cons _ _ _ _ _ (by decide), ih, escapeTilde]
  | case3 rest ih =>
    rw [readPair, if_pos ⟨rfl, rfl⟩, ih, escapeTilde]
    decide
  | case4 c rest hc hs ih =>
    rw [readPair_cons _ _ _ _ _ hc, ih, escapeTilde]
    exact hc

theorem readPair_tilde (s : List Char) : readPair '~' '0' '~' (escapeTilde s) = s := by
  fun_induction escapeTilde s with
  | case1 => rfl
  | case2 rest ih => rw [readPair, if_pos ⟨rfl, rfl⟩, ih]
  | case3 c rest hc ih => rw [readPair_cons _ _ _ _ _ hc, ih]

theorem unescape_escapeKey (s : List Char) : unescape (escapeKey s) = s := by
  rw [unescape, readPair_slash, readPair_tilde]

/-- A pointer leads back to the key that it was made from, whatever characters the key has. -/
theorem keyOf?_pointer (key : String) : keyOf? (pointer key) = some key := by
  have hchars : (pointer key).toList = definitionsPath ++ escapeKey key.toList := by
    rw [pointer, String.toList_append]
    exact congrArg (definitionsPath ++ ·) String.toList_ofList
  have hprefix : definitionsPath.isPrefixOf (definitionsPath ++ escapeKey key.toList) = true :=
    List.isPrefixOf_iff_prefix.mpr (List.prefix_append _ _)
  rw [keyOf?, hchars, if_pos hprefix, List.drop_left, unescape_escapeKey, String.ofList_toList]

example : keyOf? "#/definitions/a~1b~01" = some "a/b~1" := by decide

mutual

def references : Schema → List String
  | ⟨_, properties, _, items, _, _, reference⟩ =>
    reference.toList ++ referencesOfProperties properties ++ referencesOfItems items

def referencesOfProperties : Option (List (String × Schema)) → List String
  | some properties => referencesOfAll properties
  | none => []

def referencesOfAll : List (String × Schema) → List String
  | [] => []
  | (_, schema) :: rest => references schema ++ referencesOfAll rest

def referencesOfItems : Option Schema → List String
  | some schema => references schema
  | none => []

end

end ApiContract.Schema
