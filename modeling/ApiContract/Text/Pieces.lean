import ApiContract.Text.Blank

namespace ApiContract.Text

def grow (c : Char) : List (List Char) → List (List Char)
  | [] => [[c]]
  | piece :: pieces => (c :: piece) :: pieces

/-- The pieces between the separators; one more than there are separators. -/
def cutAt (separator : Char) : List Char → List (List Char)
  | [] => [[]]
  | c :: rest => if c = separator then [] :: cutAt separator rest else grow c (cutAt separator rest)

def cutPath : List Char → List (List Char)
  | [] => [[]]
  | ':' :: ':' :: rest => [] :: cutPath rest
  | c :: rest => grow c (cutPath rest)

def join (separator : List Char) : List (List Char) → List Char
  | [] => []
  | [piece] => piece
  | piece :: next :: pieces => piece ++ separator ++ join separator (next :: pieces)

def dropStart (p : Char → Bool) (s : List Char) : List Char := s.dropWhile p

def dropEnd (p : Char → Bool) (s : List Char) : List Char := (s.reverse.dropWhile p).reverse

def strip (p : Char → Bool) (s : List Char) : List Char := dropEnd p (dropStart p s)

theorem cutAt_ne_nil (separator : Char) (s : List Char) : cutAt separator s ≠ [] := by
  cases s with
  | nil => simp [cutAt]
  | cons c rest =>
    by_cases h : c = separator
    · simp [cutAt, h]
    · cases hr : cutAt separator rest <;> simp [cutAt, h, hr, grow]

theorem join_grow (separator : List Char) (c : Char) (pieces : List (List Char)) :
    join separator (grow c pieces) = c :: join separator pieces := by
  match pieces with
  | [] => rfl
  | [_] => rfl
  | _ :: _ :: _ => rfl

/-- Nothing is lost but the separators. -/
theorem join_cutAt (separator : Char) (s : List Char) :
    join [separator] (cutAt separator s) = s := by
  induction s with
  | nil => rfl
  | cons c rest ih =>
    by_cases h : c = separator
    · subst h
      cases hr : cutAt c rest with
      | nil => exact absurd hr (cutAt_ne_nil c rest)
      | cons piece pieces =>
        rw [hr] at ih
        simp [cutAt, hr, join, ih]
    · simp [cutAt, h, join_grow, ih]

def split (separator : Char) (s : String) : List String :=
  (cutAt separator s.toList).map String.ofList

def trim (s : String) : String := String.ofList (strip isBlank s.toList)

def stripped (p : Char → Bool) (s : String) : String := String.ofList (strip p s.toList)

def splitFirst? (c : Char) (s : List Char) : Option (List Char × List Char) :=
  match s.dropWhile (· ≠ c) with
  | [] => none
  | _ :: rest => some (s.takeWhile (· ≠ c), rest)

def splitLast? (c : Char) (s : List Char) : Option (List Char × List Char) :=
  (splitFirst? c s.reverse).map fun (after, before) => (before.reverse, after.reverse)

def splitLastPath? (s : List Char) : Option (List Char × List Char) :=
  go [] s.reverse
where
  go (after : List Char) : List Char → Option (List Char × List Char)
    | ':' :: ':' :: before => some (before.reverse, after)
    | c :: before => go (c :: after) before
    | [] => none

def suffix? (ending s : List Char) : Option (List Char) :=
  if ending.isSuffixOf s then some (s.take (s.length - ending.length)) else none

def contains (part s : List Char) : Bool :=
  match s with
  | [] => part.isEmpty
  | c :: rest => part.isPrefixOf (c :: rest) || contains part rest

def lowerAscii (s : String) : String := String.ofList (s.toList.map Char.toLower)

end ApiContract.Text
