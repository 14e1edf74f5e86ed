import ApiContract.Proofs.Reading
import ApiContract.Source.Lexer

namespace ApiContract.Source

open Token

theorem isIdentifier_ofList {spelling : List Char} (h : Text.isIdentifier spelling = true) :
    isIdentifier (String.ofList spelling) = true := by
  unfold isIdentifier
  rw [String.toList_ofList]
  split
  next rest =>
    -- the mark of a raw identifier is no part of an identifier
    have hmark : Text.isIdentifierPart '#' = false := by decide
    simp [Text.isIdentifier, hmark] at h
  next => exact h

theorem isIdentifier_raw {spelling : List Char} (h : Text.isIdentifier spelling = true) :
    isIdentifier (String.ofList ('r' :: '#' :: spelling)) = true := by
  unfold isIdentifier
  rw [String.toList_ofList]
  exact h

/-- A character that no identifier has. -/
def IsForeign (c : Char) : Prop :=
  Text.isIdentifierStart c = false ∧ Text.isIdentifierPart c = false ∧ c ≠ '#'

theorem not_mem_of_isForeign {c : Char} (hc : IsForeign c) {name : String}
    (h : isIdentifier name = true) : c ∉ name.toList := by
  obtain ⟨hstart, hpart, hmark⟩ := hc
  have hplain : ∀ spelling, Text.isIdentifier spelling = true → c ∉ spelling := by
    intro spelling hs hm
    cases spelling with
    | nil => cases hm
    | cons first rest =>
      simp only [Text.isIdentifier, Bool.and_eq_true, List.all_eq_true] at hs
      obtain rfl | hm := List.mem_cons.mp hm
      · rw [hstart] at hs
        cases hs.1
      · rw [hs.2 c hm] at hpart
        cases hpart
  unfold isIdentifier at h
  split at h
  next rest hname =>
    rw [hname]
    intro hm
    obtain rfl | hm := List.mem_cons.mp hm
    · exact absurd hpart (by decide)
    · obtain rfl | hm := List.mem_cons.mp hm
      · exact hmark rfl
      · exact hplain rest h hm
  next => exact hplain _ h

theorem ne_empty_of_isIdentifier {name : String} (h : isIdentifier name = true) : name ≠ "" := by
  rintro rfl
  exact absurd h (by decide)

namespace Lexer

theorem isIdentifier_of_word? {s name rest : List Char} (h : word? s = some (name, rest)) :
    Text.isIdentifier name = true := by
  cases s with
  | nil => cases h
  | cons c s =>
    rw [word?] at h
    split at h
    next hc =>
      cases h
      rw [Text.isIdentifier, hc, Bool.true_and]
      exact List.all_takeWhile
    next => cases h

theorem isIdentifier_of_anyIdent? {s name rest : List Char} (h : anyIdent? s = some (name, rest)) :
    isIdentifier (String.ofList name) = true := by
  unfold anyIdent? at h
  split at h
  next rest =>
    split at h
    next name rest hword =>
      split at h
      next => cases h
      next =>
        cases h
        exact isIdentifier_raw (isIdentifier_of_word? hword)
    next => cases h
  next => exact isIdentifier_ofList (isIdentifier_of_word? h)

theorem spelled_leaf? {s rest : List Char} {token : Token} (h : leaf? s = some (token, rest)) :
    ∀ name ∈ token.identifiers, isIdentifier name = true := by
  have hsilent : token.identifiers = [] ∨ ident? s = some (token, rest) := by
    unfold leaf? at h
    split at h
    next =>
      cases h
      exact Or.inl rfl
    next =>
      split at h
      next =>
        unfold lifetime? at h
        grind [Token.identifiers]
      next =>
        split at h
        next =>
          cases h
          exact Or.inl rfl
        next => exact Or.inr h
      next => cases h
  obtain hsilent | hident := hsilent
  · simp [hsilent]
  · unfold ident? at hident
    split at hident
    next => cases hident
    next =>
      obtain ⟨⟨spelling, _⟩, hany, heq⟩ := Option.map_eq_some_iff.mp hident
      cases heq
      simpa [identifiers] using isIdentifier_of_anyIdent? hany

theorem spelled_docTokens (text : List Char) (inner : Bool) : Spelled (docTokens text inner) := by
  have hdoc : isIdentifier "doc" = true := by decide
  cases inner <;> simp [docTokens, Spelled, identifiersOfAll, identifiers, hdoc]

theorem spelled_read (fuel : Nat) {open_ : List (Bracket × List Token)} {soFar : List Token}
    {text : List Char} {tokens : List Token} (hopen : ∀ group ∈ open_, Spelled group.2)
    (hsoFar : Spelled soFar) (h : read open_ soFar fuel text = some tokens) : Spelled tokens := by
  induction fuel generalizing open_ soFar text with
  | zero => cases h
  | succ fuel ih =>
    unfold read at h
    simp only at h
    split at h
    next doc inner rest _ =>
      split at h
      next => cases h
      next =>
        refine ih hopen ?_ h
        exact (spelled_append _ _).mpr ⟨spelled_reverse (spelled_docTokens doc inner), hsoFar⟩
    next =>
      split at h
      next =>
        split at h
        next =>
          cases h
          exact spelled_reverse hsoFar
        next => cases h
      next c rest _ =>
        split at h
        next =>
          refine ih hopen ?_ h
          exact (spelled_cons _ _).mpr ⟨by simp [identifiers], hsoFar⟩
        next =>
          split at h
          next bracket _ =>
            exact ih (List.forall_mem_cons.mpr ⟨hsoFar, hopen⟩) spelled_nil h
          next bracket _ _ =>
            split at h
            next opened before outer =>
              obtain ⟨hbefore, houter⟩ := List.forall_mem_cons.mp hopen
              split at h
              next =>
                refine ih houter ((spelled_cons _ _).mpr ⟨?_, hbefore⟩) h
                rw [identifiers]
                exact spelled_reverse hsoFar
              next => cases h
            next => cases h
          next =>
            split at h
            next token rest hleaf =>
              exact ih hopen ((spelled_cons _ _).mpr ⟨spelled_leaf? hleaf, hsoFar⟩) h
            next => cases h

/-- The identifiers of a text are spelled as identifiers. -/
theorem spelled_tokens? {text : List Char} {tokens : List Token} (h : tokens? text = some tokens) :
    Spelled tokens :=
  spelled_read _ (List.forall_mem_nil _) spelled_nil h

end Lexer

end ApiContract.Source
