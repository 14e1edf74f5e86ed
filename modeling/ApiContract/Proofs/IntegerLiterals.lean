import ApiContract.Proofs.JsonLiterals
import ApiContract.Proofs.LastAssignment
import Mathlib.Data.Nat.Digits.Defs

namespace ApiContract

open Source

namespace Source

def baseMarks : List (Nat × List Char) :=
  [(2, ['0', 'b']), (8, ['0', 'o']), (10, []), (16, ['0', 'x'])]

def integerSuffixes : List String :=
  ["", "i8", "i16", "i32", "i64", "i128", "isize", "u8", "u16", "u32", "u64", "u128", "usize"]

def IsDigit (base d : Nat) (c : Char) : Prop :=
  d < base ∧ (c = d.digitChar ∨ c = d.digitChar.toUpper)

instance (base d : Nat) (c : Char) : Decidable (IsDigit base d c) :=
  inferInstanceAs (Decidable (_ ∧ _))

/-- An integer as it is written: the mark of its base, digits with underscores among them, and its
type. -/
structure Numeral where
  base : Nat
  mark : List Char
  marked : (base, mark) ∈ baseMarks
  digits : List Nat
  ne_nil : digits ≠ []
  written : List Char
  spelled : List.Forall₂ (IsDigit base) digits (written.filter (· ≠ '_'))
  suffix : String
  suffixed : suffix ∈ integerSuffixes

namespace Numeral

def chars (x : Numeral) : List Char := x.mark ++ (x.written ++ x.suffix.toList)

def value (x : Numeral) : Nat := Nat.ofDigits x.base x.digits.reverse

theorem ofDigits_reverse (base : Nat) (ds : List Nat) :
    Nat.ofDigits base ds.reverse = ds.foldl (fun n d => n * base + d) 0 := by
  rw [Nat.ofDigits_eq_foldr, List.foldr_reverse]
  congr 1
  funext n d
  simp [Nat.mul_comm, Nat.add_comm]

theorem digitValue_of_isDigit {base d : Nat} {mark : List Char} {c : Char}
    (hbase : (base, mark) ∈ baseMarks) (h : IsDigit base d c) :
    Literal.digitValue base c = some d := by
  have hall : ∀ entry ∈ baseMarks, ∀ d < entry.1, Literal.digitValue entry.1 d.digitChar = some d ∧
      Literal.digitValue entry.1 d.digitChar.toUpper = some d := by decide
  obtain ⟨hlower, hupper⟩ := hall _ hbase d h.1
  obtain ⟨-, rfl | rfl⟩ := h
  · exact hlower
  · exact hupper

/-- Digits are read up to what is no digit of the base. -/
theorem digitsFrom_append {base : Nat} {mark : List Char} (hbase : (base, mark) ∈ baseMarks)
    {ds : List Nat} {written rest : List Char}
    (h : List.Forall₂ (IsDigit base) ds (written.filter (· ≠ '_')))
    (hrest : ∀ c ∈ rest.head?, c ≠ '_' ∧ Literal.digitValue base c = none) (value : Nat)
    (seen : Bool) : Literal.digitsFrom base value seen (written ++ rest) =
    (ds.foldl (fun n d => n * base + d) value, seen || !ds.isEmpty, rest) := by
  induction written generalizing ds value seen with
  | nil =>
    cases h
    cases rest with
    | nil => simp [Literal.digitsFrom]
    | cons c rest =>
      obtain ⟨hgap, hdigit⟩ := hrest c rfl
      rw [List.nil_append, Literal.digitsFrom, hdigit]
      · simp
      · exact hgap
  | cons c written ih =>
    by_cases hgap : c = '_'
    · subst hgap
      rw [List.filter_cons_of_neg (by simp)] at h
      rw [List.cons_append, Literal.digitsFrom, ih h]
    · rw [List.filter_cons_of_pos (by simpa using hgap)] at h
      cases h with
      | @cons d _ ds _ hd h =>
        rw [List.cons_append, Literal.digitsFrom, digitValue_of_isDigit hbase hd]
        · simp [ih h]
        · exact hgap

theorem suffix_head {base : Nat} {mark : List Char} (hbase : (base, mark) ∈ baseMarks)
    {suffix : String} (h : suffix ∈ integerSuffixes) :
    ∀ c ∈ suffix.toList.head?, c ≠ '_' ∧ Literal.digitValue base c = none := by
  have hall :
      (baseMarks.all fun entry => integerSuffixes.all fun suffix => suffix.toList.head?.all fun c =>
      c != '_' && (Literal.digitValue entry.1 c).isNone) = true := by decide
  intro c hc
  have hentry := List.all_eq_true.mp (List.all_eq_true.mp hall _ hbase) _ h
  rw [Option.mem_def.mp hc] at hentry
  simpa using hentry

variable (x : Numeral)

theorem digitsFrom_written : Literal.digitsFrom x.base 0 false (x.written ++ x.suffix.toList) =
    (x.value, true, x.suffix.toList) := by
  rw [digitsFrom_append x.marked x.spelled (suffix_head x.marked x.suffixed), value,
    ofDigits_reverse, List.isEmpty_eq_false_iff.mpr x.ne_nil]
  rfl

theorem not_marked_of_decimal (h : x.base = 10) {c : Char} (hc : c ∈ ['x', 'o', 'b'])
    (rest : List Char) : x.written ++ x.suffix.toList ≠ '0' :: c :: rest := by
  intro heq
  have hread := x.digitsFrom_written
  have hfirst : Literal.digitsFrom 10 0 false ('0' :: c :: rest) = (0, true, c :: rest) := by
    simp only [List.mem_cons, List.not_mem_nil, or_false] at hc
    obtain rfl | rfl | rfl := hc <;> rfl
  rw [h, heq, hfirst] at hread
  have hsuffixes : (integerSuffixes.all fun suffix =>
        suffix.toList.head?.all fun c => !(['x', 'o', 'b'].contains c)) =
      true := by
    decide
  have hsuffix : x.suffix.toList = c :: rest := (congrArg (·.2.2) hread).symm
  have hhead := List.all_eq_true.mp hsuffixes _ x.suffixed
  rw [hsuffix, List.head?_cons, Option.all_some, List.contains_iff_mem.mpr hc] at hhead
  cases hhead

theorem decimal_match (h : x.base = 10) :
    (match x.written ++ x.suffix.toList with
      | '0' :: 'x' :: rest => (16, rest)
      | '0' :: 'o' :: rest => (8, rest)
      | '0' :: 'b' :: rest => (2, rest)
      | _ => (10, x.written ++ x.suffix.toList)) = (10, x.written ++ x.suffix.toList) := by
  split
  next rest heq => exact absurd heq (x.not_marked_of_decimal h (by decide) rest)
  next rest heq => exact absurd heq (x.not_marked_of_decimal h (by decide) rest)
  next rest heq => exact absurd heq (x.not_marked_of_decimal h (by decide) rest)
  next => rfl

theorem integer?_chars : Literal.integer? x.chars = some (.integer x.value x.suffix) := by
  have hread := x.digitsFrom_written
  have hends : ∀ suffix ∈ integerSuffixes,
      (suffix.toList.isEmpty || Text.isIdentifier suffix.toList) = true ∧
        Literal.continuesAsFraction suffix.toList = false := by
    decide
  obtain ⟨hsuffix, hwhole⟩ := hends _ x.suffixed
  have hmarked := x.marked
  simp only [baseMarks, List.mem_cons, Prod.mk.injEq, List.not_mem_nil, or_false] at hmarked
  rw [chars]
  obtain ⟨hbase, hmark⟩ | ⟨hbase, hmark⟩ | ⟨hbase, hmark⟩ | ⟨hbase, hmark⟩ := hmarked
  · rw [hbase] at hread
    rw [hmark]
    simp [Literal.integer?, hread, hsuffix]
  · rw [hbase] at hread
    rw [hmark]
    simp [Literal.integer?, hread, hsuffix]
  · rw [hbase] at hread
    rw [hmark, List.nil_append]
    unfold Literal.integer?
    split
    next base digits heq =>
      obtain ⟨rfl, rfl⟩ := Prod.mk.inj ((x.decimal_match hbase).symm.trans heq)
      simp [hread, hsuffix, hwhole]
  · rw [hbase] at hread
    rw [hmark]
    simp [Literal.integer?, hread, hsuffix]

theorem ofNumeral_chars : Literal.ofNumeral x.chars = .integer x.value x.suffix := by
  rw [Literal.ofNumeral, integer?_chars]
  rfl

end Numeral

end Source

namespace Handler

/-- What an expression stands for after some steps, if it is made from integers by signs,
parentheses, references and names of such expressions. What it stands for, and what every expression
inside it does, is as `p` says. -/
inductive Denotes (p : Int → Prop) : List Step → Expr → Int → Prop where
  | numeral (before : List Step) (x : Numeral) (hp : p x.value) :
      Denotes p before (.lit (.ofNumeral x.chars)) x.value
  | negate {before : List Step} {e : Expr} {n : Int} (h : Denotes p before e n) (hp : p (-n)) :
    Denotes p before (.negate e) (-n)
  | paren {before : List Step} {e : Expr} {n : Int} (h : Denotes p before e n) :
      Denotes p before (.paren e) n
  | reference {before : List Step} {e : Expr} {n : Int} (h : Denotes p before e n) :
      Denotes p before (.reference e) n
  /-- The name was given to the value last; `None` is no name but a value of its own. -/
  | name {earlier later : List Step} {x : String} {value : Expr} {n : Int} (hx : x ≠ "None")
    (hlater : ∀ step ∈ later, step.assigned? ≠ some x) (h : Denotes p earlier value n) :
    Denotes p (earlier ++ .assign x value :: later) (localNamed x) n

def InRange (n : Int) : Prop := -(Int.pow 2 63) ≤ n ∧ n < Int.pow 2 64

/-- Those of them that are not the least one. -/
def AboveLeast (n : Int) : Prop := -(Int.pow 2 63) < n ∧ n < Int.pow 2 64

variable {c : Context} {parameters : List Parameter} {before : List Step} {e : Expr} {n : Int}

theorem Denotes.value?_peel {p : Int → Prop} (h : Denotes p before e n) (v : Evaluator) :
    v.value? (peel e) = v.value? e := by
  induction h with
  | numeral | negate | name => rfl
  | paren _ ih => exact ih
  | reference _ ih => exact ih

theorem value?_of_last {earlier later : List Step} {x : String} {value : Expr} (hx : x ≠ "None")
    (hlater : ∀ step ∈ later, step.assigned? ≠ some x) {found : Json}
    (h : (Scan.after c parameters earlier).value? (peel value) = some found) :
    (Scan.after c parameters (earlier ++ .assign x value :: later)).value? (localNamed x) =
      some found := by
  let v := Scan.after c parameters (earlier ++ .assign x value :: later)
  have hlookup : v.environment.lookup x = some (.literal found) := by
    have hevaluate : (Scan.after c parameters earlier).evaluate value = .literal found := by
      rw [Evaluator.evaluate_eq, h]
    exact (Scan.lookup_run_of_last earlier value hlater {}).trans (congrArg some hevaluate)
  have hlocal : v.value? (localNamed x) = localValue? v.environment x := rfl
  rw [hlocal, localValue?, if_neg hx, hlookup]

theorem value?_numeral (v : Evaluator) (x : Numeral) (h : (x.value : Int) < Int.pow 2 64) :
    v.value? (.lit (.ofNumeral x.chars)) = some (.number (.int x.value)) := by
  have hvalue : v.value? (.lit (.ofNumeral x.chars)) = (Literal.ofNumeral x.chars).value? := by
    rw [Evaluator.value?, value?]
  rw [hvalue, x.ofNumeral_chars, value?_integer h]

theorem value?_negate (v : Evaluator) (e : Expr) :
    v.value? (.negate e) = (v.value? e).bind negate := by
  rw [Evaluator.value?, value?]
  rfl

theorem Denotes.value?_eq_int (h : Denotes AboveLeast before e n) :
    (Scan.after c parameters before).value? e = some (.number (.int n)) := by
  induction h with
  | numeral before x hp => exact value?_numeral _ x hp.2
  | negate _ hp ih =>
    rw [value?_negate, ih, Option.bind_some, negate_int (Int.lt_of_neg_lt_neg hp.1)]
  | paren _ ih => exact ih
  | reference _ ih => exact ih
  | name hx hlater h ih => exact value?_of_last hx hlater ((h.value?_peel _).trans ih)

theorem negate_float (x : Float) : negate (.number (.float x)) = some (.number (.float (-x))) := rfl

theorem negate_opposite : negate (.number (.int (Int.pow 2 63))) =
    some (.number (.float (Number.ofInt (-(Int.pow 2 63))))) := by
  rfl

/-- An expression in which the least integer occurs stands for that or for its opposite, and its
value is the float. -/
theorem Denotes.cases_value? (h : Denotes InRange before e n) : Denotes AboveLeast before e n ∨
    (n = Int.pow 2 63 ∨ n = -(Int.pow 2 63)) ∧
      (Scan.after c parameters before).value? e = some (.number (.float (Number.ofInt n))) := by
  induction h with
  | numeral before x hp =>
    exact .inl (.numeral before x ⟨Int.lt_of_lt_of_le (by decide) (Int.natCast_nonneg _), hp.2⟩)
  | @negate before e n h hp ih =>
    obtain hinside | ⟨hn, hvalue⟩ := ih
    · obtain hlt | heq := Int.lt_or_eq_of_le hp.1
      · exact .inl (.negate hinside ⟨hlt, hp.2⟩)
      · -- the sign stands before the opposite of the least integer
        obtain rfl : Int.pow 2 63 = n := Int.neg_inj.mp heq
        refine .inr ⟨.inr rfl, ?_⟩
        rw [value?_negate, hinside.value?_eq_int, Option.bind_some, negate_opposite]
    · refine .inr ?_
      rw [value?_negate, hvalue, Option.bind_some, negate_float]
      obtain rfl | rfl := hn
      · exact ⟨.inr rfl, rfl⟩
      · exact ⟨.inl (Int.neg_neg _), rfl⟩
  | paren _ ih => exact ih.imp_left .paren
  | reference _ ih => exact ih.imp_left .reference
  | name hx hlater h ih =>
    exact ih.imp (.name hx hlater) fun ⟨hn, hvalue⟩ =>
      ⟨hn, value?_of_last hx hlater ((h.value?_peel _).trans hvalue)⟩

/-- An expression of integers in range has the integer that it stands for as its value, unless the
least integer of the signed range occurs in it. Then the value is the float of that integer. -/
theorem value?_of_denotes (c : Context) (parameters : List Parameter)
    (h : Denotes InRange before e n) : (Denotes AboveLeast before e n →
      (Scan.after c parameters before).value? e = some (.number (.int n))) ∧
    (¬ Denotes AboveLeast before e n →
      (Scan.after c parameters before).value? e = some (.number (.float (Number.ofInt n)))) :=
  ⟨Denotes.value?_eq_int, fun hleast => (h.cases_value?.resolve_left hleast).2⟩

def byteNumeral : Numeral where
  base := 16
  mark := ['0', 'x']
  marked := by decide
  digits := [15, 15]
  ne_nil := by decide
  written := ['F', 'F', '_']
  spelled := by decide
  suffix := "u8"
  suffixed := by decide

def oppositeOf (x : String) : Expr := .negate (.paren (.reference (localNamed x)))

theorem denotes_opposite {p : Int → Prop} (hbyte : p byteNumeral.value)
    (hopposite : p (-byteNumeral.value)) :
    Denotes p [.assign "limit" (.lit (.ofNumeral byteNumeral.chars))] (oppositeOf "limit")
      (-byteNumeral.value) := by
  have hname : Denotes p ([] ++ [.assign "limit" (.lit (.ofNumeral byteNumeral.chars))])
      (localNamed "limit") byteNumeral.value :=
    .name (by decide) nofun (.numeral [] byteNumeral hbyte)
  exact .negate (.paren (.reference hname)) hopposite

theorem value?_of_byte : byteNumeral.value = 255 ∧
    Denotes InRange [.assign "limit" (.lit (.ofNumeral byteNumeral.chars))] (oppositeOf "limit")
      (-byteNumeral.value) ∧
    (Scan.after presenter.context [] [.assign "limit" (.lit (.ofNumeral byteNumeral.chars))]).value?
        (oppositeOf "limit") =
      some (.number (.int (-byteNumeral.value))) := by
  have hdenotes := denotes_opposite (p := InRange) (by unfold InRange; decide)
    (by unfold InRange; decide)
  refine ⟨by decide, hdenotes, (value?_of_denotes presenter.context [] hdenotes).1 ?_⟩
  exact denotes_opposite (by unfold AboveLeast; decide)
    (by unfold AboveLeast; decide)

/-- The literal `9_223_372_036_854_775_808i64`. With a sign before it, it is the least integer of
its type. -/
def limitNumeral : Numeral where
  base := 10
  mark := []
  marked := by decide
  digits := [9, 2, 2, 3, 3, 7, 2, 0, 3, 6, 8, 5, 4, 7, 7, 5, 8, 0, 8]
  ne_nil := by decide
  written := "9_223_372_036_854_775_808".toList
  spelled := by decide
  suffix := "i64"
  suffixed := by decide

theorem not_value?_of_least :
    ¬ ∀ (c : Context) (parameters : List Parameter) (before : List Step) (e : Expr) (n : Int),
      Denotes InRange before e n →
        (Scan.after c parameters before).value? e = some (.number (.int n)) := by
  intro h
  have hlimit : (limitNumeral.value : Int) = Int.pow 2 63 := by decide
  have hdenotes :
      Denotes InRange [] (.negate (.lit (.ofNumeral limitNumeral.chars))) (-limitNumeral.value) :=
    .negate (.numeral [] limitNumeral (by unfold InRange; decide))
      (by unfold InRange; decide)
  have hvalue := h presenter.context [] [] _ _ hdenotes
  rw [value?_negate, value?_numeral _ _ (by rw [hlimit]; decide), Option.bind_some, hlimit,
    negate_opposite] at hvalue
  cases hvalue

end Handler

end ApiContract
