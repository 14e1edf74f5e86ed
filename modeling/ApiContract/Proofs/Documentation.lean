import ApiContract.Proofs.NormalUris
import ApiContract.Source.Doc

namespace ApiContract

namespace Text

def isBlankLine (line : List Char) : Bool := line.all isBlank

theorem mem_of_mem_cutAt {separator : Char} {s piece : List Char} (h : piece ∈ cutAt separator s)
    {c : Char} (hc : c ∈ piece) : c ∈ s := by
  induction s generalizing piece with
  | nil =>
    obtain rfl := List.mem_singleton.mp h
    exact hc
  | cons first s ih =>
    rw [cutAt] at h
    split at h
    · obtain rfl | h := List.mem_cons.mp h
      · exact absurd hc List.not_mem_nil
      · exact List.mem_cons_of_mem _ (ih h hc)
    · cases hs : cutAt separator s with
      | nil => exact absurd hs (cutAt_ne_nil separator s)
      | cons next pieces =>
        rw [hs] at h ih
        obtain rfl | h := List.mem_cons.mp h
        · obtain rfl | hc := List.mem_cons.mp hc
          · exact List.mem_cons_self
          · exact List.mem_cons_of_mem _ (ih List.mem_cons_self hc)
        · exact List.mem_cons_of_mem _ (ih (List.mem_cons_of_mem _ h) hc)

theorem mem_of_mem_strip {p : Char → Bool} {s : List Char} {c : Char} (h : c ∈ strip p s) :
    c ∈ s := by
  obtain ⟨front, back, -, -, hs⟩ := exists_strip p s
  rw [hs]
  exact List.mem_append_left _ (List.mem_append_right _ h)

variable {front inner back : List (List Char)}

theorem isBlank_of_mem_join (h : ∀ line ∈ front, line = []) :
    ∀ c ∈ join ['\n'] front, isBlank c = true := by
  induction front with
  | nil => exact nofun
  | cons line front ih =>
    obtain ⟨rfl, hfront⟩ := List.forall_mem_cons.mp h
    cases front with
    | nil => exact nofun
    | cons next front => exact List.forall_mem_cons.mpr ⟨rfl, ih hfront⟩

theorem strip_join_front (h : ∀ line ∈ front, line = []) (rest : List (List Char)) :
    strip isBlank (join ['\n'] (front ++ rest)) = strip isBlank (join ['\n'] rest) := by
  have hblank := isBlank_of_mem_join h
  by_cases hfront : front = []
  · rw [hfront, List.nil_append]
  by_cases hrest : rest = []
  · rw [hrest, List.append_nil, strip_eq_nil_iff.mpr hblank]
    rfl
  · rw [join_append _ hfront hrest, strip_append_left]
    exact List.forall_mem_append.mpr ⟨hblank, List.forall_mem_singleton.mpr rfl⟩

theorem strip_join_back (h : ∀ line ∈ back, line = []) (rest : List (List Char)) :
    strip isBlank (join ['\n'] (rest ++ back)) = strip isBlank (join ['\n'] rest) := by
  have hblank := isBlank_of_mem_join h
  by_cases hback : back = []
  · rw [hback, List.append_nil]
  by_cases hrest : rest = []
  · rw [hrest, List.nil_append, strip_eq_nil_iff.mpr hblank]
    rfl
  · rw [join_append _ hrest hback, List.append_assoc, strip_append_right]
    exact List.forall_mem_append.mpr ⟨List.forall_mem_singleton.mpr rfl, hblank⟩

theorem strip_join_inner (hends : ∀ line ∈ inner, strip isBlank line = line)
    (hfirst : inner.head? ≠ some []) (hlast : inner.getLast? ≠ some []) :
    strip isBlank (join ['\n'] inner) = join ['\n'] inner := by
  rw [strip_eq_self_iff]
  constructor
  · cases inner with
    | nil => exact nofun
    | cons line inner =>
      have hne : line ≠ [] := fun heq => hfirst (congrArg some heq)
      rw [head?_join hne]
      exact (strip_eq_self_iff.mp (hends line List.mem_cons_self)).1
  · cases inner using List.reverseRecOn with
    | nil => exact nofun
    | append_singleton inner line =>
      rw [List.getLast?_concat] at hlast
      have hne : line ≠ [] := fun heq => hlast (congrArg some heq)
      rw [getLast?_join hne]
      exact (strip_eq_self_iff.mp (hends line (List.mem_append_right _ List.mem_cons_self))).2

theorem exists_inner (lines : List (List Char)) :
    ∃ front inner back, lines = front ++ inner ++ back ∧ (∀ line ∈ front, line = []) ∧
      (∀ line ∈ back, line = []) ∧ inner.head? ≠ some [] ∧ inner.getLast? ≠ some [] := by
  let rest := lines.dropWhile List.isEmpty
  have hback :
      rest.rdropWhile List.isEmpty ++ (rest.reverse.takeWhile List.isEmpty).reverse = rest := by
    rw [List.rdropWhile, ← List.reverse_append, List.takeWhile_append_dropWhile,
      List.reverse_reverse]
  refine ⟨lines.takeWhile List.isEmpty, rest.rdropWhile List.isEmpty,
    (rest.reverse.takeWhile List.isEmpty).reverse, ?_, fun line h => ?_, fun line h => ?_,
    fun h => ?_, fun h => ?_⟩
  · rw [List.append_assoc, hback]
    exact List.takeWhile_append_dropWhile.symm
  · exact List.isEmpty_iff.mp (List.mem_takeWhile_imp h)
  · exact List.isEmpty_iff.mp (List.mem_takeWhile_imp (List.mem_reverse.mp h))
  · obtain ⟨more, hmore⟩ := List.head?_eq_some_iff.mp h
    have hfirst := List.head?_dropWhile_not List.isEmpty lines
    have hrest : lines.dropWhile List.isEmpty =
        [] :: (more ++ (rest.reverse.takeWhile List.isEmpty).reverse) := by
      rw [← List.cons_append, ← hmore]
      exact hback.symm
    rw [hrest] at hfirst
    exact Bool.noConfusion hfirst
  · have hne : rest.rdropWhile List.isEmpty ≠ [] := by
      rintro heq
      rw [heq] at h
      cases h
    refine List.rdropWhile_last_not List.isEmpty rest hne ?_
    rw [List.getLast?_eq_some_getLast hne] at h
    rw [Option.some.inj h]
    rfl

theorem filter_inner (hfront : ∀ line ∈ front, line = []) (hback : ∀ line ∈ back, line = []) :
    (front ++ inner ++ back).filter (fun line => !isBlankLine line) =
      inner.filter fun line => !isBlankLine line := by
  have hempty : ∀ lines : List (List Char), (∀ line ∈ lines, line = []) →
      (lines.filter fun line => !isBlankLine line) = [] := by
    intro lines hlines
    rw [List.filter_eq_nil_iff]
    intro line hline
    rw [hlines line hline]
    exact nofun
  rw [List.filter_append, List.filter_append, hempty front hfront, hempty back hback,
    List.nil_append, List.append_nil]

end Text

namespace Source.Doc

open Text

def lines (text : String) : List (List Char) :=
  if text.toList = [] then [] else cutAt '\n' text.toList

def documenting (text : String) : Attribute := ⟨.ofIdent "doc", .value (some text)⟩

/-- There are no other blanks than those of a line and those that end one. -/
def IsUsual (text : String) : Prop :=
  ∀ c ∈ text.toList, isBlank c = true → c ∈ [' ', '\t', '\r', '\n']

/-- A text without tags, without marks and blanks at the ends of its lines, and without blank lines
around it. -/
structure IsClean (text : String) : Prop where
  untagged : ∀ line ∈ lines text, line.head? ≠ some '@'
  unmarked : ∀ line ∈ lines text,
      ∀ c, line.head? = some c ∨ line.getLast? = some c → c ∉ [' ', '\t', '\r', '/', '*']
  first : ∀ line, (lines text).head? = some line → isBlankLine line = false
  last : ∀ line, (lines text).getLast? = some line → isBlankLine line = false

/-- A line of a text as it is kept. -/
structure Kept (line : List Char) : Prop where
  unmarked : strip isMargin line = line
  untagged : isTag line = false
  ends : strip isBlank line = line
  single : '\n' ∉ line

theorem kept_of_mem {text : String} (h : IsUsual text) {line : List Char}
    (hline : line ∈ keptLines text) : Kept line := by
  obtain ⟨hmem, htag⟩ := List.mem_filter.mp hline
  obtain ⟨piece, hpiece, rfl⟩ := List.mem_map.mp hmem
  have hsingle : '\n' ∉ cleanLine piece :=
    fun hc => not_mem_of_mem_cutAt hpiece (mem_of_mem_strip hc)
  have hunmarked : strip isMargin (cleanLine piece) = cleanLine piece := strip_strip piece
  -- a blank inside a line is a margin, as the line has no end in it
  have hblank : ∀ c ∈ cleanLine piece, isMargin c = false → isBlank c = false := by
    intro c hc hmargin
    by_contra hb
    have husual := h c (mem_of_mem_cutAt hpiece (mem_of_mem_strip hc)) (by simpa using hb)
    simp only [List.mem_cons, List.not_mem_nil, or_false] at husual
    obtain rfl | rfl | rfl | rfl := husual
    · cases hmargin
    · cases hmargin
    · cases hmargin
    · exact hsingle hc
  obtain ⟨hfirst, hlast⟩ := strip_eq_self_iff.mp hunmarked
  refine ⟨hunmarked, by simpa using htag,
    strip_eq_self_iff.mpr ⟨fun c hc => ?_, fun c hc => ?_⟩, hsingle⟩
  · exact hblank c (List.mem_of_mem_head? hc) (hfirst c hc)
  · exact hblank c (List.mem_of_getLast? hc) (hlast c hc)

theorem Kept.isBlankLine_eq {line : List Char} (h : Kept line) (hne : line ≠ []) :
    isBlankLine line = false := by
  obtain ⟨c, line, rfl⟩ := List.exists_cons_of_ne_nil hne
  have hc : isBlank c = false := (strip_eq_self_iff.mp h.ends).1 c rfl
  rw [isBlankLine, List.all_cons, hc, Bool.false_and]

theorem lines_join {inner : List (List Char)} (hsingle : ∀ line ∈ inner, '\n' ∉ line)
    (hfirst : inner.head? ≠ some []) : lines (String.ofList (join ['\n'] inner)) = inner := by
  rw [lines, String.toList_ofList]
  cases inner with
  | nil => rfl
  | cons line inner =>
    obtain ⟨c, rest, rfl⟩ := List.exists_cons_of_ne_nil fun heq => hfirst (congrArg some heq)
    have hne : join ['\n'] ((c :: rest) :: inner) ≠ [] := by
      intro heq
      have hhead := @head?_join ['\n'] _ (List.cons_ne_nil c rest) inner
      rw [heq] at hhead
      cases hhead
    rw [if_neg hne, cutAt_join (List.cons_ne_nil _ _) hsingle]

theorem join_lines (text : String) : join ['\n'] (lines text) = text.toList := by
  rw [lines]
  split
  next h => exact h.symm
  next => exact join_cutAt '\n' text.toList

/-- The lines of a documentation are those that are kept, less the empty ones around them. -/
theorem exists_kept_eq {attributes : List Attribute}
    (h : ∀ text ∈ attributes.filterMap textOf?, IsUsual text) : ∃ front back,
    (attributes.filterMap textOf?).flatMap keptLines = front ++ lines (text attributes) ++ back ∧
      (∀ line ∈ front, line = []) ∧ (∀ line ∈ back, line = []) ∧
      (∀ line ∈ lines (text attributes), Kept line) ∧ (lines (text attributes)).head? ≠ some [] ∧
      (lines (text attributes)).getLast? ≠ some [] := by
  have hkept : ∀ line ∈ (attributes.filterMap textOf?).flatMap keptLines, Kept line := by
    intro line hline
    obtain ⟨text, htext, hline⟩ := List.mem_flatMap.mp hline
    exact kept_of_mem (h text htext) hline
  obtain ⟨front, inner, back, heq, hfront, hback, hfirst, hlast⟩ :=
    exists_inner ((attributes.filterMap textOf?).flatMap keptLines)
  have hinner : ∀ line ∈ inner, Kept line := fun line hline =>
    hkept line (heq ▸ List.mem_append_left _ (List.mem_append_right _ hline))
  have htext : text attributes = String.ofList (join ['\n'] inner) := by
    rw [text, trim, String.toList_ofList, heq, strip_join_back hback, strip_join_front hfront,
      strip_join_inner (fun line hline => (hinner line hline).ends) hfirst hlast]
  have hlines : lines (text attributes) = inner := by
    rw [htext, lines_join (fun line hline => (hinner line hline).single) hfirst]
  rw [hlines]
  exact ⟨front, back, heq, hfront, hback, hinner, hfirst, hlast⟩

theorem isClean_of_kept {text : String} (hkept : ∀ line ∈ lines text, Kept line)
    (hfirst : (lines text).head? ≠ some []) (hlast : (lines text).getLast? ≠ some []) :
    IsClean text where
  untagged line hline := by simpa [isTag] using (hkept line hline).untagged
  unmarked line hline c hc := by
    obtain ⟨hstart, hend⟩ := strip_eq_self_iff.mp (hkept line hline).unmarked
    have hmargin : isMargin c = false := hc.elim (hstart c) (hend c)
    simpa [isMargin, and_assoc] using hmargin
  first line hline := by
    refine (hkept line (List.mem_of_mem_head? hline)).isBlankLine_eq ?_
    rintro rfl
    exact hfirst hline
  last line hline := by
    refine (hkept line (List.mem_of_getLast? hline)).isBlankLine_eq ?_
    rintro rfl
    exact hlast hline

theorem text_documenting {d : String} (hkept : ∀ line ∈ lines d, Kept line)
    (hfirst : (lines d).head? ≠ some []) (hlast : (lines d).getLast? ≠ some []) :
    text [documenting d] = d := by
  have hjoin : join ['\n'] (keptLines d) = join ['\n'] (lines d) := by
    by_cases hd : d.toList = []
    · rw [keptLines, lines, if_pos hd, hd]
      rfl
    · have hclean : (cutAt '\n' d.toList).map cleanLine = cutAt '\n' d.toList := by
        refine (List.map_congr_left fun line hline => (hkept line ?_).unmarked).trans
          (List.map_id _)
        rwa [lines, if_neg hd]
      rw [keptLines, hclean, lines, if_neg hd, List.filter_eq_self.mpr]
      intro line hline
      rw [(hkept line (by rwa [lines, if_neg hd])).untagged, Bool.not_false]
  have htexts : [documenting d].filterMap textOf? = [d] := rfl
  rw [text, htexts, List.flatMap_singleton, hjoin, trim, String.toList_ofList,
    strip_join_inner (fun line hline => (hkept line hline).ends) hfirst hlast, join_lines,
    String.ofList_toList]

theorem filter_keptLines (text : String) : ((keptLines text).filter fun line => !isBlankLine line) =
    ((lines text).map cleanLine).filter fun line => !isBlankLine line && !isTag line := by
  rw [keptLines, List.filter_filter, lines]
  split
  next h =>
    rw [h]
    rfl
  next => rfl

theorem filter_flatMap_keptLines (texts : List String) :
    ((texts.flatMap keptLines).filter fun line => !isBlankLine line) = ((texts.flatMap lines).map
        cleanLine).filter fun line => !isBlankLine line && !isTag line := by
  induction texts with
  | nil => rfl
  | cons text texts ih =>
    rw [List.flatMap_cons, List.flatMap_cons, List.filter_append, List.map_append,
      List.filter_append, ih, filter_keptLines]

/-- Where the texts of the attributes have no unusual blanks, the documentation is clean, it is its
own documentation, and the lines in it that are not blank are the lines of the attributes, stripped,
that are neither blank nor tags. -/
theorem text_clean {attributes : List Attribute}
    (h : ∀ text ∈ attributes.filterMap textOf?, IsUsual text) :
    IsClean (text attributes) ∧ text [documenting (text attributes)] = text attributes ∧
      (lines (text attributes)).filter (fun line => !isBlankLine line) =
        (((attributes.filterMap textOf?).flatMap lines).map cleanLine).filter fun line =>
          !isBlankLine line && !isTag line := by
  obtain ⟨front, back, heq, hfront, hback, hkept, hfirst, hlast⟩ := exists_kept_eq h
  refine ⟨isClean_of_kept hkept hfirst hlast, text_documenting hkept hfirst hlast, ?_⟩
  rw [← filter_flatMap_keptLines, heq, filter_inner hfront hback]

def taggedDocs : List Attribute :=
  [documenting "@group users", documenting " List users.\n\n * Returns all users.\t",
    documenting "****", documenting " @authenticated"]

theorem text_taggedDocs : (∀ text ∈ taggedDocs.filterMap textOf?, IsUsual text) ∧
    text taggedDocs = "List users.\n\nReturns all users." ∧ IsClean (text taggedDocs) ∧
      text [documenting (text taggedDocs)] = text taggedDocs ∧
        (lines (text taggedDocs)).filter (fun line => !isBlankLine line) =
          (((taggedDocs.filterMap textOf?).flatMap lines).map cleanLine).filter fun line =>
            !isBlankLine line && !isTag line := by
  have hall : ((taggedDocs.filterMap textOf?).all fun text => text.toList.all fun c =>
      !isBlank c || [' ', '\t', '\r', '\n'].contains c) = true := by decide
  have husual : ∀ text ∈ taggedDocs.filterMap textOf?, IsUsual text := by
    intro text htext c hc hblank
    have hchar := List.all_eq_true.mp (List.all_eq_true.mp hall text htext) c hc
    rwa [hblank, Bool.not_true, Bool.false_or, List.contains_iff_mem] at hchar
  exact ⟨husual, by decide, text_clean husual⟩

end Source.Doc

end ApiContract
