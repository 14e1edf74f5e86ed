import ApiContract.Project.FileTree

namespace ApiContract

namespace Text

theorem cutAt_of_not_mem {separator : Char} {s : List Char} (h : separator ∉ s) :
    cutAt separator s = [s] := by
  induction s with
  | nil => rfl
  | cons c s ih =>
    obtain ⟨hc, hs⟩ : separator ≠ c ∧ separator ∉ s := by simpa using h
    rw [cutAt, if_neg hc.symm, ih hs, grow]

theorem cutAt_append (separator : Char) (s t : List Char) :
    cutAt separator (s ++ separator :: t) = cutAt separator s ++ cutAt separator t := by
  induction s with
  | nil => simp [cutAt]
  | cons c s ih =>
    by_cases h : c = separator
    · simp [cutAt, h, ih]
    · cases hs : cutAt separator s with
      | nil => exact absurd hs (cutAt_ne_nil separator s)
      | cons piece pieces => simp [cutAt, h, ih, hs, grow]

theorem split_of_not_mem {separator : Char} {s : String} (h : separator ∉ s.toList) :
    split separator s = [s] := by
  rw [split, cutAt_of_not_mem h]
  simp

theorem split_between {separator : Char} {between : String} (h : between.toList = [separator])
    (front s : String) :
    split separator (front ++ between ++ s) = split separator front ++ split separator s := by
  have hchars : (front ++ between ++ s).toList = front.toList ++ separator :: s.toList := by
    simp [h]
  rw [split, hchars, cutAt_append, List.map_append, split, split]

theorem split_append (front s : String) :
    split '/' (front ++ "/" ++ s) = split '/' front ++ split '/' s :=
  split_between rfl front s

theorem splitFirst?_of_not_mem {c : Char} {s : List Char} (h : c ∉ s) : splitFirst? c s = none := by
  have hdrop : s.dropWhile (· ≠ c) = [] := by
    induction s with
    | nil => rfl
    | cons first s ih =>
      obtain ⟨hc, hs⟩ : c ≠ first ∧ c ∉ s := by simpa using h
      rw [List.dropWhile_cons_of_pos (by simpa using hc.symm), ih hs]
  rw [splitFirst?, hdrop]

theorem splitFirst?_append {c : Char} {s : List Char} (h : c ∉ s) (rest : List Char) :
    splitFirst? c (s ++ c :: rest) = some (s, rest) := by
  have hall : ∀ other ∈ s, decide (other ≠ c) = true :=
    fun other hother => decide_eq_true (ne_of_mem_of_not_mem hother h)
  rw [splitFirst?, List.dropWhile_append_of_pos hall, List.takeWhile_append_of_pos hall]
  simp

theorem eq_of_splitFirst? {c : Char} {s first rest : List Char}
    (h : splitFirst? c s = some (first, rest)) : s = first ++ c :: rest := by
  rw [splitFirst?] at h
  split at h
  next => cases h
  next other more hdrop =>
    obtain ⟨rfl, rfl⟩ := Prod.mk.inj (Option.some.inj h)
    obtain rfl : other = c := by
      have hother := List.head?_dropWhile_not (fun x => decide (x ≠ c)) s
      rw [hdrop] at hother
      simpa using hother
    rw [← hdrop, List.takeWhile_append_dropWhile]

end Text

namespace FilePath

/-- A name that is one step downward. -/
structure IsPlain (name : String) : Prop where
  ne_empty : name ≠ ""
  no_slash : '/' ∉ name.toList
  ne_dot : name ≠ "."
  ne_up : name ≠ ".."

variable {base name : String}

def before (base : String) : String :=
  if base.isEmpty then "" else if base.toList.getLast? = some '/' then base else base ++ "/"

theorem join_eq (base : String) (h : IsPlain name) : join base name = before base ++ name := by
  have hhead : name.toList.head? ≠ some '/' := fun he => h.no_slash (List.mem_of_head? he)
  rw [join, before]
  by_cases hempty : base.isEmpty = true
  · simp [hempty]
  · by_cases hlast : base.toList.getLast? = some '/' <;> simp [hhead, hempty, hlast]

theorem before_eq (hbase : base ≠ "") :
    ∃ front, before base = front ++ "/" ∧ (base = front ++ "/" ∨ base = front) := by
  have hempty : base.isEmpty = false := by simpa using hbase
  by_cases hlast : base.toList.getLast? = some '/'
  · obtain ⟨front, hchars⟩ := List.getLast?_eq_some_iff.mp hlast
    have hsplit : base = String.ofList front ++ "/" := by
      apply String.toList_inj.mp
      rw [String.toList_append, String.toList_ofList]
      exact hchars
    exact ⟨String.ofList front, by simp [before, hempty, hlast, ← hsplit], Or.inl hsplit⟩
  · exact ⟨base, by simp [before, hempty, hlast], Or.inr rfl⟩

def counted (pieces : List String) : List String :=
  pieces.filter fun piece => piece ≠ "" && piece ≠ "."

def ofPieces : List String → List String
  | "" :: more => if more.isEmpty then [] else "/" :: counted more
  | "." :: more => "." :: counted more
  | pieces => counted pieces

theorem parts_eq (path : String) : parts path = ofPieces (Text.split '/' path) := rfl

theorem counted_concat (pieces : List String) (h : IsPlain name) :
    counted (pieces ++ [name]) = counted pieces ++ [name] := by
  simp [counted, h.ne_empty, h.ne_dot]

theorem ofPieces_singleton (h : IsPlain name) : ofPieces [name] = [name] := by
  unfold ofPieces
  split
  next heq => exact absurd (List.cons.inj heq).1 h.ne_empty
  next heq => exact absurd (List.cons.inj heq).1 h.ne_dot
  next => exact counted_concat [] h

theorem ofPieces_concat {pieces : List String} (hne : pieces ≠ []) (hblank : pieces ≠ [""])
    (h : IsPlain name) : ofPieces (pieces ++ [name]) = ofPieces pieces ++ [name] := by
  obtain ⟨first, more, rfl⟩ := List.exists_cons_of_ne_nil hne
  rw [List.cons_append]
  by_cases hempty : first = ""
  · subst hempty
    have hmore : more ≠ [] := fun he => hblank (by rw [he])
    simp [ofPieces, hmore, counted_concat more h]
  · by_cases hdot : first = "."
    · subst hdot
      simp [ofPieces, counted_concat more h]
    · rw [ofPieces.eq_3, ofPieces.eq_3, ← List.cons_append, counted_concat _ h]
      all_goals simp [hempty, hdot]

theorem ofPieces_blank {pieces : List String} (hne : pieces ≠ []) (h : IsPlain name) :
    ofPieces (pieces ++ [name]) = ofPieces (pieces ++ [""]) ++ [name] := by
  obtain ⟨first, more, rfl⟩ := List.exists_cons_of_ne_nil hne
  have hcounted : ∀ pieces, counted (pieces ++ [""]) = counted pieces := by simp [counted]
  rw [List.cons_append, List.cons_append]
  by_cases hempty : first = ""
  · subst hempty
    simp [ofPieces, counted_concat more h, hcounted]
  · by_cases hdot : first = "."
    · subst hdot
      simp [ofPieces, counted_concat more h, hcounted]
    · rw [ofPieces.eq_3, ofPieces.eq_3, ← List.cons_append, ← List.cons_append,
        counted_concat _ h, hcounted]
      all_goals simp [hempty, hdot]

theorem split_ne_nil (path : String) : Text.split '/' path ≠ [] := by
  rw [Text.split, Ne, List.map_eq_nil_iff]
  exact Text.cutAt_ne_nil _ _

theorem split_ne_blank (hbase : base ≠ "") : Text.split '/' base ≠ [""] := by
  intro hsplit
  obtain ⟨piece, hcut, hpiece⟩ := List.map_eq_singleton_iff.mp hsplit
  have hchars := Text.join_cutAt '/' base.toList
  rw [hcut, Text.join] at hchars
  rw [hchars, String.ofList_toList] at hpiece
  exact hbase hpiece

theorem split_before (base : String) (h : IsPlain name) :
    ∃ pieces, Text.split '/' (before base ++ name) = pieces ++ [name] := by
  have hname : Text.split '/' name = [name] := Text.split_of_not_mem h.no_slash
  by_cases hbase : base = ""
  · subst hbase
    exact ⟨[], by simpa [before] using hname⟩
  · obtain ⟨front, hbefore, -⟩ := before_eq hbase
    exact ⟨Text.split '/' front, by rw [hbefore, Text.split_append, hname]⟩

theorem parts_join (base : String) (h : IsPlain name) :
    parts (join base name) = parts base ++ [name] := by
  have hname : Text.split '/' name = [name] := Text.split_of_not_mem h.no_slash
  rw [parts_eq, parts_eq, join_eq base h]
  by_cases hbase : base = ""
  · subst hbase
    have hempty : Text.split '/' "" = [""] := rfl
    have hbefore : before "" = "" := rfl
    rw [hbefore, String.empty_append, hname, hempty, ofPieces_singleton h]
    rfl
  · obtain ⟨front, hbefore, hfront⟩ := before_eq hbase
    have hempty : Text.split '/' "" = [""] := rfl
    rw [hbefore, Text.split_append, hname]
    obtain rfl | rfl := hfront
    · have hblank : Text.split '/' (front ++ "/") = Text.split '/' front ++ [""] := by
        rw [← String.append_empty (s := front ++ "/"), Text.split_append, hempty]
      rw [hblank]
      exact ofPieces_blank (split_ne_nil front) h
    · exact ofPieces_concat (split_ne_nil base) (split_ne_blank hbase) h

theorem foldl_join_concat (base : String) (place : List String) (name : String) :
    (place ++ [name]).foldl join base = join (place.foldl join base) name := by
  rw [List.foldl_append, List.foldl_cons, List.foldl_nil]

theorem parts_foldl_join (base : String) {place : List String} (h : ∀ name ∈ place, IsPlain name) :
    parts (place.foldl join base) = parts base ++ place := by
  induction place generalizing base with
  | nil => simp
  | cons name place ih =>
    obtain ⟨hname, hplace⟩ := List.forall_mem_cons.mp h
    rw [List.foldl_cons, ih _ hplace, parts_join base hname, List.append_assoc,
      List.singleton_append]

/-- What was joined to a path is what stands below it. -/
theorem relativeParts?_foldl_join (base : String) {place : List String}
    (h : ∀ name ∈ place, IsPlain name) :
    relativeParts? (place.foldl join base) base = some place := by
  simp [relativeParts?, parts_foldl_join base h]

theorem asksDirectory_join (base : String) (h : IsPlain name) :
    asksDirectory (join base name) = false := by
  obtain ⟨pieces, hpieces⟩ := split_before base h
  rw [asksDirectory, join_eq base h, hpieces, List.reverse_concat]
  split
  next heq =>
    obtain ⟨rfl, -⟩ := List.cons.inj heq
    simp [h.ne_empty, h.ne_dot]
  next => rfl

theorem fileName?_join (base : String) (h : IsPlain name) :
    fileName? (join base name) = some name := by
  have hroot : name ≠ "/" := by
    rintro rfl
    exact h.no_slash (by decide)
  simp [fileName?, parts_join base h, h.ne_up, h.ne_dot, hroot]

theorem splitExtension_of_not_mem (h : '.' ∉ name.toList) : splitExtension name = (name, none) := by
  have hreverse : '.' ∉ name.toList.reverse := fun hm => h (List.mem_reverse.mp hm)
  rw [splitExtension, Text.splitLast?, Text.splitFirst?_of_not_mem hreverse]
  rfl

theorem withExtension_join (base ext : String) (h : IsPlain name) (hdot : '.' ∉ name.toList)
    (hext : IsPlain (name ++ "." ++ ext)) :
    withExtension (join base name) ext = join base (name ++ "." ++ ext) := by
  have hchars : (join base name).toList = (before base).toList ++ name.toList := by
    rw [join_eq base h, String.toList_append]
  have hlast :
      Text.dropEnd (· = '/') (join base name).toList = (before base).toList ++ name.toList := by
    have hne : name.toList ≠ [] := fun he => h.ne_empty (String.toList_eq_nil_iff.mp he)
    obtain ⟨start, last, hname⟩ : ∃ start last, name.toList = start ++ [last] :=
      ⟨_, _, (List.dropLast_concat_getLast hne).symm⟩
    have hslash : last ≠ '/' := by
      rintro rfl
      exact h.no_slash (by simp [hname])
    rw [hchars, hname, ← List.append_assoc, Text.dropEnd, List.reverse_concat,
      List.dropWhile_cons_of_neg (by simpa using hslash), List.reverse_cons, List.reverse_reverse]
  have hlength : name.toList.length = name.length := String.length_toList
  have htake : ((before base).toList ++ name.toList).take
      (((before base).toList ++ name.toList).length - name.length) = (before base).toList := by
    simp [hlength]
  rw [withExtension, fileName?_join base h]
  simp only [hlast, htake, splitExtension_of_not_mem hdot]
  rw [join_eq base hext]
  simp [String.append_assoc]

end FilePath

namespace FileTree

open FilePath

variable {name : String}

theorem find?_append (tree : FileTree) (place more : List String) :
    tree.find? (place ++ more) = (tree.find? place).bind fun sub => sub.find? more := by
  induction place generalizing tree with
  | nil => rfl
  | cons name place ih =>
    cases tree with
    | file text => rfl
    | directory entries =>
      rw [List.cons_append, find?, find?]
      cases List.lookup name entries with
      | none => rfl
      | some sub => exact ih sub

theorem go_concat (soFar parts : List String) (h : IsPlain name) :
    steps.go soFar (parts ++ [name]) = steps.go soFar parts ++ [name] := by
  induction soFar, parts using steps.go.induct with
  | case1 soFar =>
    rw [List.nil_append, steps.go, steps.go, steps.go, List.reverse_cons]
    · exact h.ne_dot
    · exact h.ne_up
  | case2 soFar rest ih => simpa [steps.go] using ih
  | case3 rest ih => simpa [steps.go] using ih
  | case4 rest before ih => simpa [steps.go] using ih
  | case5 rest ih => simpa [steps.go] using ih
  | case6 rest _ before _ _ ih => simpa [steps.go] using ih
  | case7 soFar part rest _ _ ih => simpa [steps.go] using ih

theorem steps_join (base : String) (h : IsPlain name) :
    steps (join base name) = steps base ++ [name] := by
  rw [steps, parts_join base h, go_concat _ _ h, steps]

theorem leadsThrough_join (tree : FileTree) (base : String) (h : IsPlain name) :
    tree.leadsThrough (join base name) = tree.leadsThrough base := by
  have hlast : (parts base ++ [name])[(parts base).length]? = some name := by simp
  rw [leadsThrough, leadsThrough, parts_join base h, Bool.eq_iff_iff]
  simp only [List.length_append, List.length_singleton, List.range_succ, List.all_append,
    List.all_cons, List.all_nil, Bool.and_true, List.all_eq_true, List.mem_range, hlast,
    Option.some.injEq, h.ne_up, if_false]
  refine forall₂_congr fun n hn => ?_
  rw [List.getElem?_append_left hn, List.take_append_of_le_length (Nat.le_of_lt hn)]

theorem get?_join (tree : FileTree) (base : String) (h : IsPlain name) :
    tree.get? (join base name) = (tree.get? base).bind fun sub => sub.find? [name] := by
  rw [get?, get?, leadsThrough_join tree base h, steps_join base h, find?_append,
    asksDirectory_join base h]
  by_cases hleads : tree.leadsThrough base = true
  · rw [if_pos hleads, if_pos hleads]
    cases tree.find? (steps base) with
    | none => rfl
    | some sub =>
      cases sub with
      | file text => cases asksDirectory base <;> rfl
      | directory entries =>
        rw [Option.bind_some]
        cases find? (directory entries) [name] with
        | none => rfl
        | some sub => cases sub <;> rfl
  · rw [if_neg hleads, if_neg hleads, Option.bind_none]

theorem get?_foldl_join (tree : FileTree) (base : String) {place : List String}
    (h : ∀ name ∈ place, IsPlain name) :
    tree.get? (place.foldl join base) = (tree.get? base).bind fun sub => sub.find? place := by
  induction place generalizing base with
  | nil => simp [find?]
  | cons name place ih =>
    obtain ⟨hname, hplace⟩ := List.forall_mem_cons.mp h
    rw [List.foldl_cons, ih _ hplace, get?_join tree base hname, Option.bind_assoc]
    congr 1
    funext sub
    rw [← find?_append, List.singleton_append]

end FileTree

end ApiContract
