import ApiContract.Proofs.ByteOrder
import ApiContract.Proofs.ModuleFiles

namespace ApiContract

open FilePath

namespace FileTree

/-- Directories are listed in the order of their names, and names are single steps. -/
inductive Formed : List (String × FileTree) → Prop where
  | intro {entries : List (String × FileTree)} (sorted : Table.Sorted entries)
    (named : ∀ name node, (name, node) ∈ entries → name ≠ "" ∧ '/' ∉ name.toList)
    (inside : ∀ name inner, (name, directory inner) ∈ entries → Formed inner) : Formed entries

variable {entries : List (String × FileTree)} {name : String} {node : FileTree}
  {place : List String}

theorem exists_of_mem_placesAt (h : place ∈ placesAt name node) : ∃ more, place = name :: more := by
  cases node with
  | file text => exact ⟨[], List.mem_singleton.mp h⟩
  | directory inner =>
    obtain ⟨more, -, rfl⟩ := List.mem_map.mp h
    exact ⟨more, rfl⟩

theorem exists_of_mem_places (h : place ∈ places entries) :
    ∃ name node, (name, node) ∈ entries ∧ place ∈ placesAt name node := by
  induction entries with
  | nil => cases h
  | cons entry entries ih =>
    rw [places, List.mem_append] at h
    obtain h | h := h
    · exact ⟨entry.1, entry.2, List.mem_cons_self, h⟩
    · obtain ⟨name, node, hm, hplace⟩ := ih h
      exact ⟨name, node, List.mem_cons_of_mem _ hm, hplace⟩

theorem nodup_of_sorted (h : Table.Sorted entries) : (entries.map Prod.fst).Nodup :=
  List.pairwise_map.mpr (h.imp String.ne_of_lt)

theorem Formed.isFileAt_iff (h : Formed entries) :
    IsFileAt entries place ↔ place ∈ places entries := by
  refine ⟨IsFileAt.mem_places, fun hplace => ?_⟩
  induction h generalizing place with
  | @intro entries sorted named inside ih =>
    obtain ⟨name, node, hm, hplace⟩ := exists_of_mem_places hplace
    have hlookup := lookup_of_mem (nodup_of_sorted sorted) hm
    cases node with
    | file text =>
      obtain rfl := List.mem_singleton.mp hplace
      exact ⟨text, by rw [find?, hlookup]; rfl⟩
    | directory inner =>
      obtain ⟨more, hmore, rfl⟩ := List.mem_map.mp hplace
      obtain ⟨text, htext⟩ := ih name inner hm hmore
      exact ⟨text, by rw [find?, hlookup]; exact htext⟩

theorem Formed.named_of_mem (h : Formed entries) (hplace : place ∈ places entries) :
    ∀ name ∈ place, name ≠ "" ∧ '/' ∉ name.toList := by
  induction h generalizing place with
  | @intro entries sorted named inside ih =>
    obtain ⟨name, node, hm, hplace⟩ := exists_of_mem_places hplace
    cases node with
    | file text =>
      obtain rfl := List.mem_singleton.mp hplace
      exact List.forall_mem_singleton.mpr (named name _ hm)
    | directory inner =>
      obtain ⟨more, hmore, rfl⟩ := List.mem_map.mp hplace
      exact List.forall_mem_cons.mpr ⟨named name _ hm, ih name inner hm hmore⟩

/-- Places are listed in the order of their names, step by step. -/
theorem Formed.pairwise_places (h : Formed entries) : (places entries).Pairwise (· < ·) := by
  induction h with
  | @intro entries sorted named inside ih =>
    clear named inside
    induction entries with
    | nil => exact .nil
    | cons entry entries ihrest =>
      obtain ⟨name, node⟩ := entry
      obtain ⟨hfirst, hrest⟩ := List.pairwise_cons.mp sorted
      rw [places, List.pairwise_append]
      refine ⟨?_, ihrest hrest fun other inner hm => ih other inner (List.mem_cons_of_mem _ hm),
        fun p hp q hq => ?_⟩
      · cases node with
        | file text => exact List.pairwise_singleton _ _
        | directory inner =>
          refine List.pairwise_map.mpr ((ih name inner List.mem_cons_self).imp fun hlt => ?_)
          exact List.Lex.cons hlt
      · obtain ⟨other, node', hm, hq⟩ := exists_of_mem_places hq
        obtain ⟨p, rfl⟩ := exists_of_mem_placesAt hp
        obtain ⟨q, rfl⟩ := exists_of_mem_placesAt hq
        exact List.Lex.rel (hfirst _ hm)

end FileTree

namespace Scan

open FileTree

variable {entries : List (String × FileTree)} {refused : String → Option String}

theorem isSource_iff (name : String) :
    isSource name = true ↔ ∃ stem, stem ≠ "" ∧ name = stem ++ ".rs" := by
  rw [isSource, decide_eq_true_iff]
  constructor
  · intro h
    rw [splitExtension] at h
    split at h
    next stem ext hsplit =>
      split at h
      next => cases h
      next hstem =>
        rw [Text.splitLast?] at hsplit
        obtain ⟨⟨after, before⟩, hfirst, heq⟩ := Option.map_eq_some_iff.mp hsplit
        obtain ⟨rfl, rfl⟩ := Prod.mk.inj heq
        have hchars : name.toList = before.reverse ++ '.' :: after.reverse := by
          rw [← List.reverse_reverse name.toList, Text.eq_of_splitFirst? hfirst]
          simp
        have hending : after.reverse = ['r', 's'] := String.ofList_inj.mp (Option.some.inj h)
        refine ⟨String.ofList before.reverse, fun he => hstem ?_, String.toList_inj.mp ?_⟩
        · simpa using he
        · rw [hchars, hending, String.toList_append, String.toList_ofList]
          rfl
    next => cases h
  · rintro ⟨stem, hstem, rfl⟩
    have hchars : (stem ++ ".rs").toList.reverse = ['s', 'r'] ++ '.' :: stem.toList.reverse := by
      simp
    have hne : stem.toList.isEmpty = false := by simpa using hstem
    rw [splitExtension, Text.splitLast?, hchars, Text.splitFirst?_append (by decide)]
    simp [hne]

/-- Places of source files that lead through nothing that is skipped. -/
def isSought : List String → Bool
  | [] => false
  | [name] => !isSkipped name && isSource name
  | name :: more => !isSkipped name && isSought more

theorem isSought_cons {name : String} {more : List String} (h : more ≠ []) :
    isSought (name :: more) = (!isSkipped name && isSought more) := by
  obtain ⟨next, rest, rfl⟩ := List.exists_cons_of_ne_nil h
  rfl

theorem ne_nil_of_mem_places {place : List String} (h : place ∈ places entries) : place ≠ [] := by
  obtain ⟨name, node, -, hplace⟩ := exists_of_mem_places h
  obtain ⟨more, rfl⟩ := exists_of_mem_placesAt hplace
  exact List.cons_ne_nil _ _

theorem belowEach_eq (base : String) (entries : List (String × FileTree)) : belowEach base entries =
    ((places entries).filter isSought).map fun place => place.foldl join base := by
  match entries with
  | [] => rfl
  | (name, node) :: rest =>
    rw [belowEach, places, List.filter_append, List.map_append, ← belowEach_eq base rest]
    congr 1
    cases node with
    | file text =>
      cases hskipped : isSkipped name <;> cases hsource : isSource name <;>
        simp [placesAt, atPlace, isSought, hskipped, hsource]
    | directory inner =>
      have hsought :
          ∀ place ∈ places inner, isSought (name :: place) = (!isSkipped name && isSought place) :=
        fun place hplace => isSought_cons (ne_nil_of_mem_places hplace)
      rw [placesAt, List.filter_map, List.map_map]
      cases hskipped : isSkipped name with
      | true =>
        have hnone : (places inner).filter (isSought ∘ (name :: ·)) = [] :=
          List.filter_eq_nil_iff.mpr fun place hplace => by simp [hsought place hplace, hskipped]
        rw [hnone]
        rfl
      | false =>
        have hsame :
            (places inner).filter (isSought ∘ (name :: ·)) = (places inner).filter isSought :=
          List.filter_congr fun place hplace => by simp [hsought place hplace, hskipped]
        rw [hsame]
        exact belowEach_eq (join base name) inner

theorem isSought_iff (place : List String) :
    isSought place = true ↔ (∀ name ∈ place, isSkipped name = false) ∧
        ∃ stem, stem ≠ "" ∧ place.getLast? = some (stem ++ ".rs") := by
  induction place with
  | nil => simp [isSought]
  | cons name more ih =>
    cases more with
    | nil => simp [isSought, isSource_iff]
    | cons next rest =>
      rw [isSought_cons (List.cons_ne_nil _ _), Bool.and_eq_true, ih]
      simp only [List.forall_mem_cons, List.getLast?_cons_cons, Bool.not_eq_true', and_assoc]

theorem isSkipped_eq_false (name : String) :
    isSkipped name = false ↔ name.toList.head? ≠ some '.' ∧ name ≠ "target" := by
  simp [isSkipped]

mutual

theorem foldl_walk (hread : ∀ path, refused path = none) (place name : String) (node : FileTree)
    (found : Found) : (walk refused place name node).foldl Found.take found =
    { found with files := found.files ++ atPlace place name node } := by
  match node with
  | .file _ => cases h : isSource name <;> simp [walk, atPlace, Found.take, h]
  | .directory entries =>
    rw [walk, atPlace, hread]
    exact foldl_walkEach hread place entries found

theorem foldl_walkEach (hread : ∀ path, refused path = none) (path : String)
    (entries : List (String × FileTree)) (found : Found) :
    (walkEach refused path entries).foldl Found.take found =
      { found with files := found.files ++ belowEach path entries } := by
  match entries with
  | [] => simp [walkEach, belowEach]
  | (name, node) :: rest =>
    rw [walkEach, belowEach, List.foldl_append]
    cases hskipped : isSkipped name with
    | true => exact foldl_walkEach hread path rest found
    | false =>
      rw [if_neg Bool.false_ne_true, if_neg Bool.false_ne_true, foldl_walk hread,
        foldl_walkEach hread path rest, List.append_assoc]

end

theorem search_eq (hread : ∀ path, refused path = none) (tree : FileTree) (sourceDir : String) :
    search refused tree sourceDir = (files tree sourceDir).map fun paths => ⟨paths, []⟩ := by
  rw [search, files]
  split
  next entries _ =>
    rw [foldl_walk hread]
    rfl
  next => rfl

theorem isPlain_of_shown {name : String} (hne : name ≠ "") (hslash : '/' ∉ name.toList)
    (h : isSkipped name = false) : IsPlain name := by
  refine ⟨hne, hslash, ?_, ?_⟩
  · rintro rfl
    exact absurd h (by decide)
  · rintro rfl
    exact absurd h (by decide)

theorem isPlain_of_isSought (h : Formed entries) {place : List String}
    (hplace : place ∈ places entries) (hsought : isSought place = true) :
    ∀ name ∈ place, IsPlain name := by
  obtain ⟨hshown, -⟩ := (isSought_iff place).mp hsought
  exact fun name hm => isPlain_of_shown (h.named_of_mem hplace name hm).1
    (h.named_of_mem hplace name hm).2 (hshown name hm)

theorem map_bytes_lt {steps steps' : List String} (h : steps < steps') :
    steps.map Text.bytes < steps'.map Text.bytes := by
  induction h with
  | nil => exact .nil
  | rel h => exact .rel ((Text.bytes_lt_iff _ _).mpr h)
  | cons _ ih => exact .cons ih

/-- A scan finds just the source files that are not below anything hidden, in the order of their
paths step by step. It has nothing to warn of where every directory can be read. -/
theorem search_exact {tree : FileTree} {sourceDir : String}
    (hdir : tree.get? sourceDir = some (.directory entries)) (hformed : Formed entries)
    (hread : ∀ path, refused path = none) :
    ∃ paths, search refused tree sourceDir = .ok ⟨paths, []⟩ ∧ files tree sourceDir = .ok paths ∧
      (∀ path, path ∈ paths ↔ ∃ place, IsFileAt entries place ∧
          (∀ name ∈ place, name.toList.head? ≠ some '.' ∧ name ≠ "target") ∧
          (∃ stem, stem ≠ "" ∧ place.getLast? = some (stem ++ ".rs")) ∧
          path = place.foldl join sourceDir) ∧
      paths.Pairwise fun path path' =>
        (parts path).map Text.bytes < (parts path').map Text.bytes := by
  have hfiles : files tree sourceDir = .ok (belowEach sourceDir entries) := by rw [files, hdir]
  refine ⟨belowEach sourceDir entries, by rw [search_eq hread, hfiles]; rfl, hfiles,
    fun path => ?_, ?_⟩
  · rw [belowEach_eq, List.mem_map]
    refine exists_congr fun place => ?_
    rw [List.mem_filter, isSought_iff, hformed.isFileAt_iff, and_assoc, and_assoc,
      eq_comm (a := path)]
    simp only [isSkipped_eq_false]
  · rw [belowEach_eq, List.pairwise_map]
    refine (hformed.pairwise_places.filter isSought).imp_of_mem
      fun {place place'} hplace hplace' hlt => ?_
    obtain ⟨hplace, hsought⟩ := List.mem_filter.mp hplace
    obtain ⟨hplace', hsought'⟩ := List.mem_filter.mp hplace'
    rw [parts_foldl_join sourceDir (isPlain_of_isSought hformed hplace hsought),
      parts_foldl_join sourceDir (isPlain_of_isSought hformed hplace' hsought')]
    exact map_bytes_lt (List.append_left_lt hlt)

def mixedEntries : List (String × FileTree) :=
  [(".git", .directory [("x.rs", .file none)]), ("a", .directory [("x.rs", .file none)]),
    ("a-b.rs", .file none), ("a.rs", .file none), ("target", .directory [("y.rs", .file none)])]

theorem formed_mixedEntries : Formed mixedEntries := by
  have hsteps :
      ∀ name ∈ "x.rs" :: "y.rs" :: mixedEntries.map Prod.fst, name ≠ "" ∧ '/' ∉ name.toList := by
    decide
  have hsingle : ∀ name ∈ ["x.rs", "y.rs"], Formed [(name, .file none)] := fun name hm => by
    refine .intro (List.pairwise_singleton _ _) (fun other node h => ?_) (fun other inner h => ?_)
    · obtain ⟨rfl, -⟩ := Prod.mk.inj (List.mem_singleton.mp h)
      exact hsteps other (List.mem_append_left (mixedEntries.map Prod.fst) hm)
    · cases (Prod.mk.inj (List.mem_singleton.mp h)).2
  refine .intro (by decide) (fun name node h => ?_) (fun name inner h => ?_)
  · exact hsteps name (List.mem_append_right ["x.rs", "y.rs"] (List.mem_map_of_mem h))
  · simp only [mixedEntries, List.mem_cons, Prod.mk.injEq, FileTree.directory.injEq, reduceCtorEq,
      and_false, List.not_mem_nil, or_false, false_or] at h
    obtain ⟨-, rfl⟩ | ⟨-, rfl⟩ | ⟨-, rfl⟩ := h
    all_goals exact hsingle _ (by decide)

/-- In a directory that is itself called like build output. -/
theorem search_exact_target :
    let tree : FileTree := .directory [("target", .directory mixedEntries)]
    let paths := ["target/a/x.rs", "target/a-b.rs", "target/a.rs"]
    tree.get? "target" = some (.directory mixedEntries) ∧ Formed mixedEntries ∧
      search (fun _ => none) tree "target" = .ok ⟨paths, []⟩ ∧ paths.Pairwise fun path path' =>
        (parts path).map Text.bytes < (parts path').map Text.bytes := by
  intro tree paths
  have hdir : tree.get? "target" = some (.directory mixedEntries) := rfl
  have hfiles : files tree "target" = .ok paths := rfl
  obtain ⟨found, hsearch, hfound, -, hsorted⟩ :=
    search_exact hdir formed_mixedEntries (fun _ : String => rfl)
  obtain rfl := Except.ok.inj (hfiles.symm.trans hfound)
  exact ⟨hdir, formed_mixedEntries, hsearch, hsorted⟩

end Scan

end ApiContract
