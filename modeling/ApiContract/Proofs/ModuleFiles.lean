import ApiContract.Module.Locate
import ApiContract.Proofs.FilePaths
import ApiContract.Proofs.Lexing
import ApiContract.Proofs.Table

namespace ApiContract

open FilePath

namespace FileTree

def IsFileAt (entries : List (String × FileTree)) (place : List String) : Prop :=
  ∃ text, (directory entries).find? place = some (file text)

mutual

def placesAt (name : String) : FileTree → List (List String)
  | .file _ => [[name]]
  | .directory entries => (places entries).map (name :: ·)

def places : List (String × FileTree) → List (List String)
  | [] => []
  | (name, node) :: rest => placesAt name node ++ places rest

end

/-- Directories are named like modules, and files are sources that are. -/
inductive Tidy : List (String × FileTree) → Prop where
  | intro {entries : List (String × FileTree)} (distinct : (entries.map Prod.fst).Nodup) (files :
      ∀ name text, (name, file text) ∈ entries →
        ∃ stem, Source.isIdentifier stem = true ∧ name = stem ++ ".rs") (directories : ∀ name inner,
        (name, directory inner) ∈ entries → Source.isIdentifier name = true ∧ name ≠ "mod")
      (inside : ∀ name inner, (name, directory inner) ∈ entries → Tidy inner) : Tidy entries

theorem lookup_of_mem {entries : List (String × FileTree)} (h : (entries.map Prod.fst).Nodup)
    {name : String} {node : FileTree} (hm : (name, node) ∈ entries) :
    List.lookup name entries = some node := by
  induction entries with
  | nil => cases hm
  | cons entry entries ih =>
    obtain ⟨hfirst, hrest⟩ := List.nodup_cons.mp h
    obtain rfl | hm := List.mem_cons.mp hm
    · simp
    · have hne : (name == entry.1) = false :=
        beq_eq_false_iff_ne.mpr fun he => hfirst (he ▸ List.mem_map_of_mem hm)
      rw [List.lookup_cons, hne]
      exact ih hrest hm

theorem mem_places_of_mem {entries : List (String × FileTree)} {name : String} {node : FileTree}
    {place : List String} (hm : (name, node) ∈ entries) (hp : place ∈ placesAt name node) :
    place ∈ places entries := by
  induction entries with
  | nil => cases hm
  | cons entry entries ih =>
    rw [places, List.mem_append]
    obtain rfl | hm := List.mem_cons.mp hm
    · exact Or.inl hp
    · exact Or.inr (ih hm)

theorem mem_placesAt {node : FileTree} {name : String} {more : List String} {text : Option String}
    (h : node.find? more = some (file text)) : name :: more ∈ placesAt name node := by
  induction more generalizing name node with
  | nil =>
    cases h
    rw [placesAt, List.mem_singleton]
  | cons step more ih =>
    cases node with
    | file other => cases h
    | directory entries =>
      rw [find?] at h
      split at h
      next sub hsub =>
        rw [placesAt]
        exact List.mem_map_of_mem (mem_places_of_mem (Table.mem_of_get? hsub) (ih h))
      next => cases h

theorem IsFileAt.mem_places {entries : List (String × FileTree)} {place : List String}
    (h : IsFileAt entries place) : place ∈ places entries := by
  obtain ⟨text, hfind⟩ := h
  cases place with
  | nil => cases hfind
  | cons name more =>
    rw [find?] at hfind
    split at hfind
    next node hnode => exact mem_places_of_mem (Table.mem_of_get? hnode) (mem_placesAt hfind)
    next => cases hfind

theorem Tidy.inside {entries : List (String × FileTree)} (h : Tidy entries) (name : String)
    (node : FileTree) (hm : (name, node) ∈ entries) (inner : List (String × FileTree))
    (hnode : node = directory inner) : Tidy inner := by
  cases h with
  | intro _ _ _ inside =>
    subst hnode
    exact inside name inner hm

theorem Tidy.find?_cons {entries : List (String × FileTree)} (h : Tidy entries) {name : String}
    {node : FileTree} (hm : (name, node) ∈ entries) (more : List String) :
    (directory entries).find? (name :: more) = node.find? more := by
  cases h with
  | intro distinct _ _ _ => rw [find?, lookup_of_mem distinct hm]

theorem isPlain_of_isIdentifier {name : String} (h : Source.isIdentifier name = true) :
    IsPlain name where
  ne_empty := Source.ne_empty_of_isIdentifier h
  no_slash := Source.not_mem_of_isForeign ⟨by decide, by decide, by decide⟩ h
  ne_dot := by
    rintro rfl
    exact absurd h (by decide)
  ne_up := by
    rintro rfl
    exact absurd h (by decide)

theorem no_dot_of_isIdentifier {name : String} (h : Source.isIdentifier name = true) :
    '.' ∉ name.toList :=
  Source.not_mem_of_isForeign ⟨by decide, by decide, by decide⟩ h

theorem isPlain_source {stem : String} (h : IsPlain stem) : IsPlain (stem ++ ".rs") := by
  have hslash : '/' ∉ stem.toList := h.no_slash
  have hending : 's' ∈ (stem ++ ".rs").toList := by simp
  refine ⟨by simp, by simp [hslash], ?_, ?_⟩
  · intro he
    rw [he] at hending
    exact absurd hending (by decide)
  · intro he
    rw [he] at hending
    exact absurd hending (by decide)

/-- The place of a source file: directories, and the file's name with its ending. -/
structure IsSourcePlace (directories : List String) (stem : String) : Prop where
  directories_named : ∀ name ∈ directories, Source.isIdentifier name = true ∧ name ≠ "mod"
  stem_named : Source.isIdentifier stem = true

theorem IsSourcePlace.plain {directories : List String} {stem : String}
    (h : IsSourcePlace directories stem) :
    ∀ name ∈ directories ++ [stem ++ ".rs"], IsPlain name := by
  refine List.forall_mem_append.mpr ⟨?_, List.forall_mem_singleton.mpr ?_⟩
  · exact fun name hm => isPlain_of_isIdentifier (h.directories_named name hm).1
  · exact isPlain_source (isPlain_of_isIdentifier h.stem_named)

theorem Tidy.isSourcePlace {place : List String} {entries : List (String × FileTree)}
    (h : Tidy entries) (hfile : IsFileAt entries place) : ∃ directories stem,
    place = directories ++ [stem ++ ".rs"] ∧ IsSourcePlace directories stem := by
  obtain ⟨text, hfind⟩ := hfile
  induction place generalizing entries with
  | nil => cases hfind
  | cons name more ih =>
    cases h with
    | intro distinct files directories inside =>
      rw [find?] at hfind
      split at hfind
      next node hnode =>
        have hm : (name, node) ∈ entries := Table.mem_of_get? hnode
        cases node with
        | file other =>
          cases more with
          | nil =>
            obtain ⟨stem, hstem, rfl⟩ := files name other hm
            exact ⟨[], stem, rfl, by simp, hstem⟩
          | cons step more => cases hfind
        | directory inner =>
          obtain ⟨below, stem, rfl, hbelow⟩ := ih (inside name inner hm) hfind
          refine ⟨name :: below, stem, rfl, ?_, hbelow.stem_named⟩
          exact List.forall_mem_cons.mpr ⟨directories name inner hm, hbelow.directories_named⟩
      next => cases hfind

mutual

theorem exists_place_of_mem_atPlace {path place name : String} {node : FileTree}
    (hnode : ∀ inner, node = directory inner → Tidy inner)
    (h : path ∈ Scan.atPlace place name node) :
    ∃ more text, path = more.foldl join place ∧ node.find? more = some (file text) := by
  cases node with
  | file text =>
    rw [Scan.atPlace] at h
    split at h
    next => exact ⟨[], text, List.mem_singleton.mp h, rfl⟩
    next => cases h
  | directory inner =>
    have hinner : Tidy inner := hnode inner rfl
    rw [Scan.atPlace] at h
    obtain ⟨name, node, more, text, hm, hpath, hfind⟩ :=
      exists_place_of_mem_belowEach hinner.inside h
    exact ⟨name :: more, text, hpath, by rw [hinner.find?_cons hm, hfind]⟩

theorem exists_place_of_mem_belowEach {path base : String} {entries : List (String × FileTree)}
    (hinside : ∀ name node, (name, node) ∈ entries → ∀ inner, node = directory inner → Tidy inner)
    (h : path ∈ Scan.belowEach base entries) :
    ∃ name node more text, (name, node) ∈ entries ∧ path = (name :: more).foldl join base ∧
      node.find? more = some (file text) := by
  cases entries with
  | nil => cases h
  | cons entry entries =>
    obtain ⟨name, node⟩ := entry
    rw [Scan.belowEach, List.mem_append] at h
    obtain h | h := h
    · split at h
      next => cases h
      next =>
        obtain ⟨more, text, hpath, hfind⟩ :=
          exists_place_of_mem_atPlace (hinside name node List.mem_cons_self) h
        exact ⟨name, node, more, text, List.mem_cons_self, hpath, hfind⟩
    · obtain ⟨other, found, more, text, hm, hpath, hfind⟩ := exists_place_of_mem_belowEach
        (fun name node hm => hinside name node (List.mem_cons_of_mem _ hm)) h
      exact ⟨other, found, more, text, List.mem_cons_of_mem _ hm, hpath, hfind⟩

end

theorem Tidy.isFileAt_of_mem_belowEach {entries : List (String × FileTree)} (h : Tidy entries)
    {path base : String} (hm : path ∈ Scan.belowEach base entries) :
    ∃ place, path = place.foldl join base ∧ IsFileAt entries place := by
  obtain ⟨name, node, more, text, hentry, hpath, hfind⟩ := exists_place_of_mem_belowEach h.inside hm
  exact ⟨name :: more, hpath, text, by rw [h.find?_cons hentry, hfind]⟩

end FileTree

namespace Module

theorem dropEndings_of_not_mem {name : List Char} (h : '.' ∉ name) (fuel : Nat) :
    dropEndings name fuel = name := by
  cases fuel with
  | zero => rfl
  | succ fuel =>
    have hending : ¬ ending <:+ name := fun hs => h (hs.subset (by decide))
    rw [dropEndings, Text.suffix?, if_neg (by simpa using hending)]

theorem stem_source {name : String} (h : '.' ∉ name.toList) : stem (name ++ ".rs") = name := by
  have hlength : (name ++ ".rs").length = name.length + 2 + 1 := by
    rw [String.length_append]
    rfl
  have hsuffix : Text.suffix? ending (name.toList ++ ending) = some name.toList := by
    simp [Text.suffix?, ending]
  have hdrop : dropEndings (name.toList ++ ending) (name.length + 2 + 1) = name.toList := by
    rw [dropEndings, hsuffix]
    exact dropEndings_of_not_mem h _
  rw [stem, String.toList_append, hlength]
  exact (congrArg String.ofList hdrop).trans String.ofList_toList

abbrev IsMain (directories : List String) (stem : String) : Prop :=
  stem = "mod" ∨ directories = [] ∧ (stem = "lib" ∨ stem = "main")

theorem ofParts_source (directories : List String) {name : String} (h : '.' ∉ name.toList) :
    ofParts (directories ++ [name ++ ".rs"]) =
      root :: directories ++ if IsMain directories name then [] else [name] := by
  rw [ofParts]
  · simp only [List.getLastD_concat, stem_source h, List.dropLast_concat, List.length_append,
      List.length_singleton]
    simp [IsMain]
  · simp

/-- The places where a module below the root can have its file. -/
def candidates (modules : List String) : List (List String) :=
  match modules.getLast? with
  | none => [["lib.rs"], ["main.rs"]]
  | some last => [modules.dropLast ++ [last ++ ".rs"], modules ++ ["mod.rs"]]

/-- A module that has candidates which no other module has. -/
structure IsLocatable (modules : List String) : Prop where
  named : ∀ name ∈ modules, Source.isIdentifier name = true
  not_mod : "mod" ∉ modules
  not_root : modules ≠ ["lib"] ∧ modules ≠ ["main"]

theorem IsLocatable.plain {modules : List String} (h : IsLocatable modules) :
    ∀ name ∈ modules, IsPlain name :=
  fun name hname => FileTree.isPlain_of_isIdentifier (h.named name hname)

theorem IsLocatable.no_dot {modules : List String} (h : IsLocatable modules) :
    ∀ name ∈ modules, '.' ∉ name.toList :=
  fun name hname => FileTree.no_dot_of_isIdentifier (h.named name hname)

theorem ofParts_of_mem_candidates {modules place : List String} (h : IsLocatable modules)
    (hm : place ∈ candidates modules) : ofParts place = root :: modules := by
  rw [candidates] at hm
  split at hm
  next hlast =>
    obtain rfl := List.getLast?_eq_none_iff.mp hlast
    obtain rfl | rfl : place = ["lib.rs"] ∨ place = ["main.rs"] := by simpa using hm
    · decide
    · decide
  next last hlast =>
    obtain ⟨before, rfl⟩ := List.getLast?_eq_some_iff.mp hlast
    have hdot : '.' ∉ last.toList := h.no_dot last (by simp)
    have hmod : last ≠ "mod" := by
      rintro rfl
      exact h.not_mod (by simp)
    obtain rfl | rfl :
        place = before ++ [last ++ ".rs"] ∨ place = before ++ [last] ++ ["mod.rs"] := by
      simpa using hm
    · have hmain : ¬ IsMain before last := by
        rintro (hl | ⟨rfl, rfl | rfl⟩)
        · exact hmod hl
        · exact h.not_root.1 rfl
        · exact h.not_root.2 rfl
      rw [ofParts_source before hdot, if_neg hmain, List.cons_append]
    · have hmain : IsMain (before ++ [last]) "mod" := Or.inl rfl
      have hfile : "mod.rs" = "mod" ++ ".rs" := by decide
      rw [hfile, ofParts_source _ (by decide), if_pos hmain, List.append_nil]

/-- A file that holds a module stands where the module can have its file. -/
theorem mem_candidates_of_ofParts {modules directories : List String} {stem : String}
    (h : FileTree.IsSourcePlace directories stem)
    (hroot : directories ++ [stem ++ ".rs"] ≠ ["mod.rs"])
    (hm : ofParts (directories ++ [stem ++ ".rs"]) = root :: modules) :
    directories ++ [stem ++ ".rs"] ∈ candidates modules := by
  rw [ofParts_source directories (FileTree.no_dot_of_isIdentifier h.stem_named), List.cons_append,
    List.cons.injEq] at hm
  obtain ⟨-, rfl⟩ := hm
  by_cases hmain : IsMain directories stem
  · rw [if_pos hmain, List.append_nil]
    obtain rfl | ⟨rfl, rfl | rfl⟩ := hmain
    · have hne : directories ≠ [] := by
        rintro rfl
        exact hroot (by decide)
      rw [candidates, List.getLast?_eq_some_getLast hne]
      exact List.mem_cons_of_mem _ List.mem_cons_self
    · exact List.mem_cons_self
    · exact List.mem_cons_of_mem _ List.mem_cons_self
  · rw [if_neg hmain, candidates, List.getLast?_concat, List.dropLast_concat]
    exact List.mem_cons_self

theorem plain_of_mem_candidates {modules place : List String} (h : ∀ name ∈ modules, IsPlain name)
    (hm : place ∈ candidates modules) : ∀ name ∈ place, IsPlain name := by
  have hidentifiers : ∀ stem ∈ ["lib", "main", "mod"], Source.isIdentifier stem = true := by decide
  have hmain : ∀ stem ∈ ["lib", "main", "mod"], IsPlain (stem ++ ".rs") := fun stem hstem =>
    FileTree.isPlain_source (FileTree.isPlain_of_isIdentifier (hidentifiers stem hstem))
  rw [candidates] at hm
  split at hm
  next =>
    obtain rfl | rfl : place = ["lib.rs"] ∨ place = ["main.rs"] := by simpa using hm
    · exact List.forall_mem_singleton.mpr (hmain "lib" (by decide))
    · exact List.forall_mem_singleton.mpr (hmain "main" (by decide))
  next last hlast =>
    obtain rfl | rfl :
        place = modules.dropLast ++ [last ++ ".rs"] ∨ place = modules ++ ["mod.rs"] := by
      simpa using hm
    · have hsource : IsPlain (last ++ ".rs") :=
        FileTree.isPlain_source (h last (List.mem_of_getLast? hlast))
      refine List.forall_mem_append.mpr ⟨?_, List.forall_mem_singleton.mpr hsource⟩
      exact fun name hname => h name (List.dropLast_subset _ hname)
    · exact List.forall_mem_append.mpr ⟨h, List.forall_mem_singleton.mpr (hmain "mod" (by decide))⟩

end Module

namespace SourceTree

open FileTree

variable {tree : SourceTree} {entries : List (String × FileTree)} {modules : List String}

theorem isFile_foldl_join (hroot : tree.files.get? tree.root = some (.directory entries))
    {place : List String} (h : ∀ name ∈ place, IsPlain name) :
    tree.files.isFile (place.foldl join tree.root) = true ↔ IsFileAt entries place := by
  rw [isFile, get?_foldl_join tree.files tree.root h, hroot, Option.bind_some, IsFileAt]
  cases (FileTree.directory entries).find? place with
  | none => simp
  | some sub => cases sub <;> simp

theorem moduleFile?_of_ne_nil (h : modules ≠ []) :
    tree.moduleFile? modules = [withExtension (modules.foldl join tree.root) "rs",
        join (modules.foldl join tree.root) "mod.rs"].find? tree.files.isFile := by
  cases modules with
  | nil => exact absurd rfl h
  | cons first rest => rfl

/-- A file of a module is looked for at the module's candidates, in their order. -/
theorem moduleFile?_eq (h : ∀ name ∈ modules, IsPlain name)
    (hdot : ∀ name ∈ modules, '.' ∉ name.toList) :
    tree.moduleFile? modules = ((Module.candidates modules).map fun place =>
        place.foldl join tree.root).find? tree.files.isFile := by
  rw [Module.candidates]
  split
  next hlast =>
    obtain rfl := List.getLast?_eq_none_iff.mp hlast
    rfl
  next last hlast =>
    obtain ⟨before, rfl⟩ := List.getLast?_eq_some_iff.mp hlast
    have hplain : IsPlain last := h last (by simp)
    have hdotted : "." ++ "rs" = ".rs" := by decide
    have hending : last ++ "." ++ "rs" = last ++ ".rs" := by rw [String.append_assoc, hdotted]
    have hbeside : withExtension ((before ++ [last]).foldl join tree.root) "rs" =
        (before ++ [last ++ ".rs"]).foldl join tree.root := by
      rw [foldl_join_concat, foldl_join_concat, withExtension_join, hending]
      · exact hplain
      · exact hdot last (by simp)
      · rw [hending]
        exact isPlain_source hplain
    have hne : before ++ [last] ≠ [] := by simp
    rw [moduleFile?_of_ne_nil hne, hbeside, ← foldl_join_concat, List.dropLast_concat]
    simp only [List.map_cons, List.map_nil]

theorem moduleFile?_eq_some (hroot : tree.files.get? tree.root = some (.directory entries))
    (htidy : Tidy entries) (hmod : ¬ IsFileAt entries ["mod.rs"])
    (hmodules : Module.IsLocatable modules) {place : List String} (hfile : IsFileAt entries place)
    (hholds : Module.ofParts place = Module.root :: modules) (hunique : ∀ other,
      IsFileAt entries other → Module.ofParts other = Module.root :: modules → other = place) :
    tree.moduleFile? modules = some (place.foldl join tree.root) := by
  obtain ⟨directories, stem, rfl, hsource⟩ := htidy.isSourcePlace hfile
  have hplain : ∀ place ∈ Module.candidates modules, ∀ name ∈ place, IsPlain name :=
    fun _ hm => Module.plain_of_mem_candidates hmodules.plain hm
  have hm : directories ++ [stem ++ ".rs"] ∈ Module.candidates modules := by
    refine Module.mem_candidates_of_ofParts hsource ?_ hholds
    intro he
    rw [he] at hfile
    exact hmod hfile
  have hpresent : (((Module.candidates modules).map fun place => place.foldl join tree.root).find?
        tree.files.isFile).isSome =
      true :=
    List.find?_isSome.mpr
      ⟨_, List.mem_map_of_mem hm, (isFile_foldl_join hroot (hplain _ hm)).mpr hfile⟩
  obtain ⟨path, hpath⟩ := Option.isSome_iff_exists.mp hpresent
  obtain ⟨other, hother, rfl⟩ := List.mem_map.mp (List.mem_of_find?_eq_some hpath)
  have hisFile : IsFileAt entries other :=
    (isFile_foldl_join hroot (hplain _ hother)).mp (List.find?_some hpath)
  rw [moduleFile?_eq hmodules.plain hmodules.no_dot, hpath,
    hunique other hisFile (Module.ofParts_of_mem_candidates hmodules hother)]

theorem moduleFile?_eq_none (hroot : tree.files.get? tree.root = some (.directory entries))
    (hmodules : Module.IsLocatable modules)
    (hnone : ∀ place, IsFileAt entries place → Module.ofParts place ≠ Module.root :: modules) :
    tree.moduleFile? modules = none := by
  rw [moduleFile?_eq hmodules.plain hmodules.no_dot, List.find?_eq_none]
  intro path hpath hisFile
  obtain ⟨place, hplace, rfl⟩ := List.mem_map.mp hpath
  have hfile : IsFileAt entries place :=
    (isFile_foldl_join hroot (Module.plain_of_mem_candidates hmodules.plain hplace)).mp hisFile
  exact hnone place hfile (Module.ofParts_of_mem_candidates hmodules hplace)

end SourceTree

end ApiContract
