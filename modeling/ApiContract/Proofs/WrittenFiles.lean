import ApiContract.Proofs.ExchangedFiles

namespace ApiContract

namespace FileTree

variable {tree node made put : FileTree} {name path text : String} {place other : List String}

def fileAt? (tree : FileTree) (place : List String) : Option (Option String) :=
  match tree.find? place with
  | some (file text) => some text
  | _ => none

theorem fileAt?_directory (entries : List (String × FileTree)) (name : String)
    (place : List String) : (directory entries).fileAt? (name :: place) =
    (List.lookup name entries).bind fun sub => sub.fileAt? place := by
  rw [fileAt?, find?_directory]
  cases List.lookup name entries <;> rfl

def IsLeaf (node : FileTree) : Prop := ∀ name place, node.find? (name :: place) = none

theorem isLeaf_file (text : Option String) : IsLeaf (file text) := fun _ _ => rfl

theorem isLeaf_empty : IsLeaf empty := fun _ _ => rfl

theorem IsLeaf.fileAt?_cons (h : node.IsLeaf) (name : String) (place : List String) :
    node.fileAt? (name :: place) = none := by rw [fileAt?, h]

/-- Below a directory, a node is put into the entry of the first step, or into a new one. -/
theorem put?_cons (h : put? tree node (name :: place) = some put) :
    ∃ entries sub, tree = directory entries ∧ put = directory (Table.insert entries name sub) ∧
      ((∃ old, List.lookup name entries = some old ∧ put? old node place = some sub) ∨
        List.lookup name entries = none ∧ put?.fresh node place = some sub) := by
  cases tree with
  | file text => simp [put?] at h
  | directory entries =>
    rw [put?] at h
    cases hlookup : List.lookup name entries with
    | some old =>
      rw [hlookup] at h
      obtain ⟨sub, hsub, rfl⟩ := Option.map_eq_some_iff.mp h
      exact ⟨entries, sub, rfl, rfl, Or.inl ⟨old, hlookup, hsub⟩⟩
    | none =>
      rw [hlookup] at h
      obtain ⟨sub, hsub, rfl⟩ := Option.map_eq_some_iff.mp h
      exact ⟨entries, sub, rfl, rfl, Or.inr ⟨hlookup, hsub⟩⟩

theorem lookup_insert (entries : List (String × FileTree)) (name other : String) (sub : FileTree) :
    List.lookup other (Table.insert entries name sub) =
      if other = name then some sub else List.lookup other entries :=
  Table.get?_insert entries name other sub

theorem find?_fresh (h : put?.fresh node place = some made) : made.find? place = some node := by
  induction place generalizing made with
  | nil =>
    cases h
    rfl
  | cons name place ih =>
    obtain ⟨sub, hsub, rfl⟩ := Option.map_eq_some_iff.mp h
    rw [find?_directory, List.lookup_cons_self, Option.bind_some, ih hsub]

theorem fileAt?_fresh (hleaf : node.IsLeaf) (h : put?.fresh node place = some made)
    (hne : other ≠ place) : made.fileAt? other = none := by
  induction place generalizing made other with
  | nil =>
    cases h
    obtain ⟨name, more, rfl⟩ := List.exists_cons_of_ne_nil hne
    exact hleaf.fileAt?_cons name more
  | cons name place ih =>
    obtain ⟨sub, hsub, rfl⟩ := Option.map_eq_some_iff.mp h
    cases other with
    | nil => rfl
    | cons step more =>
      rw [fileAt?_directory]
      by_cases hstep : step = name
      · subst hstep
        rw [List.lookup_cons_self, Option.bind_some]
        exact ih hsub fun he => hne (by rw [he])
      · have hb : (step == name) = false := by simpa using hstep
        rw [List.lookup_cons, hb, List.lookup_nil, Option.bind_none]

/-- The files at all places but one are as before. -/
theorem fileAt?_put? (hleaf : node.IsLeaf) (h : put? tree node place = some put)
    (hne : other ≠ place) : put.fileAt? other = tree.fileAt? other := by
  induction place generalizing tree put other with
  | nil =>
    obtain ⟨name, more, rfl⟩ := List.exists_cons_of_ne_nil hne
    cases tree <;> cases node <;> cases h <;> rfl
  | cons name place ih =>
    obtain ⟨entries, sub, rfl, rfl, hsub⟩ := put?_cons h
    cases other with
    | nil => rfl
    | cons step more =>
      rw [fileAt?_directory, fileAt?_directory, lookup_insert]
      by_cases hstep : step = name
      · subst hstep
        have hmore : more ≠ place := fun he => hne (by rw [he])
        rw [if_pos rfl, Option.bind_some]
        obtain ⟨old, hold, hsub⟩ | ⟨hold, hsub⟩ := hsub
        · rw [hold, Option.bind_some, ih hsub hmore]
        · rw [hold, Option.bind_none, fileAt?_fresh hleaf hsub hmore]
      · rw [if_neg hstep]

theorem find?_put?_file {content : Option String} (h : put? tree (file content) place = some put) :
    put.find? place = some (file content) := by
  induction place generalizing tree put with
  | nil => cases tree <;> cases h; rfl
  | cons name place ih =>
    obtain ⟨entries, sub, rfl, rfl, hsub⟩ := put?_cons h
    rw [find?_directory, lookup_insert, if_pos rfl, Option.bind_some]
    obtain ⟨old, -, hsub⟩ | ⟨-, hsub⟩ := hsub
    · exact ih hsub
    · exact find?_fresh hsub

theorem fileAt?_put?_empty (h : put? tree empty place = some put) (other : List String) :
    put.fileAt? other = tree.fileAt? other := by
  by_cases hplace : other = place
  · subst hplace
    -- A directory is put only where no file is.
    induction other generalizing tree put with
    | nil => cases tree <;> cases h; rfl
    | cons name place ih =>
      obtain ⟨entries, sub, rfl, rfl, hsub⟩ := put?_cons h
      rw [fileAt?_directory, fileAt?_directory, lookup_insert, if_pos rfl, Option.bind_some]
      obtain ⟨old, hold, hsub⟩ | ⟨hold, hsub⟩ := hsub
      · rw [hold, Option.bind_some, ih hsub]
      · rw [hold, Option.bind_none, fileAt?, find?_fresh hsub]
        rfl
  · exact fileAt?_put? isLeaf_empty h hplace

theorem find?_directory_put? {content : Option String} {entries : List (String × FileTree)}
    (h : put? tree (file content) place = some put)
    (hother : tree.find? other = some (directory entries)) :
    ∃ entries, put.find? other = some (directory entries) := by
  induction place generalizing tree put other with
  | nil =>
    cases tree with
    | file text => cases other <;> simp [find?] at hother
    | directory entries => cases h
  | cons name place ih =>
    obtain ⟨kept, sub, rfl, rfl, hsub⟩ := put?_cons h
    cases other with
    | nil => exact ⟨_, rfl⟩
    | cons step more =>
      rw [find?_directory] at hother
      rw [find?_directory, lookup_insert]
      by_cases hstep : step = name
      · subst hstep
        obtain ⟨old, hold, hsub⟩ | ⟨hold, -⟩ := hsub
        · rw [hold] at hother
          rw [if_pos rfl]
          exact ih hsub hother
        · rw [hold] at hother
          cases hother
      · rw [if_neg hstep]
        exact ⟨entries, hother⟩

theorem leadsThrough_put? {content : Option String} (h : put? tree (file content) place = some put)
    (hleads : tree.leadsThrough path = true) : put.leadsThrough path = true := by
  simp only [leadsThrough, List.all_eq_true, List.mem_range] at hleads ⊢
  intro n hn
  have hup := hleads n hn
  split
  next hpart =>
    rw [if_pos hpart] at hup
    cases hfind : tree.find? (steps.go [] ((FilePath.parts path).take n)) with
    | none => simp [hfind] at hup
    | some found =>
      cases found with
      | file text => simp [hfind] at hup
      | directory entries =>
        obtain ⟨entries, hput⟩ := find?_directory_put? h hfind
        rw [hput]
  next => rfl

theorem fileAt?_makeAll (tree : FileTree) (places : List (List String)) (other : List String) :
    (tree.makeAll places).1.fileAt? other = tree.fileAt? other := by
  induction places generalizing tree with
  | nil => rfl
  | cons place places ih =>
    rw [makeAll]
    split
    next made hmade => rw [ih, fileAt?_put?_empty hmade]
    next => rfl

theorem write?_eq_some (h : tree.write? path text = some put) :
    tree.leadsThrough path = true ∧ FilePath.asksDirectory path = false ∧
      tree.put? (file (some text)) (steps path) = some put := by
  rw [write?] at h
  split at h
  · cases h
  next hpath =>
    simp only [Bool.or_eq_true, not_or, Bool.not_eq_true] at hpath
    obtain ⟨⟨-, hask⟩, hleads⟩ := hpath
    split at h
    · exact ⟨by simpa using hleads, hask, h⟩
    · cases h

theorem read?_write? (h : tree.write? path text = some put) : put.read? path = some text := by
  obtain ⟨hleads, hask, hput⟩ := write?_eq_some h
  rw [read?, get?, if_pos (leadsThrough_put? hput hleads), find?_put?_file hput]
  simp [hask]

theorem fileAt?_write? (h : tree.write? path text = some put) (hother : other ≠ steps path) :
    put.fileAt? other = tree.fileAt? other :=
  fileAt?_put? (isLeaf_file _) (write?_eq_some h).2.2 hother

end FileTree

namespace Disk

/-- What a run relies on. Directories take the place of no file, also where they were made in part;
a text that was written is read back from its path, and all other files are as before. -/
structure Lawful (disk : Disk) : Prop where
  fileAt?_made : ∀ (tree : FileTree) (path : String) (place : List String),
    (disk.makeDirectories tree path).1.fileAt? place = tree.fileAt? place
  read?_written : ∀ {tree : FileTree} {path text : String} {written : FileTree},
    disk.write? tree path text = some written → written.read? path = some text
  fileAt?_written : ∀ {tree : FileTree} {path text : String} {written : FileTree},
    disk.write? tree path text = some written → ∀ place, place ≠ FileTree.steps path →
      written.fileAt? place = tree.fileAt? place

theorem lawful_plain : plain.Lawful where
  fileAt?_made _ _ place := FileTree.fileAt?_makeAll _ _ place
  read?_written := FileTree.read?_write?
  fileAt?_written h _ := FileTree.fileAt?_write? h

end Disk

end ApiContract
