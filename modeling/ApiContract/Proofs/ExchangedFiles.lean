import ApiContract.Proofs.ExchangedFunctions

namespace ApiContract

open Source

/-- Two outcomes of one kind: both of them succeed, with results that stand so to one another, or
both fail alike. -/
inductive Corresponds {ε α β : Type} (R : α → β → Prop) : Except ε α → Except ε β → Prop where
  | ok {x : α} {y : β} (h : R x y) : Corresponds R (.ok x) (.ok y)
  | error (e : ε) : Corresponds R (.error e) (.error e)

theorem Corresponds.bind {ε α β γ δ : Type} {R : α → β → Prop} {S : γ → δ → Prop}
    {outcome : Except ε α} {outcome' : Except ε β} (h : Corresponds R outcome outcome')
    {next : α → Except ε γ} {next' : β → Except ε δ}
    (hnext : ∀ x y, R x y → Corresponds S (next x) (next' y)) :
    Corresponds S (outcome.bind next) (outcome'.bind next') := by
  cases h with
  | ok h => exact hnext _ _ h
  | error e => exact .error e

theorem Corresponds.getD {ε α β : Type} {R : α → β → Prop} {outcome : Option (Except ε α)}
    {outcome' : Option (Except ε β)} (h : Option.Rel (Corresponds R) outcome outcome')
    {other : Except ε α} {other' : Except ε β} (hother : Corresponds R other other') :
    Corresponds R (outcome.getD other) (outcome'.getD other') := by
  cases h with
  | none => exact hother
  | some h => exact h

namespace FileTree

/-- The trees are the same, but that one file may hold the first text here and the second one
there. -/
inductive AgreeBut (text text' : String) : FileTree → FileTree → Prop where
  | same (tree : FileTree) : AgreeBut text text' tree tree
  | file : AgreeBut text text' (.file (some text)) (.file (some text'))
  | directory {sub sub' : FileTree} (h : AgreeBut text text' sub sub') (name : String)
      (before after : List (String × FileTree)) : AgreeBut text text'
      (.directory (before ++ (name, sub) :: after)) (.directory (before ++ (name, sub') :: after))

variable {text text' : String} {tree tree' : FileTree}

theorem find?_directory (entries : List (String × FileTree)) (step : String) (steps : List String) :
    (directory entries).find? (step :: steps) =
      (entries.lookup step).bind fun sub => sub.find? steps := by
  rw [find?]
  cases entries.lookup step <;> rfl

theorem rel_agreeBut_refl (found : Option FileTree) :
    Option.Rel (AgreeBut text text') found found := by
  cases found with
  | none => exact .none
  | some tree => exact .some (.same tree)

theorem AgreeBut.find? (h : AgreeBut text text' tree tree') (steps : List String) :
    Option.Rel (AgreeBut text text') (tree.find? steps) (tree'.find? steps) := by
  induction h generalizing steps with
  | same => exact rel_agreeBut_refl _
  | file =>
    cases steps with
    | nil =>
      rw [FileTree.find?, FileTree.find?]
      exact .some .file
    | cons =>
      rw [FileTree.find?, FileTree.find?]
      exact .none
  | directory h name before after ih =>
    cases steps with
    | nil =>
      rw [FileTree.find?, FileTree.find?]
      exact .some (.directory h name before after)
    | cons step steps =>
      rw [find?_directory, find?_directory, List.lookup_append, List.lookup_append]
      cases before.lookup step with
      | some found => exact rel_agreeBut_refl _
      | none =>
        rw [Option.none_or, Option.none_or, List.lookup_cons, List.lookup_cons]
        split
        · exact ih steps
        · exact rel_agreeBut_refl _

theorem AgreeBut.leadsThrough_eq (h : AgreeBut text text' tree tree') (path : String) :
    tree.leadsThrough path = tree'.leadsThrough path := by
  unfold leadsThrough
  dsimp only
  congr 1
  funext n
  have hfound := h.find? (steps.go [] ((FilePath.parts path).take n))
  generalize tree.find? _ = found at hfound
  generalize tree'.find? _ = found' at hfound
  cases hfound with
  | none => rfl
  | some hnode => cases hnode <;> rfl

theorem AgreeBut.get? (h : AgreeBut text text' tree tree') (path : String) :
    Option.Rel (AgreeBut text text') (tree.get? path) (tree'.get? path) := by
  have hfound := h.find? (steps path)
  rw [FileTree.get?, FileTree.get?, h.leadsThrough_eq]
  generalize tree.find? _ = found at hfound
  generalize tree'.find? _ = found' at hfound
  split
  · cases hfound with
    | none => exact .none
    | some hnode =>
      cases hnode with
      | same => exact rel_agreeBut_refl _
      | file =>
        dsimp only
        split
        · exact .none
        · exact .some .file
      | directory hsub name before after => exact .some (.directory hsub name before after)
  · exact .none

theorem AgreeBut.isFile_eq (h : AgreeBut text text' tree tree') : tree.isFile = tree'.isFile := by
  funext path
  have hfound := h.get? path
  rw [isFile, isFile]
  generalize tree.get? _ = found at hfound
  generalize tree'.get? _ = found' at hfound
  cases hfound with
  | none => rfl
  | some hnode => cases hnode <;> rfl

theorem AgreeBut.read? (h : AgreeBut text text' tree tree') (path : String) :
    tree.read? path = tree'.read? path ∨
      tree.read? path = some text ∧ tree'.read? path = some text' := by
  have hfound := h.get? path
  rw [FileTree.read?, FileTree.read?]
  generalize tree.get? _ = found at hfound
  generalize tree'.get? _ = found' at hfound
  cases hfound with
  | none => exact .inl rfl
  | some hnode =>
    cases hnode with
    | same | directory => exact .inl rfl
    | file => exact .inr ⟨rfl, rfl⟩

end FileTree

namespace Scan

open FileTree

variable {text text' : String} {tree tree' : FileTree}

theorem belowEach_append (path : String) (entries more : List (String × FileTree)) :
    belowEach path (entries ++ more) = belowEach path entries ++ belowEach path more := by
  induction entries with
  | nil => rw [List.nil_append, belowEach, List.nil_append]
  | cons entry entries ih =>
    obtain ⟨name, node⟩ := entry
    rw [List.cons_append, belowEach, belowEach, ih, List.append_assoc]

theorem atPlace_eq (h : AgreeBut text text' tree tree') (place name : String) :
    atPlace place name tree = atPlace place name tree' := by
  induction h generalizing place name with
  | same => rfl
  | file => rw [atPlace, atPlace]
  | directory _ own before after ih =>
    rw [atPlace, atPlace, belowEach_append, belowEach_append, belowEach, belowEach, ih]

theorem files_eq (h : AgreeBut text text' tree tree') (sourceDir : String) :
    files tree sourceDir = files tree' sourceDir := by
  have hfound := h.get? sourceDir
  rw [files, files]
  generalize tree.get? _ = found at hfound
  generalize tree'.get? _ = found' at hfound
  cases hfound with
  | none => rfl
  | some hnode =>
    cases hnode with
    | same | file => rfl
    | directory hsub name before after =>
      have hplace := atPlace_eq (.directory hsub name before after) sourceDir ""
      rw [atPlace, atPlace] at hplace
      exact congrArg Except.ok hplace

end Scan

/-- Files of one path whose items agree but for one function. -/
structure ParsedFile.Agree (f f' : Option Function) (target : Target) (file file' : ParsedFile) :
    Prop where
  eq : file' = { file with items := file'.items }
  items : AgreeBut f f' target file.items file'.items

/-- Two trees of files that differ in one function: it is the only difference between the texts that
one file holds here and there. -/
structure Revision (tree tree' : FileTree) where
  text : String
  text' : String
  items : List Item
  items' : List Item
  /-- The function on either side, and what it belongs to. -/
  f : Option Function
  f' : Option Function
  target : Target
  files : FileTree.AgreeBut text text' tree tree'
  parsed : File.parse? text = some ⟨items⟩
  parsed' : File.parse? text' = some ⟨items'⟩
  sources : Source.AgreeBut f f' target items items'

namespace Revision

variable {tree tree' : FileTree} (x : Revision tree tree')

theorem read (path sourceDir : String) :
    Corresponds (ParsedFile.Agree x.f x.f' x.target) (ParsedFile.read tree path sourceDir)
      (ParsedFile.read tree' path sourceDir) := by
  have hrefl : ∀ outcome : Except FileError ParsedFile,
      Corresponds (ParsedFile.Agree x.f x.f' x.target) outcome outcome := by
    intro outcome
    cases outcome with
    | ok file => exact .ok ⟨rfl, .same _⟩
    | error e => exact .error e
  rw [ParsedFile.read, ParsedFile.read]
  obtain heq | ⟨htext, htext'⟩ := x.files.read? path
  · rw [heq]
    exact hrefl _
  · simp only [htext, htext', x.parsed, x.parsed']
    exact .ok ⟨rfl, x.sources⟩

theorem sources_files (sourceDir : String) :
    Corresponds (List.Forall₂ (ParsedFile.Agree x.f x.f' x.target)) (Scan.sources tree sourceDir)
      (Scan.sources tree' sourceDir) := by
  rw [Scan.sources, Scan.sources, Scan.files_eq x.files]
  cases Scan.files tree' sourceDir with
  | error fault => exact .error fault
  | ok paths =>
    refine .ok ?_
    induction paths with
    | nil => exact .nil
    | cons path paths ih =>
      have hread := x.read path sourceDir
      dsimp only
      rw [List.filterMap_cons, List.filterMap_cons]
      generalize ParsedFile.read tree path _ = file at hread
      generalize ParsedFile.read tree' path _ = file' at hread
      cases hread with
      | ok h => exact .cons h ih
      | error => exact ih

end Revision

theorem Scope.forall₂_ofFile {f f' : Option Function} {target : Target} {file file' : ParsedFile}
    (h : ParsedFile.Agree f f' target file file') :
    List.Forall₂ (Agree f f' target) (ofFile file) (ofFile file') := by
  rw [h.eq]
  exact .cons (agree_ofItems h.items _ _) (forall₂_nested h.items _ _)

section

variable {f f' : Option Function} {target : Target} {files files' : List ParsedFile}

theorem flatMap_scopes_eq {α : Type} {g : Scope → List α}
    (h : List.Forall₂ (ParsedFile.Agree f f' target) files files')
    (hg : ∀ scope scope', Scope.Agree f f' target scope scope' → g scope = g scope') :
    (files.flatMap Scope.ofFile).flatMap g = (files'.flatMap Scope.ofFile).flatMap g := by
  have hscopes := List.rel_flatMap h fun _ _ hfile => Scope.forall₂_ofFile hfile
  have hfound :=
    List.rel_flatMap (P := Eq) hscopes fun _ _ hscope => List.forall₂_eq_eq_eq ▸ hg _ _ hscope
  rwa [List.forall₂_eq_eq_eq] at hfound

theorem CapabilityIndex.build_eq (h : List.Forall₂ (ParsedFile.Agree f f' target) files files')
    (conventions : Capability.Conventions) :
    build files conventions = build files' conventions := by
  unfold build ofScopes
  rw [flatMap_scopes_eq h fun _ _ hscope => hscope.flatMap_marks]

theorem Structs.ofFiles_eq (h : List.Forall₂ (ParsedFile.Agree f f' target) files files') :
    ofFiles files = ofFiles files' := by
  rw [ofFiles, ofScopes, flatMap_scopes_eq h fun _ _ hscope => hscope.structs_eq]
  rfl

end

end ApiContract
