import ApiContract.Command.Run
import ApiContract.Proofs.WrittenFiles

namespace ApiContract

namespace FileTree

/-- Two trees with the same files; directories do not count. -/
def SameFiles (tree other : FileTree) : Prop := ∀ place, tree.fileAt? place = other.fileAt? place

theorem SameFiles.refl (tree : FileTree) : SameFiles tree tree := fun _ => rfl

end FileTree

namespace Command

variable {tree : FileTree} {version : Option String} {arguments : Arguments} {disk : Disk}
  {config : Config} {generation : Generation} {path text : String} {fault : Fault}

/-- The library's way to a document: its provider of routes is chosen for the sources of the
project, which is then generated as a whole. -/
def Generates (tree : FileTree) (version : Option String) (arguments : Arguments) (config : Config)
    (generation : Generation) : Prop :=
  let project : Project := ⟨tree, arguments.project, version⟩
  configOf tree arguments = .ok config ∧
    ∃ files source, project.sources config = .ok files ∧
      RouteSource.choose tree arguments.manifest config files = .ok source ∧
      project.generate config source = .ok generation

theorem bind_eq_ok {α β : Type} {outcome : Except Fault α} {next : α → Except Fault β} {y : β} :
    (outcome >>= next) = .ok y ↔ ∃ x, outcome = .ok x ∧ next x = .ok y := by
  cases outcome with
  | error fault =>
    constructor
    · rintro ⟨⟩
    · rintro ⟨_, ⟨⟩, _⟩
  | ok x => exact ⟨fun h => ⟨x, rfl, h⟩, fun ⟨_, hx, h⟩ => Except.ok.inj hx ▸ h⟩

theorem generate_eq {project : Project} {files : List ParsedFile}
    (h : project.sources config = .ok files) (source : RouteSource) :
    project.generate config source = project.generateFrom config files source := by
  rw [Project.generate, h]
  rfl

theorem generation_eq_ok : Command.generation tree version arguments = .ok (config, generation) ↔
    Generates tree version arguments config generation := by
  simp only [Command.generation, bind_eq_ok, pure, Except.pure, Except.ok.injEq, Prod.mk.injEq]
  constructor
  · rintro ⟨_, hconfig, files, hfiles, source, hsource, _, hdocument, rfl, rfl⟩
    exact ⟨hconfig, files, source, hfiles, hsource, (generate_eq hfiles source).trans hdocument⟩
  · rintro ⟨hconfig, files, source, hfiles, hsource, hdocument⟩
    rw [generate_eq hfiles] at hdocument
    exact ⟨config, hconfig, files, hfiles, source, hsource, generation, hdocument, rfl, rfl⟩

theorem exists_of_action {step : Action} (h : action tree version arguments = .ok step) :
    ∃ config generation, Generates tree version arguments config generation ∧
      step = match outputOf arguments config with
        | some path => .write path (generation.document.text arguments.format)
        | none => .print (generation.document.text arguments.format ++ "\n") := by
  simp only [action, bind_eq_ok, pure, Except.pure, Except.ok.injEq] at h
  obtain ⟨⟨config, generation⟩, hgeneration, rfl⟩ := h
  exact ⟨config, generation, generation_eq_ok.mp hgeneration, rfl⟩

theorem run_of_generates (h : Generates tree version arguments config generation) :
    run tree version arguments disk =
      match outputOf arguments config with
      | some path => write tree path (generation.document.text arguments.format) disk
      | none => { tree, printed := generation.document.text arguments.format ++ "\n" } := by
  unfold run action
  simp only [generation_eq_ok.mpr h, bind, Except.bind, pure, Except.pure]
  cases outputOf arguments config <;> rfl

/-- Writing stops before the text, with the files as they were, or ends with it. -/
theorem write_cases (hdisk : disk.Lawful) (tree : FileTree) (path text : String) :
    ∃ ready, FileTree.SameFiles ready tree ∧
      ((∃ fault, write tree path text disk = { fault := some fault, tree := ready }) ∨
        ∃ written, disk.write? ready path text = some written ∧
          write tree path text disk = { tree := written }) := by
  unfold write
  dsimp only
  generalize (FilePath.parent? path).filter (fun p => !p.isEmpty) = parent
  have hsame :
      FileTree.SameFiles (parent.elim (tree, true) (disk.makeDirectories tree)).1 tree := by
    cases parent with
    | none => exact .refl tree
    | some above => exact hdisk.fileAt?_made tree above
  generalize parent.elim (tree, true) (disk.makeDirectories tree) = made at hsame ⊢
  obtain ⟨ready, complete⟩ := made
  refine ⟨ready, hsame, ?_⟩
  cases complete with
  | false => exact Or.inl ⟨_, rfl⟩
  | true =>
    cases hwrite : disk.write? ready path text with
    | none => exact Or.inl ⟨.fileNotWritten path, by simp [hwrite]⟩
    | some written => exact Or.inr ⟨written, rfl, by simp [hwrite]⟩

/-- What has become of a text that goes to a path, or to the terminal. -/
def Delivered (before : FileTree) (outcome : Outcome) (text : String) : Option String → Prop
  | some path =>
    outcome.printed = "" ∧ outcome.tree.read? path = some text ∧
      ∀ place, place ≠ FileTree.steps path → outcome.tree.fileAt? place = before.fileAt? place
  | none => outcome.printed = text ++ "\n" ∧ outcome.tree.SameFiles before

theorem delivered_write (hdisk : disk.Lawful) (h : (write tree path text disk).fault = none) :
    Delivered tree (write tree path text disk) text (some path) := by
  obtain ⟨ready, hready, ⟨fault, hwrite⟩ | ⟨written, hwritten, hwrite⟩⟩ :=
    write_cases hdisk tree path text
  · rw [hwrite] at h
    cases h
  · rw [hwrite]
    refine ⟨rfl, hdisk.read?_written hwritten, fun place hplace => ?_⟩
    exact (hdisk.fileAt?_written hwritten place hplace).trans (hready place)

theorem unchanged_of_fault (hdisk : disk.Lawful)
    (h : (run tree version arguments disk).fault = some fault) :
    (run tree version arguments disk).printed = "" ∧
      (run tree version arguments disk).tree.SameFiles tree := by
  unfold run at h ⊢
  cases haction : action tree version arguments with
  | error fault => exact ⟨rfl, .refl tree⟩
  | ok step =>
    rw [haction] at h
    cases step with
    | print text => cases h
    | write path text =>
      obtain ⟨ready, hready, ⟨fault, hwrite⟩ | ⟨written, -, hwrite⟩⟩ :=
        write_cases hdisk tree path text
      · simpa [Action.perform, hwrite] using hready
      · simp [Action.perform, hwrite] at h

theorem delivered_of_no_fault (hdisk : disk.Lawful)
    (h : (run tree version arguments disk).fault = none) :
    ∃ config generation, Generates tree version arguments config generation ∧
      Delivered tree (run tree version arguments disk) (generation.document.text arguments.format)
        (outputOf arguments config) := by
  cases haction : action tree version arguments with
  | error fault => simp [run, haction] at h
  | ok step =>
    obtain ⟨config, generation, hgenerates, -⟩ := exists_of_action haction
    refine ⟨config, generation, hgenerates, ?_⟩
    rw [run_of_generates hgenerates] at h ⊢
    cases houtput : outputOf arguments config with
    | none => exact ⟨rfl, .refl tree⟩
    | some path =>
      rw [houtput] at h
      exact delivered_write hdisk h

/-- A run fails and leaves everything as it was, or it delivers, as a whole and nowhere else, the
document that the library generates from the same files. -/
theorem run_all_or_nothing (hdisk : disk.Lawful) (tree : FileTree) (version : Option String)
    (arguments : Arguments) :
    let outcome := run tree version arguments disk
    (∀ fault, outcome.fault = some fault → outcome.printed = "" ∧ outcome.tree.SameFiles tree) ∧
      (outcome.fault = none →
        ∃ config generation, Generates tree version arguments config generation ∧
          Delivered tree outcome (generation.document.text arguments.format)
            (arguments.output.or (config.output.map (FilePath.join arguments.project)))) :=
  ⟨fun _ h => unchanged_of_fault hdisk h, fun h => delivered_of_no_fault hdisk h⟩

def siteTree : FileTree :=
  .directory [("project", .directory [("src", .directory [("lib.rs", .file (some ""))])])]

def siteArguments (output : String) : Arguments :=
  { project := "project", format := .json, output := some output }

/-- One run makes a directory for its document, the other one finds a file in the place of a
directory. -/
theorem run_site : (∃ config generation,
      Generates siteTree none (siteArguments "project/docs/api.json") config generation ∧
        (run siteTree none (siteArguments "project/docs/api.json")).tree.read?
            "project/docs/api.json" =
          some (generation.document.text .json)) ∧
    (run siteTree none (siteArguments "project/src/lib.rs/api.json")).fault =
      some (.directoryNotCreated "project/src/lib.rs") ∧
    (run siteTree none (siteArguments "project/src/lib.rs/api.json")).tree.SameFiles siteTree := by
  obtain ⟨config, generation, hgenerates, hdelivered⟩ :=
    (run_all_or_nothing Disk.lawful_plain siteTree none (siteArguments "project/docs/api.json")).2
      rfl
  have hfailed : (run siteTree none (siteArguments "project/src/lib.rs/api.json")).fault =
      some (.directoryNotCreated "project/src/lib.rs") := rfl
  refine ⟨⟨config, generation, hgenerates, hdelivered.2.1⟩, hfailed, ?_⟩
  exact ((run_all_or_nothing Disk.lawful_plain siteTree none
    (siteArguments "project/src/lib.rs/api.json")).1 _ hfailed).2

end Command

end ApiContract
