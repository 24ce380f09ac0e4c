import Fieldmark.Proofs.Frame
import Fieldmark.Proofs.Untouched
import Mathlib.Data.List.Find

/-!
# Builds, dry runs and checks

A build writes what a dry run prints, and a check passes exactly if that stands at the destination
(`build_agrees_with_check`). That a check passes right behind a build takes more: the check reads
everything anew, in a tree with the new page and the directories that had to be made for it. It
reads the same as long as neither the page (`Project.Apart`) nor the directories (`Project.Unseen`)
come to stand where it looks. The directories may, even if the page does not
(`build_seen_by_check`).
-/

namespace Fieldmark

/-! ## Pages filled in two trees -/

theorem Load.fetches_congr {source source' : Source} {bindings : List Binding}
    (same : ∀ b ∈ bindings, source' b.path = source b.path) :
    fetches source' bindings = fetches source bindings := by
  refine List.map_congr_left fun pair member => ?_
  obtain ⟨b, index⟩ := pair
  have inside : b ∈ bindings := List.fst_mem_of_mem_zipIdx member
  simp only [same b inside]

theorem fill_congr {source source' : Source} {options : LoadOptions} {policy : NestedOpenPolicy}
    {page : List Char} (same : ∀ b ∈ Binding.find page, source' b.path = source b.path) :
    fill source' options policy page = fill source options policy page := by
  simp only [fill, load, Load.run, Load.fetches_congr same]

namespace Settings

variable {tree after : FileTree} {directory : Place} {root : String}

theorem loadOrStandard_congr
    (same : ∀ candidate ∈ candidates, after.isFile directory (Path.join root candidate) =
      tree.isFile directory (Path.join root candidate))
    (text : ∀ candidate ∈ candidates, tree.isFile directory (Path.join root candidate) = true →
      after.readText directory (Path.join root candidate) =
        tree.readText directory (Path.join root candidate)) :
    loadOrStandard after directory root = loadOrStandard tree directory root := by
  have found : file? after directory root = file? tree directory root := by
    unfold file?
    refine List.find?_congr fun path member => ?_
    obtain ⟨candidate, listed, rfl⟩ := List.mem_map.mp member
    exact same candidate listed
  unfold loadOrStandard load
  rw [found]
  cases first : file? tree directory root with
  | none => rfl
  | some path =>
    obtain ⟨candidate, listed, rfl⟩ := List.mem_map.mp (List.mem_of_find?_eq_some first)
    simp only [text candidate listed (List.find?_some first)]

end Settings

namespace Project

variable {project : Project} {tree after : FileTree} {delays : Delays}

theorem fill_congr {page : String}
    (read : tree.readText project.directory project.template = .ok page)
    (read' : after.readText project.directory project.template = .ok page)
    (same : ∀ b ∈ Binding.find page.toList,
      (project.store after delays).lookup b.path = (project.store tree delays).lookup b.path) :
    project.fill after delays = project.fill tree delays := by
  have sources : ∀ b ∈ Binding.find page.toList,
      (project.store after delays).source b.path = (project.store tree delays).source b.path := by
    intro b member
    simp only [FileStore.source, same b member]
  simp only [fill, readTemplate, read, read', Except.mapError, Fieldmark.fill_congr sources]

/-! ## Writing a page -/

/-- A page has been written: first came the directories around it, then the page. -/
structure Wrote (project : Project) (output : String) (place : Place) (tree mid after : FileTree) :
    Prop where
  furnished : FileTree.Furnished project.directory (Path.Around project.destination) tree mid
  write : mid.write project.directory project.destination output.toUTF8 = .ok after
  written : FileTree.Written project.directory project.destination output.toUTF8 place mid after
  around : ∀ outer, Path.parent? project.destination = some outer →
    outer = "" ∨ mid.isDirectory project.directory outer = true

/-- Makes the directories around the destination. -/
def prepare (project : Project) (tree : FileTree) : FileTree.Attempt :=
  match Path.parent? project.destination with
  | none => ⟨tree, none⟩
  | some outer => tree.createDirectories project.directory outer

theorem write_eq (project : Project) (tree : FileTree) (output : String) :
    project.write tree output =
      if (project.prepare tree).fault?.isSome then project.prepare tree
      else
        match (project.prepare tree).tree.write project.directory project.destination
            output.toUTF8 with
        | .ok written => ⟨written, none⟩
        | .error fault => ⟨(project.prepare tree).tree, some fault⟩ := rfl

theorem furnished_of_prepare (done : (project.prepare tree).fault? = none) :
    FileTree.Furnished project.directory (Path.Around project.destination) tree
        (project.prepare tree).tree ∧
      ∀ outer, Path.parent? project.destination = some outer →
        outer = "" ∨ (project.prepare tree).tree.isDirectory project.directory outer = true := by
  unfold prepare at *
  cases parent : Path.parent? project.destination with
  | none => exact ⟨.same, fun outer found => by simp at found⟩
  | some outer =>
    rw [parent] at done
    obtain ⟨furnished, within⟩ := FileTree.furnished_of_ensureAround done
    refine ⟨furnished.mono ?_, fun other found => Option.some.inj found ▸ within⟩
    rintro wanted (rfl | further)
    · exact .next parent
    · exact .further parent further

/-- Where the directories are there, none is made. -/
theorem prepare_of_around (around : ∀ outer, Path.parent? project.destination = some outer →
    outer = "" ∨ tree.isDirectory project.directory outer = true) :
    project.prepare tree = ⟨tree, none⟩ := by
  unfold prepare
  cases parent : Path.parent? project.destination with
  | none => rfl
  | some outer => exact FileTree.createDirectories_of_isDirectory (around outer parent)

theorem exists_wrote {output : String} (done : (project.write tree output).fault? = none) :
    ∃ mid place, project.Wrote output place tree mid (project.write tree output).tree := by
  rw [write_eq] at done ⊢
  split_ifs at done ⊢ with fault
  · simp [done] at fault
  · obtain ⟨furnished, around⟩ := furnished_of_prepare (by simpa using fault)
    cases write : (project.prepare tree).tree.write project.directory project.destination
        output.toUTF8 with
    | error fault =>
      rw [write] at done
      contradiction
    | ok after =>
      obtain ⟨place, written⟩ := FileTree.exists_written write
      exact ⟨_, place, furnished, write, written, around⟩

namespace Wrote

variable {output : String} {place : Place} {mid : FileTree}

theorem keeps (wrote : project.Wrote output place tree mid after) : FileTree.Keeps tree after :=
  wrote.furnished.keeps.trans wrote.written.keeps

/-- Whatever is not the page is as it was, or is a directory made for the page. -/
theorem entry?_of_ne (wrote : project.Wrote output place tree mid after) {other : Place}
    (ne : other ≠ place) : after.entry? other = tree.entry? other ∨
      FileTree.Made tree after other ∧ ∃ path, Path.Around project.destination path ∧
        after.locate project.directory path = .ok other := by
  rw [wrote.written.entry?_of_ne ne]
  rcases wrote.furnished.entry? other with same | ⟨made, path, around, located⟩
  · exact .inl same
  · right
    refine ⟨⟨made.absent, ?_⟩, path, around, wrote.written.keeps.locate located⟩
    rw [wrote.written.entry?_of_ne ne]
    exact made.directory

/-- What stood in the tree still stands there, unless the page has replaced it. -/
theorem entry?_of_some (wrote : project.Wrote output place tree mid after) {other : Place}
    {entry : FileEntry} (there : tree.entry? other = some entry) (ne : other ≠ place) :
    after.entry? other = some entry := by
  rcases wrote.entry?_of_ne ne with same | ⟨made, _⟩
  · rw [same]
    exact there
  · rw [made.absent] at there
    contradiction

/-- Below a root that neither the page nor a directory made for it has come to, all is as it was. -/
theorem agreeBelow (wrote : project.Wrote output place tree mid after) {base : Place}
    (apart : ¬ base <+: place)
    (unseen : ∀ other, FileTree.Made tree after other → ¬ base <+: other) :
    FileTree.AgreeBelow base tree after := by
  rw [wrote.written.put]
  refine (wrote.furnished.agreeBelow fun other made => unseen other ⟨made.absent, ?_⟩).put
    wrote.written.proper apart _
  have ne : other ≠ place := by
    rintro rfl
    exact wrote.written.free made.directory
  rw [wrote.written.entry?_of_ne ne]
  exact made.directory

/-- The destination holds the page. -/
theorem readText (wrote : project.Wrote output place tree mid after) :
    after.readText project.directory project.destination = .ok output := by
  have stated : after.stat project.directory project.destination = .ok (.file output.toUTF8) := by
    rw [FileTree.stat_eq, wrote.written.located]
    simp only [Except.bind, wrote.written.entry?_self]
  have decoded : String.fromUTF8? output.toUTF8 = some output := dif_pos output.isValidUTF8
  exact FileTree.readText_eq_ok_iff.mpr ⟨_, stated, decoded⟩

/-- A page that has been written can be written again, in the same place. -/
theorem again (wrote : project.Wrote output place tree mid after) (output' : String) :
    (project.write after output').fault? = none ∧
      (project.write after output').tree.locate project.directory project.destination = .ok place ∧
      (project.write after output').tree.entry? place = some (.file output'.toUTF8) := by
  have around : project.prepare after = ⟨after, none⟩ := by
    refine prepare_of_around fun outer parent => ?_
    exact (wrote.around outer parent).imp_right wrote.written.keeps.isDirectory
  obtain ⟨last, write⟩ := FileTree.write_again wrote.write output'.toUTF8
  obtain ⟨place', written⟩ := FileTree.exists_written write
  have whole : project.write after output' = ⟨last, none⟩ := by
    rw [write_eq, around]
    simp only [Option.isSome_none, Bool.false_eq_true, if_false, write]
  have same : place' = place := by
    have located := written.keeps.locate wrote.written.located
    exact Except.ok.inj (written.located.symm.trans located)
  subst same
  rw [whole]
  exact ⟨rfl, written.located, written.entry?_self⟩

end Wrote

/-! ## What stands in the way of the next command -/

/-- What a project reads stands elsewhere than its destination: the page that is filled, the places
of its settings, and the directory of its data files with all that is below it. -/
structure Apart (project : Project) (tree after : FileTree) : Prop where
  template : ∀ place, after.locate project.directory project.template = .ok place →
    after.locate project.directory project.destination ≠ .ok place
  settings : ∀ candidate ∈ Settings.candidates, ∀ place,
    after.locate project.directory (Path.join project.root candidate) = .ok place →
      after.locate project.directory project.destination ≠ .ok place
  data : ∀ base, tree.reach project.directory project.dataRoot = .ok base →
    ∀ place, after.locate project.directory project.destination = .ok place → ¬ base <+: place

theorem Apart.of_place {place : Place}
    (destination : after.locate project.directory project.destination = .ok place)
    (template : after.locate project.directory project.template ≠ .ok place)
    (settings : ∀ candidate ∈ Settings.candidates,
      after.locate project.directory (Path.join project.root candidate) ≠ .ok place)
    (data : ∀ base, tree.reach project.directory project.dataRoot = .ok base → ¬ base <+: place) :
    project.Apart tree after := by
  constructor
  · rintro other located located'
    cases destination.symm.trans located'
    exact template located
  · rintro candidate listed other located located'
    cases destination.symm.trans located'
    exact settings candidate listed located
  · rintro base reached other located
    cases destination.symm.trans located
    exact data base reached

/-- The directories made for the destination do not change what a project reads: none is that of
its data files or below it, and none brings settings into reach. -/
structure Unseen (project : Project) (tree after : FileTree) : Prop where
  data : ∀ base, tree.reach project.directory project.dataRoot = .ok base →
    ∀ place, FileTree.Made tree after place → ¬ base <+: place
  settings : ∀ candidate ∈ Settings.candidates,
    after.isFile project.directory (Path.join project.root candidate) = true →
      tree.isFile project.directory (Path.join project.root candidate) = true

section

variable {output : String} {place : Place} {mid : FileTree}

/-- What is read elsewhere than at the page's place is read as before. -/
theorem Wrote.stat_of_ne (wrote : project.Wrote output place tree mid after) {path : String}
    {entry : FileEntry} (read : tree.stat project.directory path = .ok entry)
    (ne : after.locate project.directory path ≠ .ok place) :
    after.stat project.directory path = .ok entry := by
  obtain ⟨other, located, found⟩ := FileTree.exists_locate_of_stat read
  have located' := wrote.keeps.locate located
  have ne' : other ≠ place := fun same => ne (same ▸ located')
  rw [FileTree.stat_eq, located']
  simp only [Except.bind, wrote.entry?_of_some found ne']

/-- The settings are read as before. -/
theorem Wrote.settings (wrote : project.Wrote output place tree mid after)
    (apart : project.Apart tree after) (unseen : project.Unseen tree after) :
    Settings.loadOrStandard after project.directory project.root =
      Settings.loadOrStandard tree project.directory project.root := by
  have elsewhere (candidate : String) (listed : candidate ∈ Settings.candidates) :
      after.locate project.directory (Path.join project.root candidate) ≠ .ok place :=
    fun located => apart.settings candidate listed place located wrote.written.located
  have stats (candidate : String) (listed : candidate ∈ Settings.candidates)
      (file : tree.isFile project.directory (Path.join project.root candidate) = true) :
      after.stat project.directory (Path.join project.root candidate) =
        tree.stat project.directory (Path.join project.root candidate) := by
    obtain ⟨content, read⟩ := FileTree.isFile_iff.mp file
    rw [read]
    exact wrote.stat_of_ne read (elsewhere candidate listed)
  refine Settings.loadOrStandard_congr (fun candidate listed => ?_) (fun candidate listed file => ?_)
  · refine Bool.eq_iff_iff.mpr ⟨unseen.settings candidate listed, fun file => ?_⟩
    rw [FileTree.isFile_iff, stats candidate listed file, ← FileTree.isFile_iff]
    exact file
  · rw [FileTree.readText_eq, FileTree.readText_eq, stats candidate listed file]

/-- The page is filled as before. -/
theorem Wrote.fill (wrote : project.Wrote output place tree mid after) (named : tree.Named)
    (apart : project.Apart tree after) (unseen : project.Unseen tree after)
    {filled : Substitution} (done : (project.fill tree delays).2 = .ok filled) :
    project.fill after delays = project.fill tree delays := by
  cases read : tree.readText project.directory project.template with
  | error fault => simp [Project.fill, readTemplate, read, Except.mapError] at done
  | ok page =>
    have elsewhere : after.locate project.directory project.template ≠ .ok place :=
      fun located => apart.template place located wrote.written.located
    have read' : after.readText project.directory project.template = .ok page := by
      obtain ⟨content, stated, decoded⟩ := FileTree.readText_eq_ok_iff.mp read
      exact FileTree.readText_eq_ok_iff.mpr
        ⟨content, wrote.stat_of_ne stated elsewhere, decoded⟩
    obtain ⟨data, _, loaded, _⟩ := (fill_ok_iff read).mp ⟨filled, done⟩
    refine fill_congr read read' fun b member => ?_
    obtain ⟨value, answer⟩ := ((FileStore.load_ok_iff.mp ⟨data, loaded⟩).2 b member).1
    obtain ⟨base, reached⟩ := FileStore.exists_reach_of_lookup named answer
    have agree : FileTree.AgreeBelow base tree after :=
      wrote.agreeBelow (apart.data base reached place wrote.written.located)
        (unseen.data base reached)
    exact FileStore.lookup_eq_of_agreeBelow named wrote.keeps reached agree b.path

end

/-! ## Commands -/

section

variable {filled : Substitution}

theorem withFilled_of_ok (done : (project.fill tree delays).2 = .ok filled)
    (next : Substitution → FileTree × List Notice × Ending) :
    project.withFilled tree delays next = ⟨(next filled).1, (project.fill tree delays).1,
      project.warnings filled.warnings ++ (next filled).2.1, (next filled).2.2⟩ := by
  rcases filling : project.fill tree delays with ⟨events, result⟩
  rw [filling] at done
  subst done
  simp only [withFilled, filling]

theorem withFilled_of_error {failure : Failure} (failed : (project.fill tree delays).2 = .error failure)
    (next : Substitution → FileTree × List Notice × Ending) :
    project.withFilled tree delays next = .failed tree (project.fill tree delays).1 failure := by
  rcases filling : project.fill tree delays with ⟨events, result⟩
  rw [filling] at failed
  subst failed
  simp only [withFilled, filling]

/-- What comes of a command depends on the filled page, if there is one. -/
theorem exists_fill_of_done {next : Substitution → FileTree × List Notice × Ending}
    (done : (project.withFilled tree delays next).ending = .done) :
    ∃ filled, (project.fill tree delays).2 = .ok filled := by
  cases filling : (project.fill tree delays).2 with
  | error failure =>
    rw [withFilled_of_error filling] at done
    contradiction
  | ok filled => exact ⟨filled, rfl⟩

/-- A command that does not change the tree with the filled page does not change it at all. -/
theorem tree_withFilled {next : Substitution → FileTree × List Notice × Ending}
    (same : ∀ filled, (next filled).1 = tree) : (project.withFilled tree delays next).tree = tree := by
  cases filling : (project.fill tree delays).2 with
  | error failure =>
    rw [withFilled_of_error filling]
    rfl
  | ok filled =>
    rw [withFilled_of_ok filling]
    exact same filled

/-- Warnings are no output. -/
theorem output_warnings (project : Project) (tree : FileTree) (events : List Event)
    (warnings : List Warning) (text : String) (ending : Ending) (colored : Bool) (elapsed : String) :
    (Outcome.mk tree events (project.warnings warnings ++ [.page text]) ending).output colored elapsed =
      text := by
  have silent : (project.warnings warnings).filter (!·.isComplaint) = [] := by
    refine List.filter_eq_nil_iff.mpr fun notice member => ?_
    obtain ⟨warning, _, rfl⟩ := List.mem_map.mp member
    simp [Notice.isComplaint]
  rw [Outcome.output, List.filter_append, silent]
  simp [Notice.isComplaint, Notice.text]

theorem dryRun_of_fill (done : (project.fill tree delays).2 = .ok filled) :
    (project.build tree delays true).ending = .done ∧
      ∀ colored elapsed, (project.build tree delays true).output colored elapsed = filled.output := by
  rw [build, withFilled_of_ok done]
  exact ⟨rfl, output_warnings project tree _ _ _ _⟩

theorem build_of_fill (done : (project.fill tree delays).2 = .ok filled)
    (written : (project.write tree filled.output).fault? = none) :
    (project.build tree delays false).ending = .done ∧
      (project.build tree delays false).tree = (project.write tree filled.output).tree := by
  rw [build, withFilled_of_ok done]
  simp only [Bool.false_eq_true, if_false, written]
  exact ⟨trivial, trivial⟩

theorem write_of_build (done : (project.fill tree delays).2 = .ok filled)
    (built : (project.build tree delays false).ending = .done) :
    (project.write tree filled.output).fault? = none := by
  rw [build, withFilled_of_ok done] at built
  simp only [Bool.false_eq_true, if_false] at built
  cases fault : (project.write tree filled.output).fault? with
  | none => rfl
  | some fault =>
    simp only [fault] at built
    contradiction

theorem ending_check (done : (project.fill tree delays).2 = .ok filled) (showDiff : Bool) :
    (project.check tree delays showDiff).ending =
      if tree.readText project.directory project.destination = .ok filled.output then .done
      else .stale := by
  rw [check, withFilled_of_ok done, current?]
  cases read : tree.readText project.directory project.destination with
  | error fault => simp [Except.toOption]
  | ok current =>
    by_cases same : current = filled.output
    · simp [Except.toOption, same]
    · simp [Except.toOption, same]

end

theorem find_eq_ok {directory : Place} {root : String} {chosen : PathChoices}
    (found : find tree directory root chosen = .ok project) :
    project.directory = directory ∧ project.root = root := by
  unfold find at found
  cases settings : Settings.loadOrStandard tree directory root with
  | error problem =>
    rw [settings] at found
    contradiction
  | ok settings' =>
    rw [settings] at found
    cases found
    exact ⟨rfl, rfl⟩

/-- Only a build that is no dry run changes the tree. -/
theorem tree_run {command : Command} (reads : ∀ paths, command ≠ .build paths false) :
    (command.run project tree delays).tree = tree := by
  cases command with
  | build paths dryRun =>
    cases dryRun with
    | true => exact tree_withFilled fun filled => rfl
    | false => exact absurd rfl (reads paths)
  | check paths showDiff =>
    refine tree_withFilled fun filled => ?_
    simp only
    split
    · rfl
    · split_ifs
      · rfl
      · rfl
      · rfl
  | refs template? =>
    unfold Command.run refs
    simp only
    split
    · rfl
    · split
      · rfl
      · rfl

end Project

namespace Invocation

/-- The same command line with another command. -/
def doing (invocation : Invocation) (command : Command) : Invocation :=
  { invocation with command? := some command }

/-- A build with these paths. -/
def build (invocation : Invocation) (paths : PathChoices) (tree : FileTree) (delays : Delays)
    (directory : Place) : Outcome :=
  (invocation.doing (.build paths false)).run tree delays directory

/-- A build with these paths that only prints the page. -/
def dryRun (invocation : Invocation) (paths : PathChoices) (tree : FileTree) (delays : Delays)
    (directory : Place) : Outcome :=
  (invocation.doing (.build paths true)).run tree delays directory

/-- A check with these paths. -/
def check (invocation : Invocation) (paths : PathChoices) (showDiff : Bool) (tree : FileTree)
    (delays : Delays) (directory : Place) : Outcome :=
  (invocation.doing (.check paths showDiff)).run tree delays directory

variable {invocation : Invocation} {tree after : FileTree} {delays : Delays} {directory : Place}
  {paths : PathChoices}
  {project : Project}

theorem run_doing (command : Command) (delays : Delays)
    (found : Project.find tree directory (invocation.root directory) command.chosen = .ok project) :
    ((invocation.doing command).run tree delays directory).ending = (command.run project tree delays).ending ∧
      ((invocation.doing command).run tree delays directory).tree = (command.run project tree delays).tree ∧
      ∀ colored elapsed, ((invocation.doing command).run tree delays directory).output colored elapsed =
        (command.run project tree delays).output colored elapsed := by
  have project' : (invocation.doing command).project tree directory = .ok project := found
  have command' : (invocation.doing command).command = command := rfl
  simp only [run, project', command']
  exact ⟨trivial, trivial, fun _ _ => rfl⟩

theorem tree_run_doing (command : Command) (reads : ∀ paths, command ≠ .build paths false) :
    ((invocation.doing command).run tree delays directory).tree = tree := by
  have command' : (invocation.doing command).command = command := rfl
  unfold run
  cases (invocation.doing command).project tree directory with
  | error problem => rfl
  | ok project =>
    rw [command']
    exact Project.tree_run reads

end Invocation

/-- What comes of a build of `output` at `place`, and of other commands with the same paths before it
and after it. -/
structure Invocation.Agrees (invocation : Invocation) (paths : PathChoices) (tree : FileTree)
    (delays : Delays) (directory : Place) (destination output : String) (place : Place) : Prop where
  /-- A dry run prints the page. -/
  printed : (invocation.dryRun paths tree delays directory).ending = .done ∧
    ∀ colored elapsed, (invocation.dryRun paths tree delays directory).output colored elapsed = output
  located : (invocation.build paths tree delays directory).tree.locate directory destination = .ok place
  holds : (invocation.build paths tree delays directory).tree.entry? place = some (.file output.toUTF8)
  /-- Nothing else has changed but directories around the destination that were missing. -/
  frame : ∀ other, other ≠ place →
    (invocation.build paths tree delays directory).tree.entry? other = tree.entry? other ∨
      FileTree.Made tree (invocation.build paths tree delays directory).tree other ∧
        ∃ path, Path.Around destination path ∧
          (invocation.build paths tree delays directory).tree.locate directory path = .ok other
  checked : ∀ showDiff, (invocation.check paths showDiff
    (invocation.build paths tree delays directory).tree delays directory).ending = .done
  /-- A second build writes the same page. -/
  again : (invocation.build paths (invocation.build paths tree delays directory).tree delays directory).ending =
      .done ∧
    (invocation.build paths (invocation.build paths tree delays directory).tree delays directory).tree.locate
      directory destination = .ok place ∧
    (invocation.build paths (invocation.build paths tree delays directory).tree delays directory).tree.entry?
      place = some (.file output.toUTF8)

section

variable {invocation : Invocation} {paths : PathChoices} {tree after mid : FileTree} {delays : Delays}
  {directory : Place}
  {project : Project} {filled : Substitution} {place : Place}

/-- After a page is written the same settings are found. -/
theorem Project.Wrote.find {output : String} (wrote : project.Wrote output place tree mid after)
    (apart : project.Apart tree after) (unseen : project.Unseen tree after)
    (found : Project.find tree directory (invocation.root directory) paths = .ok project) :
    Project.find after directory (invocation.root directory) paths = .ok project := by
  obtain ⟨rfl, root⟩ := Project.find_eq_ok found
  rw [← found, Project.find, Project.find, ← root, wrote.settings apart unseen]

/-- A build that is done has filled its page and written it. -/
theorem Invocation.exists_wrote_of_build
    (found : Project.find tree directory (invocation.root directory) paths = .ok project)
    (done : (invocation.build paths tree delays directory).ending = .done) :
    ∃ filled mid place, (project.fill tree delays).2 = .ok filled ∧
      project.Wrote filled.output place tree mid (invocation.build paths tree delays directory).tree := by
  obtain ⟨ends, written, _⟩ := Invocation.run_doing (.build paths false) delays found
  obtain ⟨filled, filling⟩ := Project.exists_fill_of_done (ends.symm.trans done)
  have write := Project.write_of_build filling (ends.symm.trans done)
  obtain ⟨mid, place, wrote⟩ := Project.exists_wrote write
  rw [← (Project.build_of_fill filling write).2] at wrote
  exact ⟨filled, mid, place, filling, written.symm ▸ wrote⟩

/-- What other commands come to where the tree that is left behind is filled like the one before. -/
theorem Invocation.agrees_of_wrote
    (wrote : project.Wrote filled.output place tree mid (invocation.build paths tree delays directory).tree)
    (found : Project.find tree directory (invocation.root directory) paths = .ok project)
    (filling : (project.fill tree delays).2 = .ok filled)
    (refound : Project.find (invocation.build paths tree delays directory).tree directory
      (invocation.root directory) paths = .ok project)
    (refilling : (project.fill (invocation.build paths tree delays directory).tree delays).2 = .ok filled) :
    invocation.Agrees paths tree delays directory project.destination filled.output place := by
  obtain ⟨rfl, _⟩ := Project.find_eq_ok found
  constructor
  · obtain ⟨ends, _, prints⟩ := Invocation.run_doing (.build paths true) delays found
    obtain ⟨ends', prints'⟩ := Project.dryRun_of_fill filling
    exact ⟨ends.trans ends', fun colored elapsed => (prints colored elapsed).trans (prints' _ _)⟩
  · exact wrote.written.located
  · exact wrote.written.entry?_self
  · exact fun other ne => wrote.entry?_of_ne ne
  · intro showDiff
    obtain ⟨ends, _, _⟩ := Invocation.run_doing (.check paths showDiff) delays refound
    exact ends.trans ((Project.ending_check refilling showDiff).trans (if_pos wrote.readText))
  · obtain ⟨rewritten, relocated, reholds⟩ := wrote.again filled.output
    obtain ⟨ends, written, _⟩ := Invocation.run_doing (.build paths false) delays refound
    obtain ⟨ends', written'⟩ := Project.build_of_fill refilling rewritten
    have left : (invocation.build paths (invocation.build paths tree delays project.directory).tree delays
        project.directory).tree = _ := written.trans written'
    exact ⟨ends.trans ends', left ▸ relocated, left ▸ reholds⟩

/-- A check complains exactly if the destination does not hold what a dry run prints. -/
theorem Invocation.exitCode_check_iff
    (found : Project.find tree directory (invocation.root directory) paths = .ok project)
    (done : (invocation.dryRun paths tree delays directory).ending = .done) (showDiff colored : Bool)
    (elapsed : String) :
    (invocation.check paths showDiff tree delays directory).ending.exitCode = 1 ↔
      tree.readText directory project.destination ≠
        .ok ((invocation.dryRun paths tree delays directory).output colored elapsed) := by
  obtain ⟨rfl, _⟩ := Project.find_eq_ok found
  obtain ⟨dryEnds, _, dryPrints⟩ := Invocation.run_doing (.build paths true) delays found
  obtain ⟨checkEnds, _, _⟩ := Invocation.run_doing (.check paths showDiff) delays found
  obtain ⟨filled, filling⟩ := Project.exists_fill_of_done (dryEnds.symm.trans done)
  have ends : (invocation.check paths showDiff tree delays project.directory).ending = _ :=
    checkEnds.trans (Project.ending_check filling showDiff)
  have prints : (invocation.dryRun paths tree delays project.directory).output colored elapsed =
      filled.output :=
    (dryPrints colored elapsed).trans ((Project.dryRun_of_fill filling).2 colored elapsed)
  rw [ends, prints]
  split_ifs with same
  · simp [same, Ending.exitCode]
  · simp [same, Ending.exitCode]

end

/-- A build writes what a dry run prints and changes nothing else, a check behind it passes, and a
second build writes the same, if the destination stands apart from all that is read and the
directories made for it go unseen. A check fails exactly if the destination does not hold what a dry
run prints. No command but a build that is no dry run changes the tree. In all these runs it takes
the same time to touch a file. -/
theorem build_agrees_with_check (invocation : Invocation) (paths : PathChoices) (tree : FileTree)
    (delays : Delays) (directory : Place) :
    (∀ project, Project.find tree directory (invocation.root directory) paths = .ok project →
      tree.Named → (invocation.build paths tree delays directory).ending = .done →
      project.Apart tree (invocation.build paths tree delays directory).tree →
      project.Unseen tree (invocation.build paths tree delays directory).tree →
      ∃ output place, invocation.Agrees paths tree delays directory project.destination output place) ∧
    (∀ project, Project.find tree directory (invocation.root directory) paths = .ok project →
      (invocation.dryRun paths tree delays directory).ending = .done → ∀ showDiff colored elapsed,
      ((invocation.check paths showDiff tree delays directory).ending.exitCode = 1 ↔
        tree.readText directory project.destination ≠
          .ok ((invocation.dryRun paths tree delays directory).output colored elapsed))) ∧
    ∀ command, (∀ paths, command ≠ .build paths false) →
      ((invocation.doing command).run tree delays directory).tree = tree := by
  refine ⟨?_, ?_, ?_⟩
  · intro project found named done apart unseen
    obtain ⟨filled, mid, place, filling, wrote⟩ := Invocation.exists_wrote_of_build found done
    have refound := wrote.find apart unseen found
    have refilling :
        (project.fill (invocation.build paths tree delays directory).tree delays).2 = .ok filled := by
      rw [wrote.fill named apart unseen filling]
      exact filling
    exact ⟨filled.output, place,
      Invocation.agrees_of_wrote wrote found filling refound refilling⟩
  · intro project found done showDiff colored elapsed
    exact Invocation.exitCode_check_iff found done showDiff colored elapsed
  · exact Invocation.tree_run_doing

/-- A build of a page that is filled and written. -/
theorem Invocation.build_of_write {invocation : Invocation} {paths : PathChoices}
    {tree after : FileTree} {delays : Delays} {directory : Place} {project : Project}
    {filled : Substitution}
    (found : Project.find tree directory (invocation.root directory) paths = .ok project)
    (filling : (project.fill tree delays).2 = .ok filled)
    (write : project.write tree filled.output = ⟨after, none⟩) :
    (invocation.build paths tree delays directory).ending = .done ∧
      (invocation.build paths tree delays directory).tree = after := by
  have built := Invocation.run_doing (.build paths false) delays found
  obtain ⟨ends, written⟩ := Project.build_of_fill filling (by rw [write])
  rw [write] at written
  exact ⟨built.1.trans ends, built.2.1.trans written⟩

private def plainly : Invocation := ⟨none, none, false, false⟩

private def atOnce : Delays := fun _ => ⟨0⟩

private def listingPage : String := "<:a=/q:><:for i : a: >y</:>"

/-- A project with a page and a document, and no place yet for what is built. -/
private def fresh : FileTree := ⟨[(["p"], .directory), (["p", "src"], .directory),
  (["p", "src", "index.html"], .file listingPage.toUTF8), (["p", "data"], .directory),
  (["p", "data", "q.json"], .file "[0]".toUTF8)]⟩

private def freshBuilt : FileTree := ⟨fresh.entries ++
  [(["p", "dist"], .directory), (["p", "dist", "index.html"], .file "y".toUTF8)]⟩

private def freshProject : Project :=
  ⟨["p"], "/p", .standard, "/p/src/index.html", "/p/dist/index.html", "/p/data"⟩

theorem build_agrees_with_check_fresh :
    fresh.Named ∧ Project.find fresh ["p"] (plainly.root ["p"]) ⟨none, none, none⟩ = .ok freshProject ∧
      (plainly.build ⟨none, none, none⟩ fresh atOnce ["p"]).ending = .done ∧
      freshProject.Apart fresh freshBuilt ∧ freshProject.Unseen fresh freshBuilt ∧
      plainly.Agrees ⟨none, none, none⟩ fresh atOnce ["p"] "/p/dist/index.html" "y"
        ["p", "dist", "index.html"] := by
  have named : fresh.Named := by decide
  have found : Project.find fresh ["p"] (plainly.root ["p"]) ⟨none, none, none⟩ =
      .ok freshProject := by
    with_unfolding_all rfl
  have filling : (freshProject.fill fresh atOnce).2 = .ok ⟨"y", []⟩ := by decide +kernel
  have write : freshProject.write fresh "y" = ⟨freshBuilt, none⟩ := by with_unfolding_all rfl
  obtain ⟨done, built⟩ := Invocation.build_of_write found filling write
  have destination : freshBuilt.locate ["p"] "/p/dist/index.html" =
      .ok ["p", "dist", "index.html"] := by
    with_unfolding_all rfl
  have template : freshBuilt.locate ["p"] "/p/src/index.html" = .ok ["p", "src", "index.html"] := by
    with_unfolding_all rfl
  have data : fresh.reach ["p"] "/p/data" = .ok ["p", "data"] := by with_unfolding_all rfl
  have unset : ∀ candidate ∈ Settings.candidates,
      freshBuilt.locate ["p"] (Path.join "/p" candidate) = .error .notFound := by
    decide +kernel
  have outside : ∀ found ∈ freshBuilt.entries, (fresh.entry? found.1).isNone = true →
      ¬ ["p", "data"] <+: found.1 := by
    decide +kernel
  have apart : freshProject.Apart fresh freshBuilt := by
    refine .of_place destination (fun located => ?_) (fun candidate listed located => ?_)
      fun base reached => ?_
    · exact absurd (template.symm.trans located) (by decide)
    · cases (unset candidate listed).symm.trans located
    · cases data.symm.trans reached
      decide
  have unseen : freshProject.Unseen fresh freshBuilt := by
    constructor
    · intro base reached place made
      cases data.symm.trans reached
      exact outside _ made.mem (Option.isNone_iff_eq_none.mpr made.absent)
    · intro candidate listed file
      obtain ⟨content, stated⟩ := FileTree.isFile_iff.mp file
      obtain ⟨place, located, _⟩ := FileTree.exists_locate_of_stat stated
      cases (unset candidate listed).symm.trans located
  obtain ⟨output, place, agrees⟩ :=
    (build_agrees_with_check plainly ⟨none, none, none⟩ fresh atOnce ["p"]).1
      freshProject found named done (built ▸ apart) (built ▸ unseen)
  have here : place = ["p", "dist", "index.html"] :=
    Except.ok.inj (agrees.located.symm.trans (built ▸ destination))
  have page : output = "y" := by
    obtain ⟨_, prints⟩ := Project.dryRun_of_fill filling
    have dry := Invocation.run_doing (.build ⟨none, none, none⟩ true) atOnce found
    exact (agrees.printed.2 false "").symm.trans ((dry.2.2 false "").trans (prints false ""))
  subst here page
  exact ⟨named, found, done, apart, unseen, agrees⟩

/-- Settings that cannot be read, behind a directory that is missing. -/
private def hidden : FileTree := ⟨[(["p"], .directory), (["p", "birdchirp.toml"], .file "x".toUTF8),
  (["p", "src"], .directory), (["p", "src", "index.html"], .file "hello".toUTF8)]⟩

private def hiddenBuilt : FileTree := ⟨hidden.entries ++
  [(["p", "out"], .directory), (["p", "out", "index.html"], .file "hello".toUTF8)]⟩

private def hiddenLine : Invocation := ⟨none, some "out/..", false, false⟩

private def hiddenPaths : PathChoices := ⟨some "/p/src/index.html", some "/p/out/index.html", none⟩

private def hiddenProject : Project :=
  ⟨["p"], "out/..", .standard, "/p/src/index.html", "/p/out/index.html", "out/../data"⟩

private theorem apart_hidden : hiddenProject.Apart hidden hiddenBuilt := by
  have destination : hiddenBuilt.locate ["p"] "/p/out/index.html" =
      .ok ["p", "out", "index.html"] := by
    with_unfolding_all rfl
  have settings : ∀ candidate ∈ Settings.candidates,
      hiddenBuilt.locate ["p"] (Path.join "out/.." candidate) ≠ .ok ["p", "out", "index.html"] := by
    decide +kernel
  have data : hidden.reach ["p"] "out/../data" = .error .notFound := by with_unfolding_all rfl
  refine .of_place destination (by decide +kernel) settings fun base reached => ?_
  cases data.symm.trans reached

/-- A document with no directory of its name yet. -/
private def unshadowed : FileTree := ⟨fresh.entries ++ [(["p", "dist"], .directory)]⟩

private def shadowed : FileTree := ⟨unshadowed.entries ++
  [(["p", "data", "q"], .directory), (["p", "dist", "index.html"], .file "y".toUTF8)]⟩

private def shadowPaths : PathChoices := ⟨none, some "data/q/../../dist/index.html", none⟩

private def shadowProject : Project :=
  ⟨["p"], "/p", .standard, "/p/src/index.html", "/p/data/q/../../dist/index.html", "/p/data"⟩

private theorem apart_shadowed : shadowProject.Apart unshadowed shadowed := by
  have destination : shadowed.locate ["p"] "/p/data/q/../../dist/index.html" =
      .ok ["p", "dist", "index.html"] := by
    with_unfolding_all rfl
  have settings : ∀ candidate ∈ Settings.candidates,
      shadowed.locate ["p"] (Path.join "/p" candidate) ≠ .ok ["p", "dist", "index.html"] := by
    decide +kernel
  have data : unshadowed.reach ["p"] "/p/data" = .ok ["p", "data"] := by with_unfolding_all rfl
  refine .of_place destination (by decide +kernel) settings fun base reached => ?_
  cases data.symm.trans reached
  decide

/-- A destination that stands apart is not enough. A directory made for it brings the settings into
reach in one project, and in another one it is a collection where a document was found before. -/
theorem build_seen_by_check :
    (hidden.Named ∧ Project.find hidden ["p"] (hiddenLine.root ["p"]) hiddenPaths = .ok hiddenProject ∧
      (hiddenLine.build hiddenPaths hidden atOnce ["p"]).ending = .done ∧
      (hiddenLine.build hiddenPaths hidden atOnce ["p"]).tree = hiddenBuilt ∧
      hiddenProject.Apart hidden hiddenBuilt ∧
      (hiddenLine.check hiddenPaths false hiddenBuilt atOnce ["p"]).ending.exitCode = 2) ∧
    (unshadowed.Named ∧
      Project.find unshadowed ["p"] (plainly.root ["p"]) shadowPaths = .ok shadowProject ∧
      (plainly.build shadowPaths unshadowed atOnce ["p"]).ending = .done ∧
      (plainly.build shadowPaths unshadowed atOnce ["p"]).tree = shadowed ∧
      shadowProject.Apart unshadowed shadowed ∧
      (∀ path ∈ ((shadowProject.store unshadowed atOnce).lookup "/q").touched,
        shadowed.locate ["p"] path ≠ .ok ["p", "dist", "index.html"]) ∧
      (plainly.check shadowPaths false shadowed atOnce ["p"]).ending.exitCode = 1) := by
  have found : Project.find hidden ["p"] (hiddenLine.root ["p"]) hiddenPaths = .ok hiddenProject := by
    with_unfolding_all rfl
  have filling : (hiddenProject.fill hidden atOnce).2 = .ok ⟨"hello", []⟩ := by decide +kernel
  have write : hiddenProject.write hidden "hello" = ⟨hiddenBuilt, none⟩ := by with_unfolding_all rfl
  have found' : Project.find unshadowed ["p"] (plainly.root ["p"]) shadowPaths =
      .ok shadowProject := by
    with_unfolding_all rfl
  have filling' : (shadowProject.fill unshadowed atOnce).2 = .ok ⟨"y", []⟩ := by decide +kernel
  have write' : shadowProject.write unshadowed "y" = ⟨shadowed, none⟩ := by with_unfolding_all rfl
  have touched : ((shadowProject.store unshadowed atOnce).lookup "/q").touched =
      ["/p/data/q", "/p/data/q.json", "/p/data/q.json"] := by
    decide +kernel
  obtain ⟨done, built⟩ := Invocation.build_of_write found filling write
  obtain ⟨done', built'⟩ := Invocation.build_of_write found' filling' write'
  refine ⟨⟨by decide, found, done, built, apart_hidden, ?_⟩,
    by decide, found', done', built', apart_shadowed, ?_, ?_⟩
  · decide +kernel
  · rw [touched]
    decide +kernel
  · decide +kernel

end Fieldmark
