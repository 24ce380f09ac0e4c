import Fieldmark.Outcome
import Fieldmark.Proofs.Loading
import Fieldmark.Proofs.Truthful

/-!
# Builds that fail leave no trace

A page is filled unless something stands in its way (`fill_fails_iff`): its settings or the page
itself cannot be read, a document is missing or comes too late, the page cannot be scanned or one of
its tags cannot be rendered. A build that something stands in the way of ends there, before anything
is written or printed (`hindered_build_changes_nothing`).
-/

namespace Fieldmark

/-! ## Pages that can be filled -/

theorem result_fill (source : Source) (options : LoadOptions) (policy : NestedOpenPolicy)
    (page : List Char) :
    (fill source options policy page).result =
      (load source options page).result.bind fun data => (substitute policy page data).result := by
  cases loaded : (load source options page).result with
  | error problem => simp only [fill, loaded, Except.bind]
  | ok data => simp only [fill, loaded, Except.bind]

/-- A tag that cannot be rendered keeps the segments around it from being rendered, wherever it
stands among them. -/
theorem exists_problem_of_mem {data : Tree} {segments : List Segment} {tag : Tag} {problem : Problem}
    (member : .tag tag ∈ segments) (failed : (tag.render data).problem? = some problem) :
    ∃ problem', (renderSegments data segments).problem? = some problem' := by
  induction segments with
  | nil => contradiction
  | cons segment rest ih =>
    cases segment with
    | literal text =>
      obtain ⟨problem', later⟩ := ih (List.mem_of_ne_of_mem (by simp) member)
      exact ⟨problem', later⟩
    | tag first =>
      rcases rendered : first.render data with ⟨text, events, problem?⟩
      cases problem? with
      | some early => exact ⟨early, by simp [renderSegments, rendered]⟩
      | none =>
        have other : tag ≠ first := by
          rintro rfl
          rw [rendered] at failed
          contradiction
        obtain ⟨problem', later⟩ := ih (List.mem_of_ne_of_mem (by simpa using other) member)
        exact ⟨problem', by simpa [renderSegments, rendered] using later⟩

theorem substitute_ok_iff {policy : NestedOpenPolicy} {page : List Char} {data : Tree} :
    (∃ filled, (substitute policy page data).result = .ok filled) ↔
      ∃ scanned, scan policy (Binding.strip page) = .ok scanned ∧
        ∀ tag ∈ scanned.tags, (tag.render data).problem? = none := by
  rw [result_substitute]
  cases found : scan policy (Binding.strip page) with
  | error problem => simp [Except.bind]
  | ok scanned =>
    simp only [Except.bind, Except.ok.injEq, exists_eq_left']
    constructor
    · rintro ⟨filled, done⟩ tag member
      by_contra failed
      obtain ⟨problem, failed⟩ := Option.ne_none_iff_exists'.mp failed
      obtain ⟨problem', stopped⟩ := exists_problem_of_mem (Scan.tag_mem_segments member) failed
      rw [stopped] at done
      contradiction
    · intro rendered
      cases stopped : (renderSegments data scanned.segments).problem? with
      | none => exact ⟨_, rfl⟩
      | some problem =>
        obtain ⟨tag, member, failed⟩ := mem_of_renderSegments stopped
        have listed : tag ∈ scanned.tags := List.mem_filterMap.mpr ⟨_, member, rfl⟩
        rw [rendered tag listed] at failed
        contradiction

namespace FileStore

@[simp] theorem delay_source (store : FileStore) (path : String) :
    (store.source path).delay = (store.lookup path).time := by
  simp only [source]

@[simp] theorem answer_source (store : FileStore) (path : String) :
    (store.source path).answer = (store.lookup path).result := by
  simp only [source]

/-- All lookups have to succeed, and within the time limit. -/
theorem load_ok_iff {store : FileStore} {options : LoadOptions} {page : List Char} :
    (∃ data, (load store.source options page).result = .ok data) ↔
      (options.duplicates = .lastWins ∨ ((Binding.find page).map (·.name)).Nodup) ∧
        ∀ b ∈ Binding.find page, (∃ value, (store.lookup b.path).result = .ok value) ∧
          ∀ timeout ∈ options.timeout?,
            (store.lookup b.path).time.nanoseconds ≤ timeout.nanoseconds := by
  simp only [Load.load_ok_iff, Load.Arrives, answer_source, delay_source]

end FileStore

/-! ## What can stand in the way -/

/-- Something keeps the page of a project from being filled. -/
inductive Project.Hindered (project : Project) (tree : FileTree) (delays : Delays) : Prop
  | template {fault} : tree.readText project.directory project.template = .error fault →
    Hindered project tree delays
  | repeated {page} : tree.readText project.directory project.template = .ok page →
    project.settings.duplicates = .reject → ¬ ((Binding.find page.toList).map (·.name)).Nodup →
    Hindered project tree delays
  | reference {page b problem} : tree.readText project.directory project.template = .ok page →
    b ∈ Binding.find page.toList → ((project.store tree delays).lookup b.path).result = .error problem →
    Hindered project tree delays
  | late {page b timeout} : tree.readText project.directory project.template = .ok page →
    project.settings.timeout? = some timeout → b ∈ Binding.find page.toList →
    timeout.nanoseconds < ((project.store tree delays).lookup b.path).time.nanoseconds →
    Hindered project tree delays
  | scan {page problem} : tree.readText project.directory project.template = .ok page →
    scan project.settings.nestedOpen (Binding.strip page.toList) = .error problem →
    Hindered project tree delays
  | tag {page data scanned tag problem} :
    tree.readText project.directory project.template = .ok page →
    (load (project.store tree delays).source project.settings.loadOptions page.toList).result =
      .ok data →
    Fieldmark.scan project.settings.nestedOpen (Binding.strip page.toList) = .ok scanned →
    tag ∈ scanned.tags → (tag.render data).problem? = some problem → Hindered project tree delays

/-- Something keeps a command line from a filled page. -/
inductive Invocation.Hindered (invocation : Invocation) (tree : FileTree) (delays : Delays)
    (directory : Place) : Prop
  | settings {problem} :
    Settings.loadOrStandard tree directory (invocation.root directory) = .error problem →
    Hindered invocation tree delays directory
  | page {project} : invocation.project tree directory = .ok project → project.Hindered tree delays →
    Hindered invocation tree delays directory

namespace Project

variable {project : Project} {tree : FileTree} {delays : Delays}

theorem fill_of_page {page : String}
    (read : tree.readText project.directory project.template = .ok page) :
    (project.fill tree delays).2 = (Fieldmark.fill (project.store tree delays).source
      project.settings.loadOptions project.settings.nestedOpen page.toList).result.mapError
        .problem := by
  simp [fill, readTemplate, read, Except.mapError]

/-- With the page at hand, all the rest has to succeed. -/
theorem fill_ok_iff {page : String}
    (read : tree.readText project.directory project.template = .ok page) :
    (∃ filled, (project.fill tree delays).2 = .ok filled) ↔
      ∃ data scanned,
        (load (project.store tree delays).source project.settings.loadOptions page.toList).result =
          .ok data ∧
        scan project.settings.nestedOpen (Binding.strip page.toList) = .ok scanned ∧
        ∀ tag ∈ scanned.tags, (tag.render data).problem? = none := by
  rw [fill_of_page read, result_fill]
  cases loaded : (load (project.store tree delays).source project.settings.loadOptions
      page.toList).result with
  | error problem => simp [Except.bind, Except.mapError]
  | ok data =>
    simp only [Except.bind, Except.ok.injEq, ↓existsAndEq, true_and]
    rw [← substitute_ok_iff]
    cases (substitute project.settings.nestedOpen page.toList data).result with
    | error problem => simp [Except.mapError]
    | ok filled => simp [Except.mapError]

/-- Nothing keeps the documents of a page from being there. -/
theorem load_ok_of_not_hindered {page : String}
    (read : tree.readText project.directory project.template = .ok page)
    (free : ¬ project.Hindered tree delays) :
    ∃ data, (load (project.store tree delays).source project.settings.loadOptions page.toList).result =
      .ok data := by
  apply FileStore.load_ok_iff.mpr
  constructor
  · show project.settings.duplicates = .lastWins ∨ _
    cases policy : project.settings.duplicates with
    | lastWins => exact .inl rfl
    | reject => exact .inr (not_not.mp fun again => free (.repeated read policy again))
  · intro b member
    constructor
    · cases found : ((project.store tree delays).lookup b.path).result with
      | error problem => exact absurd (.reference read member found) free
      | ok value => exact ⟨value, rfl⟩
    · intro timeout limit
      exact Nat.le_of_not_lt fun late => free (.late read limit member late)

theorem exists_fill_of_not_hindered (free : ¬ project.Hindered tree delays) :
    ∃ filled, (project.fill tree delays).2 = .ok filled := by
  cases read : tree.readText project.directory project.template with
  | error fault => exact absurd (.template read) free
  | ok page =>
    obtain ⟨data, loaded⟩ := load_ok_of_not_hindered read free
    cases found : scan project.settings.nestedOpen (Binding.strip page.toList) with
    | error problem => exact absurd (.scan read found) free
    | ok scanned =>
      refine (fill_ok_iff read).mpr ⟨data, scanned, loaded, found, fun tag member => ?_⟩
      cases failed : (tag.render data).problem? with
      | none => rfl
      | some problem => exact absurd (.tag read loaded found member failed) free

/-- Each thing that can stand in the way is a step of filling the page that failed. -/
theorem not_hindered_of_fill {page : String} {filled : Substitution}
    (read : tree.readText project.directory project.template = .ok page)
    (done : (project.fill tree delays).2 = .ok filled) : ¬ project.Hindered tree delays := by
  obtain ⟨data, scanned, loaded, found, rendered⟩ := (fill_ok_iff read).mp ⟨filled, done⟩
  obtain ⟨accepted, present⟩ := FileStore.load_ok_iff.mp ⟨data, loaded⟩
  intro hindered
  cases hindered with
  | template failed => simp [read] at failed
  | repeated read' policy again =>
    cases read.symm.trans read'
    rcases accepted with other | distinct
    · exact absurd (policy.symm.trans other) (by simp)
    · exact again distinct
  | reference read' member missing =>
    cases read.symm.trans read'
    obtain ⟨value, there⟩ := (present _ member).1
    rw [there] at missing
    contradiction
  | late read' limit member late =>
    cases read.symm.trans read'
    exact Nat.not_le_of_lt late ((present _ member).2 _ limit)
  | scan read' failed =>
    cases read.symm.trans read'
    rw [found] at failed
    contradiction
  | tag read' loaded' found' member failed =>
    cases read.symm.trans read'
    cases loaded.symm.trans loaded'
    cases found.symm.trans found'
    rw [rendered _ member] at failed
    contradiction

theorem fill_fails_iff :
    (∃ failure, (project.fill tree delays).2 = .error failure) ↔ project.Hindered tree delays := by
  constructor
  · rintro ⟨failure, failed⟩
    by_contra free
    obtain ⟨filled, done⟩ := exists_fill_of_not_hindered free
    rw [done] at failed
    contradiction
  · intro hindered
    cases ends : (project.fill tree delays).2 with
    | error failure => exact ⟨failure, rfl⟩
    | ok filled =>
      cases read : tree.readText project.directory project.template with
      | error fault => simp [fill, readTemplate, read, Except.mapError] at ends
      | ok page => exact absurd hindered (not_hindered_of_fill read ends)

/-- Without a filled page a build says why, and that is all. -/
theorem build_of_fill_error {failure : Failure} (failed : (project.fill tree delays).2 = .error failure)
    (dryRun : Bool) :
    project.build tree delays dryRun = .failed tree (project.fill tree delays).1 failure := by
  rcases filling : project.fill tree delays with ⟨events, result⟩
  rw [filling] at failed
  subst failed
  simp only [build, withFilled, filling]

/-- With a filled page only writing it can fail. -/
theorem ending_build_of_fill_ok {filled : Substitution}
    (done : (project.fill tree delays).2 = .ok filled) (dryRun : Bool) :
    (project.build tree delays dryRun).ending = .done ∨ dryRun = false ∧
      ∃ fault, (project.build tree delays dryRun).ending = .failed (.destination fault) := by
  rcases filling : project.fill tree delays with ⟨events, result⟩
  rw [filling] at done
  subst done
  cases dryRun with
  | true =>
    left
    simp [build, withFilled, filling]
  | false =>
    cases written : (project.write tree filled.output).fault? with
    | none =>
      left
      simp [build, withFilled, filling, written]
    | some fault =>
      right
      exact ⟨rfl, fault, by simp [build, withFilled, filling, written]⟩

end Project

/-- A failed command has nothing to print. -/
theorem Outcome.output_failed (tree : FileTree) (events : List Event) (failure : Failure)
    (colored : Bool) (elapsed : String) :
    (Outcome.failed tree events failure).output colored elapsed = "" := rfl

namespace Invocation

variable {invocation : Invocation} {tree : FileTree} {delays : Delays} {directory : Place}

theorem project_error_iff :
    (∃ problem, invocation.project tree directory = .error problem) ↔
      ∃ problem, Settings.loadOrStandard tree directory (invocation.root directory) = .error problem := by
  unfold project Project.find
  cases Settings.loadOrStandard tree directory (invocation.root directory) with
  | error problem => simp [Except.map]
  | ok settings => simp [Except.map]

/-- A build that something stands in the way of comes to nothing but an explanation. -/
theorem run_of_hindered {paths : PathChoices} {dryRun : Bool}
    (builds : invocation.command = .build paths dryRun)
    (hindered : invocation.Hindered tree delays directory) :
    ∃ events failure, invocation.run tree delays directory = .failed tree events failure := by
  cases hindered with
  | settings unread =>
    obtain ⟨problem, none⟩ := project_error_iff.mpr ⟨_, unread⟩
    exact ⟨[], .problem problem, by simp only [run, none]⟩
  | @page project found hindered =>
    obtain ⟨failure, failed⟩ := Project.fill_fails_iff.mpr hindered
    have stopped := Project.build_of_fill_error failed dryRun
    refine ⟨(project.fill tree delays).1.filter invocation.shows, failure, ?_⟩
    simp only [run, found, builds, Command.run, stopped, Outcome.failed]

/-- Any other build has a filled page. -/
theorem ending_run_of_not_hindered {paths : PathChoices} {dryRun : Bool}
    (builds : invocation.command = .build paths dryRun)
    (free : ¬ invocation.Hindered tree delays directory) :
    (invocation.run tree delays directory).ending = .done ∨ dryRun = false ∧
      ∃ fault, (invocation.run tree delays directory).ending = .failed (.destination fault) := by
  cases found : invocation.project tree directory with
  | error problem =>
    obtain ⟨problem, unread⟩ := project_error_iff.mp ⟨problem, found⟩
    exact absurd (.settings unread) free
  | ok project =>
    cases filled : (project.fill tree delays).2 with
    | error failure => exact absurd (.page found (Project.fill_fails_iff.mp ⟨failure, filled⟩)) free
    | ok substitution =>
      have ends := Project.ending_build_of_fill_ok filled dryRun
      simpa only [run, found, builds, Command.run] using ends

end Invocation

/-- A build that something stands in the way of ends with the number 2, prints nothing and leaves
every file and directory as it was, whether it is a dry run or not and however long it takes to touch
a file. Nothing else stops a dry run, and nothing but a fault in writing the page stops another one. -/
theorem hindered_build_changes_nothing {arguments : List String} {invocation : Invocation}
    {paths : PathChoices} {dryRun : Bool} (read : Arguments.read arguments = .ok invocation)
    (builds : invocation.command = .build paths dryRun) (tree : FileTree)
    (delays : Delays) (directory : Place) :
    (invocation.Hindered tree delays directory →
      (runArguments arguments tree delays directory).ending.exitCode = 2 ∧
      (∀ colored elapsed, (runArguments arguments tree delays directory).output colored elapsed = "") ∧
      (runArguments arguments tree delays directory).tree = tree) ∧
    (¬ invocation.Hindered tree delays directory →
      (runArguments arguments tree delays directory).ending = .done ∨ dryRun = false ∧
        ∃ fault, (runArguments arguments tree delays directory).ending = .failed (.destination fault)) := by
  have runs : runArguments arguments tree delays directory = invocation.run tree delays directory := by
    simp only [runArguments, read]
  rw [runs]
  constructor
  · intro hindered
    obtain ⟨events, failure, fails⟩ := Invocation.run_of_hindered builds hindered
    rw [fails]
    exact ⟨rfl, Outcome.output_failed tree events failure, rfl⟩
  · exact Invocation.ending_run_of_not_hindered builds

/-- A project with a page and an empty collection. -/
private def projectOf (page : String) : FileTree := ⟨[(["p"], .directory), (["p", "src"], .directory),
  (["p", "src", "index.html"], .file page.toUTF8), (["p", "data"], .directory),
  (["p", "data", "posts"], .directory)]⟩

/-- A page with a tag that asks the collection for a field. -/
private def askingPage : String := "<:a=/posts:>é<:a.b:>"

private def boundPage : String := "<:a=/posts:>é"

private def theProject : Project :=
  ⟨["p"], "/p", .standard, "/p/src/index.html", "/p/dist/index.html", "/p/data"⟩

private def plainLine : Invocation := ⟨none, none, false, false⟩

/-- In the one project all documents are there, and the page in front of the tag has been filled. In
the other one nothing is wrong but that looking at the collection and listing it take sixteen seconds
each. -/
theorem hindered_build_changes_nothing_last_tag :
    Arguments.read [] = .ok plainLine ∧
      (plainLine.Hindered (projectOf askingPage) (fun _ => ⟨0⟩) ["p"] ∧
        (runArguments [] (projectOf askingPage) (fun _ => ⟨0⟩) ["p"]).ending.exitCode = 2 ∧
        (runArguments [] (projectOf askingPage) (fun _ => ⟨0⟩) ["p"]).tree = projectOf askingPage) ∧
      plainLine.Hindered (projectOf boundPage) (fun _ => .ofSeconds 16) ["p"] ∧
        (runArguments [] (projectOf boundPage) (fun _ => .ofSeconds 16) ["p"]).ending.exitCode = 2 ∧
        (runArguments [] (projectOf boundPage) (fun _ => .ofSeconds 16) ["p"]).tree =
          projectOf boundPage := by
  have read : Arguments.read [] = .ok plainLine := rfl
  have found (page : String) : plainLine.project (projectOf page) ["p"] = .ok theProject := by
    with_unfolding_all rfl
  have asking : plainLine.Hindered (projectOf askingPage) (fun _ => ⟨0⟩) ["p"] := by
    have page : (projectOf askingPage).readText theProject.directory theProject.template =
        .ok askingPage := by
      with_unfolding_all rfl
    have loaded : (load (theProject.store (projectOf askingPage) fun _ => ⟨0⟩).source
        theProject.settings.loadOptions askingPage.toList).result =
          .ok ⟨[("a", .collection [])]⟩ := by
      with_unfolding_all rfl
    have scanned : scan theProject.settings.nestedOpen (Binding.strip askingPage.toList) =
        .ok ⟨[.literal "é", .tag ⟨.field "a" ["b"], ⟨⟨1, 2, 2⟩, ⟨1, 9, 9⟩⟩⟩], []⟩ := by
      with_unfolding_all rfl
    have failed : (Tag.render ⟨[("a", .collection [])]⟩
        ⟨.field "a" ["b"], ⟨⟨1, 2, 2⟩, ⟨1, 9, 9⟩⟩⟩).problem? =
          some (.typeMismatch "a" "a document" "a collection" 1 2) := by
      with_unfolding_all rfl
    exact .page (found askingPage) (.tag page loaded scanned (List.mem_singleton.mpr rfl) failed)
  have late : plainLine.Hindered (projectOf boundPage) (fun _ => .ofSeconds 16) ["p"] := by
    have page : (projectOf boundPage).readText theProject.directory theProject.template =
        .ok boundPage := by
      with_unfolding_all rfl
    have bound : Binding.find boundPage.toList =
        [⟨"a", "/posts", ⟨⟨1, 1, 0⟩, ⟨1, 13, 12⟩⟩⟩] := by
      with_unfolding_all rfl
    have time : ((theProject.store (projectOf boundPage) fun _ => .ofSeconds 16).lookup
        "/posts").time = .ofSeconds 32 := by
      with_unfolding_all rfl
    have limit : theProject.settings.timeout? = some (.ofSeconds 30) := rfl
    refine .page (found boundPage) (.late page limit (bound ▸ List.mem_singleton.mpr rfl) ?_)
    rw [time]
    decide
  have nothing := (hindered_build_changes_nothing read rfl (projectOf askingPage) _ ["p"]).1 asking
  have nothing' := (hindered_build_changes_nothing read rfl (projectOf boundPage) _ ["p"]).1 late
  exact ⟨read, ⟨asking, nothing.1, nothing.2.2⟩, late, nothing'.1, nothing'.2.2⟩

end Fieldmark
