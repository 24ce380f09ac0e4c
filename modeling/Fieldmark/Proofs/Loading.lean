import Fieldmark.Proofs.Schedule

/-!
# What a load comes to

A load brings a tree exactly if no binding is refused and every document arrives in time, and the
tree does not depend on when they arrive (`load_gathers`). A load that brings none tells truly what
stood in its way (`load_problem_truthful`).
-/

namespace Fieldmark

namespace Load

/-! ## Repeated names -/

theorem repeats_eq_nil_iff {seen bindings : List Binding} :
    repeats seen bindings = [] ↔ (bindings.map (·.name)).Nodup ∧
      ∀ b ∈ bindings, ∀ earlier ∈ seen, earlier.name ≠ b.name := by
  induction bindings generalizing seen with
  | nil => simp [repeats]
  | cons b rest ih =>
    rw [repeats, List.map_cons, List.nodup_cons, List.forall_mem_cons]
    cases found : seen.find? (·.name == b.name) with
    | some earlier =>
      simp only [reduceCtorEq, false_iff]
      rintro ⟨_, new, _⟩
      have same : earlier.name = b.name := by simpa using List.find?_some found
      exact new earlier (List.mem_of_find?_eq_some found) same
    | none =>
      have new : ∀ earlier ∈ seen, earlier.name ≠ b.name := by
        simpa using List.find?_eq_none.mp found
      rw [ih]
      constructor
      · rintro ⟨distinct, later⟩
        refine ⟨⟨?_, distinct⟩, new, ?_⟩
        · intro repeated
          obtain ⟨other, member, same⟩ := List.mem_map.mp repeated
          exact later other member b (List.mem_cons_self ..) same.symm
        · intro other member earlier inside
          exact later other member earlier (List.mem_cons_of_mem b inside)
      · rintro ⟨⟨single, distinct⟩, _, later⟩
        refine ⟨distinct, ?_⟩
        intro other member earlier inside same
        rcases List.mem_cons.mp inside with rfl | inside
        · exact single (same ▸ List.mem_map_of_mem member)
        · exact later other member earlier inside same

variable {policy : DuplicatePolicy} {bindings : List Binding}

theorem checkDuplicates_ok_iff : (checkDuplicates policy bindings).result = .ok () ↔
    policy = .lastWins ∨ (bindings.map (·.name)).Nodup := by
  have distinct : repeats [] bindings = [] ↔ (bindings.map (·.name)).Nodup := by
    simp [repeats_eq_nil_iff]
  rw [← distinct]
  cases policy with
  | lastWins => simp [checkDuplicates]
  | reject =>
    cases pairs : repeats [] bindings with
    | nil => simp [checkDuplicates, pairs]
    | cons pair rest => simp [checkDuplicates, pairs]

/-- Bindings are refused under one policy only, and in silence. -/
theorem checkDuplicates_error {problem : Problem}
    (h : (checkDuplicates policy bindings).result = .error problem) :
    policy = .reject ∧ (checkDuplicates policy bindings).events = [] ∧
      ∃ name first second, problem = .duplicateReference name first second := by
  cases policy with
  | lastWins => contradiction
  | reject =>
    cases pairs : repeats [] bindings with
    | nil =>
      simp only [checkDuplicates, pairs] at h
      contradiction
    | cons pair rest =>
      simp only [checkDuplicates, pairs] at h ⊢
      cases h
      exact ⟨trivial, trivial, _, _, _, rfl⟩

section

variable {source : Source} {options : LoadOptions} {page : List Char}

/-- A page whose bindings are not refused is loaded by its run. -/
theorem load_of_accepted (source : Source) (options : LoadOptions)
    (accepted : (checkDuplicates options.duplicates (Binding.find page)).result = .ok ()) :
    (load source options page).result = (run source options.timeout? (Binding.find page)).result ∧
      (load source options page).finished =
        (run source options.timeout? (Binding.find page)).finished ∧
      (load source options page).ended =
        (run source options.timeout? (Binding.find page)).ended := by
  simp [load, accepted]

theorem load_of_refused {problem : Problem}
    (refused : (checkDuplicates options.duplicates (Binding.find page)).result = .error problem) :
    load source options page =
      ⟨(checkDuplicates options.duplicates (Binding.find page)).events, [], ⟨0⟩,
        .error problem⟩ := by
  simp [load, refused]

end

/-! ## Documents that arrive -/

variable {source : Source} {timeout? : Option Duration} {join : Join} {all : List Fetch}
  {result : Result}

/-- The document of a binding is there and comes in time. -/
def Arrives (source : Source) (timeout? : Option Duration) (b : Binding) : Prop :=
  (∃ value, (source b.path).answer = .ok value) ∧
    ∀ timeout ∈ timeout?, (source b.path).delay.nanoseconds ≤ timeout.nanoseconds

theorem arrives_iff :
    (∀ b ∈ bindings, Arrives source timeout? b) ↔
      ∀ fetch ∈ fetches source bindings, ¬ fetch.Fails ∧ fetch.InTime timeout? := by
  constructor
  · intro arrive fetch member
    obtain ⟨i, b, found, rfl⟩ := mem_fetches_iff.mp member
    obtain ⟨there, inTime⟩ := arrive b (List.mem_of_getElem? found)
    exact ⟨Fetch.not_fails_iff.mpr there, inTime⟩
  · intro arrive b member
    obtain ⟨i, found⟩ := List.mem_iff_getElem?.mp member
    obtain ⟨there, inTime⟩ := arrive _ (mem_fetches_iff.mpr ⟨i, b, found, rfl⟩)
    exact ⟨Fetch.not_fails_iff.mp there, inTime⟩

/-- A load with a tree has come through its whole schedule. -/
theorem Ends.of_ok (indexed : Indexed all) {tree : Tree}
    (ends : Ends join timeout? bindings all result) (h : result.result = .ok tree) :
    (∀ fetch ∈ all, ¬ fetch.Fails ∧ fetch.InTime timeout?) ∧
      result.finished = fetched (schedule all) ∧
      tree = treeOf bindings ((allFetched? (outcomesAfter all (schedule all))).getD []) := by
  cases ends with
  | complete unseen inTime =>
    refine ⟨?_, rfl, (Except.ok.inj h).symm⟩
    intro fetch member
    exact ⟨not_fails_of_unseen indexed unseen member, inTime fetch (mem_schedule.mpr member)⟩
  | problem => contradiction
  | timeout => contradiction

theorem Ends.ok (indexed : Indexed all) (ends : Ends join timeout? bindings all result)
    (arrive : ∀ fetch ∈ all, ¬ fetch.Fails ∧ fetch.InTime timeout?) :
    ∃ tree, result.result = .ok tree := by
  cases ends with
  | complete => exact ⟨_, rfl⟩
  | problem split _ _ seen =>
    obtain ⟨fetch, member, ⟨_, fails, _⟩, _⟩ := sees_of_split split indexed seen
    exact absurd fails (arrive fetch member).1
  | timeout split _ _ limit late =>
    have inTime := (arrive _ (mem_of_split split)).2 _ limit
    omega

/-- Beside the refusal of bindings nothing but a missing or late document prevents a tree. -/
theorem load_ok_iff {options : LoadOptions} {page : List Char} :
    (∃ tree, (load source options page).result = .ok tree) ↔
      (options.duplicates = .lastWins ∨ ((Binding.find page).map (·.name)).Nodup) ∧
        ∀ b ∈ Binding.find page, Arrives source options.timeout? b := by
  have indexed := indexed_fetches source (Binding.find page)
  have ends := ends_run source options.timeout? (Binding.find page)
  rw [← checkDuplicates_ok_iff, arrives_iff]
  cases accepted : (checkDuplicates options.duplicates (Binding.find page)).result with
  | error problem => simp [load_of_refused accepted]
  | ok nothing =>
    rw [(load_of_accepted source options accepted).1]
    constructor
    · rintro ⟨tree, h⟩
      exact ⟨rfl, (ends.of_ok indexed h).1⟩
    · rintro ⟨_, arrive⟩
      exact ends.ok indexed arrive

/-! ## The tree -/

theorem allFetched?_map_some (values : List Value) :
    allFetched? (values.map fun value => some (.ok value)) = some values := by
  induction values with
  | nil => rfl
  | cons value rest ih => simp [allFetched?, ih]

/-- The source has these documents for bindings. -/
def Brings (source : Source) (bindings : List Binding) (values : List Value) : Prop :=
  bindings.map (fun b => (source b.path).answer) = values.map .ok

theorem exists_brings (arrive : ∀ b ∈ bindings, Arrives source timeout? b) :
    ∃ values, Brings source bindings values := by
  unfold Brings
  induction bindings with
  | nil => exact ⟨[], rfl⟩
  | cons b rest ih =>
    rw [List.forall_mem_cons] at arrive
    obtain ⟨⟨value, answer⟩, _⟩ := arrive.1
    obtain ⟨values, brings⟩ := ih arrive.2
    exact ⟨value :: values, by rw [List.map_cons, List.map_cons, answer, brings]⟩

theorem Brings.length_eq {values : List Value} (brings : Brings source bindings values) :
    bindings.length = values.length := by
  have lengths := congrArg List.length brings
  simpa using lengths

/-- At the end of the schedule every document is there. -/
theorem allFetched?_schedule {values : List Value} (brings : Brings source bindings values) :
    allFetched? (outcomesAfter (fetches source bindings) (schedule (fetches source bindings))) =
      some values := by
  have answers : (fetches source bindings).map (·.response.answer) = values.map .ok := by
    rw [← brings]
    conv_rhs => rw [← map_binding_fetches source bindings, List.map_map]
    refine List.map_congr_left fun fetch member => ?_
    rw [response_of_mem_fetches member]
    rfl
  have known (fetch : Fetch) (member : fetch ∈ fetches source bindings) :
      fetch.outcome = fetch.response.answer := by
    have listed : fetch.response.answer ∈ values.map .ok := answers ▸ List.mem_map_of_mem member
    obtain ⟨value, _, answer⟩ := List.mem_map.mp listed
    rw [← answer]
    exact Fetch.outcome_eq_ok_iff.mpr answer.symm
  have outcomes : outcomesAfter (fetches source bindings) (schedule (fetches source bindings)) =
      values.map fun value => some (.ok value) := by
    calc outcomesAfter (fetches source bindings) (schedule (fetches source bindings))
      _ = (fetches source bindings).map fun fetch => some fetch.response.answer := by
        refine List.map_congr_left fun fetch member => ?_
        rw [if_pos (List.mem_map_of_mem (mem_schedule.mpr member)), known fetch member]
      _ = ((fetches source bindings).map (·.response.answer)).map some := by
        rw [List.map_map]
        rfl
      _ = values.map fun value => some (.ok value) := by
        rw [answers, List.map_map]
        rfl
  rw [outcomes, allFetched?_map_some]

/-- Of each name that is bound the tree has the document of the last binding, and no other names. -/
structure Gathers (source : Source) (bindings : List Binding) (tree : Tree) : Prop where
  names : ∀ name, name ∈ tree.references.map Prod.fst ↔ name ∈ bindings.map (·.name)
  last : ∀ front b behind, bindings = front ++ b :: behind →
    (∀ later ∈ behind, later.name ≠ b.name) →
    ∃ value, (source b.path).answer = .ok value ∧ tree.get? b.name = some value

theorem Brings.gathers {values : List Value} (brings : Brings source bindings values) :
    Gathers source bindings (treeOf bindings values) where
  names name := by
    have lengths := brings.length_eq
    have keys : ((bindings.map (·.name)).zip values).map Prod.fst = bindings.map (·.name) :=
      List.map_fst_zip (by simp [lengths])
    rw [treeOf, Tree.ofPairs, Fields.mem_names_ofPairs, keys]
  last front b behind whole single := by
    subst whole
    unfold Brings at brings
    rw [List.map_append, List.map_cons] at brings
    obtain ⟨early, more, rfl, first, tail⟩ := List.map_eq_append_iff.mp brings.symm
    obtain ⟨value, later, rfl, answer, rest⟩ := List.map_eq_cons_iff.mp tail
    refine ⟨value, answer.symm, ?_⟩
    have lengths : front.length = early.length := by
      have := congrArg List.length first
      simpa using this.symm
    have silent : ((behind.map (·.name)).zip later).reverse.lookup b.name = none := by
      refine List.lookup_eq_none_iff.mpr ?_
      rintro ⟨name, other⟩ member
      have listed := (List.of_mem_zip (List.mem_reverse.mp member)).1
      obtain ⟨binding, inside, rfl⟩ := List.mem_map.mp listed
      simpa [bne_iff_ne] using (single binding inside).symm
    rw [Tree.get?, treeOf, Tree.ofPairs, Fields.lookup_ofPairs, List.map_append, List.map_cons,
      List.zip_append (by simp [lengths]), List.zip_cons_cons, List.reverse_append,
      List.reverse_cons, List.lookup_append, List.lookup_append, silent]
    simp

/-- Every path is fetched as often as it is bound. -/
theorem fetched_schedule_perm (arrive : ∀ b ∈ bindings, Arrives source timeout? b) :
    (fetched (schedule (fetches source bindings))).Perm (bindings.map (·.path)) := by
  have ok : ∀ fetch ∈ schedule (fetches source bindings), fetch.response.answer.isOk = true := by
    intro fetch member
    have arrived := arrives_iff.mp arrive fetch (mem_schedule.mp member)
    obtain ⟨value, answer⟩ := Fetch.not_fails_iff.mp arrived.1
    rw [answer]
    rfl
  have paths : (fetches source bindings).map (·.binding.path) = bindings.map (·.path) := by
    conv_rhs => rw [← map_binding_fetches source bindings, List.map_map]
    rfl
  rw [fetched, List.filter_eq_self.mpr ok, ← paths]
  exact (perm_schedule _).map _

theorem load_eq_ok {options : LoadOptions} {page : List Char} {tree : Tree} {values : List Value}
    (h : (load source options page).result = .ok tree)
    (brings : Brings source (Binding.find page) values) :
    tree = treeOf (Binding.find page) values := by
  have indexed := indexed_fetches source (Binding.find page)
  have ends := ends_run source options.timeout? (Binding.find page)
  have accepted := checkDuplicates_ok_iff.mpr (load_ok_iff.mp ⟨tree, h⟩).1
  rw [(load_of_accepted source options accepted).1] at h
  rw [(ends.of_ok indexed h).2.2, allFetched?_schedule brings]
  rfl

/-! ## Problems -/

/-- A load with a problem met a fetch that failed in time, or one that takes longer than its
limit. -/
theorem Ends.of_error (indexed : Indexed all) {problem : Problem}
    (ends : Ends join timeout? bindings all result) (h : result.result = .error problem) :
    (∃ fetch ∈ all, fetch.InTime timeout? ∧ fetch.outcome = .error problem) ∨
      ∃ timeout, timeout? = some timeout ∧ problem = .fetchTimeout bindings.length timeout ∧
        ∃ fetch ∈ all, timeout.nanoseconds < fetch.due := by
  cases ends with
  | complete => contradiction
  | problem split _ inTime seen =>
    cases h
    left
    obtain ⟨fetch, member, ⟨finished, _, _⟩, _, failed⟩ := sees_of_split split indexed seen
    exact ⟨fetch, member, inTime fetch finished, failed⟩
  | timeout split _ _ limit late =>
    cases h
    right
    exact ⟨_, limit, rfl, _, mem_of_split split, late⟩

/-- What a load may give for its end: a binding whose fetch fails in time, its own limit when the
fetch of a binding takes longer, or bindings that it refuses before it starts any fetch. -/
inductive Blames (source : Source) (options : LoadOptions) (bindings : List Binding)
    (result : Result) : Problem → Prop
  | fetch {b cause} : b ∈ bindings → (source b.path).answer = .error cause →
    (∀ timeout ∈ options.timeout?, (source b.path).delay.nanoseconds ≤ timeout.nanoseconds) →
    Blames source options bindings result (.dataFetch b.name b.path cause)
  | timeout {b timeout} : options.timeout? = some timeout → b ∈ bindings →
    timeout.nanoseconds < (source b.path).delay.nanoseconds →
    Blames source options bindings result (.fetchTimeout bindings.length timeout)
  | duplicate {name first second} : options.duplicates = .reject → result.finished = [] →
    (∀ name path, .fetching name path ∉ result.events) →
    Blames source options bindings result (.duplicateReference name first second)

theorem blames_of_run {options : LoadOptions} {problem : Problem}
    (h : (run source options.timeout? bindings).result = .error problem) :
    Blames source options bindings result problem := by
  have indexed := indexed_fetches source bindings
  rcases (ends_run source options.timeout? bindings).of_error indexed h with
    ⟨fetch, member, inTime, failed⟩ | ⟨timeout, limit, rfl, fetch, member, late⟩
  · obtain ⟨i, b, found, rfl⟩ := mem_fetches_iff.mp member
    obtain ⟨cause, answer, rfl⟩ := Fetch.outcome_eq_error_iff.mp failed
    exact .fetch (List.mem_of_getElem? found) answer inTime
  · obtain ⟨i, b, found, rfl⟩ := mem_fetches_iff.mp member
    exact .timeout limit (List.mem_of_getElem? found) late

end Load

open Load

/-- A load brings a tree exactly if no binding is refused and every document arrives in time. It is
the tree of the last binding of each name, every path was fetched as often as it is bound, and no
other times of arrival bring another tree. -/
theorem load_gathers (source : Source) (options : LoadOptions) (page : List Char) :
    ((∃ tree, (load source options page).result = .ok tree) ↔
      (options.duplicates = .lastWins ∨ ((Binding.find page).map (·.name)).Nodup) ∧
        ∀ b ∈ Binding.find page, Arrives source options.timeout? b) ∧
    ∀ tree, (load source options page).result = .ok tree →
      Gathers source (Binding.find page) tree ∧
      (load source options page).finished.Perm ((Binding.find page).map (·.path)) ∧
      ∀ source' options' tree', (∀ path, (source' path).answer = (source path).answer) →
        (load source' options' page).result = .ok tree' → tree' = tree := by
  refine ⟨load_ok_iff, ?_⟩
  intro tree h
  have indexed := indexed_fetches source (Binding.find page)
  have ends := ends_run source options.timeout? (Binding.find page)
  obtain ⟨distinct, arrive⟩ := load_ok_iff.mp ⟨tree, h⟩
  obtain ⟨values, brings⟩ := exists_brings arrive
  obtain rfl := load_eq_ok h brings
  obtain ⟨same, finished, _⟩ :=
    load_of_accepted source options (checkDuplicates_ok_iff.mpr distinct)
  refine ⟨brings.gathers, ?_, ?_⟩
  · rw [finished, (ends.of_ok indexed (same ▸ h)).2.1]
    exact fetched_schedule_perm arrive
  · intro source' options' tree' answers h'
    refine load_eq_ok h' ?_
    unfold Brings
    rw [← brings]
    exact List.map_congr_left fun b _ => answers b.path

/-- Two documents that are bound to one name, the first of which is there last. -/
private def rebound : List Char := "<:a=/p:><:a=/q:>".toList

private def twoDocuments : Source := fun path =>
  if path = "/p" then ⟨⟨3⟩, [], .ok (.text "p")⟩ else ⟨⟨1⟩, [], .ok (.text "q")⟩

theorem load_gathers_rebound :
    (∃ tree, (load twoDocuments ⟨some ⟨3⟩, .lastWins⟩ rebound).result = .ok tree ∧
      tree.get? "a" = some (.text "q")) ∧
      (load twoDocuments ⟨some ⟨3⟩, .lastWins⟩ rebound).finished.Perm ["/p", "/q"] := by
  have found : Binding.find rebound =
      [⟨"a", "/p", ⟨⟨1, 1, 0⟩, ⟨1, 9, 8⟩⟩⟩, ⟨"a", "/q", ⟨⟨1, 9, 8⟩, ⟨1, 17, 16⟩⟩⟩] := by
    with_unfolding_all rfl
  have arrive : ∀ b ∈ Binding.find rebound, Arrives twoDocuments (some ⟨3⟩) b := by
    intro b member
    rw [found] at member
    rcases List.mem_cons.mp member with rfl | member
    · exact ⟨⟨.text "p", rfl⟩, by simp [twoDocuments]⟩
    · obtain rfl := List.mem_singleton.mp member
      exact ⟨⟨.text "q", rfl⟩, by simp [twoDocuments]⟩
  have gathers := load_gathers twoDocuments ⟨some ⟨3⟩, .lastWins⟩ rebound
  obtain ⟨tree, loaded⟩ := gathers.1.mpr ⟨.inl rfl, arrive⟩
  obtain ⟨gathered, finished, _⟩ := gathers.2 tree loaded
  obtain ⟨value, answer, stands⟩ := gathered.last [_] _ [] found (by simp)
  rw [found] at finished
  cases answer
  exact ⟨⟨tree, loaded, stands⟩, finished⟩

/-- A load that fails says truly what stood in its way. -/
theorem load_problem_truthful {source : Source} {options : LoadOptions} {page : List Char}
    {problem : Problem} (h : (load source options page).result = .error problem) :
    Blames source options (Binding.find page) (load source options page) problem := by
  cases accepted : (checkDuplicates options.duplicates (Binding.find page)).result with
  | error refusal =>
    obtain ⟨policy, silent, name, first, second, rfl⟩ := checkDuplicates_error accepted
    rw [load_of_refused accepted] at h ⊢
    cases h
    refine .duplicate policy rfl ?_
    rw [silent]
    simp
  | ok nothing =>
    rw [(load_of_accepted source options accepted).1] at h
    exact blames_of_run h

theorem load_problem_truthful_missing :
    (load (fun path => ⟨⟨0⟩, [], .error (.notFound path)⟩) ⟨some ⟨0⟩, .reject⟩ rebound).result =
        .error (.duplicateReference "a" 1 1) ∧
      Blames (fun path => ⟨⟨0⟩, [], .error (.notFound path)⟩) ⟨some ⟨0⟩, .lastWins⟩
        (Binding.find rebound)
        (load (fun path => ⟨⟨0⟩, [], .error (.notFound path)⟩) ⟨some ⟨0⟩, .lastWins⟩ rebound)
        (.dataFetch "a" "/p" (.notFound "/p")) := by
  have refused : (load (fun path => ⟨⟨0⟩, [], .error (.notFound path)⟩) ⟨some ⟨0⟩, .reject⟩
      rebound).result = .error (.duplicateReference "a" 1 1) := by
    with_unfolding_all rfl
  have failed : (load (fun path => ⟨⟨0⟩, [], .error (.notFound path)⟩) ⟨some ⟨0⟩, .lastWins⟩
      rebound).result = .error (.dataFetch "a" "/p" (.notFound "/p")) := by
    with_unfolding_all rfl
  exact ⟨refused, load_problem_truthful failed⟩

end Fieldmark
