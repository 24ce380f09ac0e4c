import Fieldmark.Load
import Mathlib.Data.List.Basic

/-!
# How a load runs

Fetches complete in the order of the time they take, those of one time in binding order
(`schedule`). A load completes them one by one and ends in one of three ways: with all of them done,
with a problem that its join has seen, or at its time limit (`Ends`). Every run ends so
(`ends_run`). What a join has seen depends on which fetches are done, and not on when they were
(`Join.Sees`).
-/

namespace Fieldmark

namespace Load

/-! ## Fetches -/

namespace Fetch

/-- The time that the fetch takes, in nanoseconds. -/
def due (fetch : Fetch) : Nat := fetch.response.delay.nanoseconds

/-- The fetch brings a problem instead of a document. -/
def Fails (fetch : Fetch) : Prop := ∃ problem, fetch.response.answer = .error problem

/-- The fetch takes no longer than a limit, if there is one. -/
def InTime (timeout? : Option Duration) (fetch : Fetch) : Prop :=
  ∀ timeout ∈ timeout?, fetch.due ≤ timeout.nanoseconds

theorem outcome_eq_ok_iff {fetch : Fetch} {value : Value} :
    fetch.outcome = .ok value ↔ fetch.response.answer = .ok value := by
  unfold outcome
  cases fetch.response.answer <;> simp [Except.mapError]

theorem outcome_eq_error_iff {fetch : Fetch} {problem : Problem} :
    fetch.outcome = .error problem ↔ ∃ cause, fetch.response.answer = .error cause ∧
      problem = .dataFetch fetch.binding.name fetch.binding.path cause := by
  unfold outcome
  cases fetch.response.answer <;> simp [Except.mapError, eq_comm]

theorem not_fails_iff {fetch : Fetch} :
    ¬ fetch.Fails ↔ ∃ value, fetch.response.answer = .ok value := by
  unfold Fails
  cases fetch.response.answer <;> simp

end Fetch

/-- The paths of those fetches that bring a document. -/
def fetched (done : List Fetch) : List String :=
  (done.filter (·.response.answer.isOk)).map (·.binding.path)

/-- Every fetch stands at the place of its index. -/
def Indexed (all : List Fetch) : Prop :=
  ∀ (i : Nat) (fetch : Fetch), all[i]? = some fetch → fetch.index = i

variable {all done : List Fetch} {fetch other : Fetch}

namespace Indexed

theorem getElem?_index (indexed : Indexed all) (member : fetch ∈ all) :
    all[fetch.index]? = some fetch := by
  obtain ⟨i, found⟩ := List.mem_iff_getElem?.mp member
  rwa [indexed i fetch found]

theorem eq_of_index (indexed : Indexed all) (member : fetch ∈ all) (member' : other ∈ all)
    (same : fetch.index = other.index) : fetch = other := by
  have found := indexed.getElem?_index member
  rw [same, indexed.getElem?_index member'] at found
  exact (Option.some.inj found).symm

/-- What stands in front of a fetch are the fetches of lower index. -/
theorem index_lt_iff {front rest : List Fetch} (indexed : Indexed (front ++ fetch :: rest))
    (member : other ∈ front ++ fetch :: rest) : other.index < fetch.index ↔ other ∈ front := by
  have place : fetch.index = front.length := indexed front.length fetch (by simp)
  constructor
  · intro before
    have found := indexed.getElem?_index member
    rw [List.getElem?_append_left (place ▸ before)] at found
    exact List.mem_of_getElem? found
  · intro inside
    obtain ⟨i, found⟩ := List.mem_iff_getElem?.mp inside
    obtain ⟨bound, _⟩ := List.getElem?_eq_some_iff.mp found
    have index := indexed i other (by rw [List.getElem?_append_left bound, found])
    omega

end Indexed

/-! ## What a join sees -/

/-- The outcomes of all fetches once some of them are done. -/
def outcomesAfter (all done : List Fetch) : Outcomes :=
  all.map fun fetch => if fetch.index ∈ done.map Fetch.index then some fetch.outcome else none

theorem mem_map_index_iff (indexed : Indexed all) (within : ∀ fetch ∈ done, fetch ∈ all)
    (member : fetch ∈ all) : fetch.index ∈ done.map Fetch.index ↔ fetch ∈ done := by
  constructor
  · intro listed
    obtain ⟨other, inside, same⟩ := List.mem_map.mp listed
    rwa [indexed.eq_of_index (within other inside) member same] at inside
  · intro inside
    exact List.mem_map_of_mem inside

/-- One more fetch is done. -/
theorem outcomesAfter_concat (indexed : Indexed all) (member : fetch ∈ all) :
    outcomesAfter all (done ++ [fetch]) =
      (outcomesAfter all done).set fetch.index (some fetch.outcome) := by
  have place := indexed.getElem?_index member
  unfold outcomesAfter
  apply List.ext_getElem?
  intro i
  rw [List.getElem?_set, List.getElem?_map, List.getElem?_map]
  by_cases same : fetch.index = i
  · subst same
    obtain ⟨bound, _⟩ := List.getElem?_eq_some_iff.mp place
    rw [if_pos rfl, List.length_map, if_pos bound, place]
    simp
  · rw [if_neg same]
    cases found : all[i]? with
    | none => rfl
    | some other =>
      have differ : other.index ≠ fetch.index := by
        rw [indexed i other found]
        exact Ne.symm same
      simp [differ]

/-- A failed fetch is done, and so is every fetch that the join looks at before it. -/
def Join.Sees (join : Join) (all done : List Fetch) (fetch : Fetch) : Prop :=
  fetch ∈ done ∧ fetch.Fails ∧
    (join = .ordered → ∀ other ∈ all, other.index < fetch.index → other ∈ done)

theorem mem_of_eager_problem? {outcomes : Outcomes} {problem : Problem}
    (h : Join.problem? .eager outcomes = some problem) : some (.error problem) ∈ outcomes := by
  unfold Join.problem? at h
  obtain ⟨outcome, member, found⟩ := List.exists_of_findSome?_eq_some h
  split at found
  · cases found
    exact member
  · contradiction

theorem eager_problem?_ne_none {outcomes : Outcomes} {problem : Problem}
    (member : some (.error problem) ∈ outcomes) : Join.problem? .eager outcomes ≠ none := by
  unfold Join.problem?
  intro none
  have quiet := List.findSome?_eq_none_iff.mp none _ member
  contradiction

theorem ordered_problem?_eq_some {outcomes : Outcomes} {problem : Problem}
    (h : Join.problem? .ordered outcomes = some problem) :
    ∃ front rest, outcomes = front ++ some (.error problem) :: rest ∧
      ∀ outcome ∈ front, outcome ≠ none := by
  induction outcomes with
  | nil => contradiction
  | cons outcome outcomes ih =>
    cases outcome with
    | none => contradiction
    | some answer =>
      cases answer with
      | error cause =>
        obtain rfl : cause = problem := Option.some.inj h
        exact ⟨[], outcomes, rfl, by simp⟩
      | ok value =>
        obtain ⟨front, rest, rfl, known⟩ := ih h
        exact ⟨some (.ok value) :: front, rest, rfl, by simpa using known⟩

theorem ordered_problem?_ne_none {front rest : Outcomes} {problem : Problem}
    (known : ∀ outcome ∈ front, outcome ≠ none) :
    Join.problem? .ordered (front ++ some (.error problem) :: rest) ≠ none := by
  induction front with
  | nil => simp [Join.problem?]
  | cons outcome front ih =>
    rw [List.forall_mem_cons] at known
    cases outcome with
    | none => exact absurd rfl known.1
    | some answer =>
      cases answer with
      | error cause => simp [Join.problem?]
      | ok value => exact ih known.2

section

variable {join : Join} (indexed : Indexed all) (within : ∀ fetch ∈ done, fetch ∈ all)

include indexed within

/-- A problem that is seen is that of a failed fetch. -/
theorem sees_of_problem? {problem : Problem}
    (h : join.problem? (outcomesAfter all done) = some problem) :
    ∃ fetch, join.Sees all done fetch ∧ fetch.outcome = .error problem := by
  have slot {fetch : Fetch} {outcome : Except Problem Value} (member : fetch ∈ all)
      (known : (if fetch.index ∈ done.map Fetch.index then some fetch.outcome else none) =
        some outcome) : fetch ∈ done ∧ fetch.outcome = outcome := by
    split at known
    · rename_i listed
      exact ⟨(mem_map_index_iff indexed within member).mp listed, Option.some.inj known⟩
    · contradiction
  have fails {fetch : Fetch} (failed : fetch.outcome = .error problem) : fetch.Fails := by
    obtain ⟨cause, answer, _⟩ := Fetch.outcome_eq_error_iff.mp failed
    exact ⟨cause, answer⟩
  cases join with
  | eager =>
    obtain ⟨fetch, inside, known⟩ := List.mem_map.mp (mem_of_eager_problem? h)
    obtain ⟨finished, failed⟩ := slot inside known
    exact ⟨fetch, ⟨finished, fails failed, fun ordered => by contradiction⟩, failed⟩
  | ordered =>
    obtain ⟨front, rest, whole, known⟩ := ordered_problem?_eq_some h
    obtain ⟨before, later, rfl, rfl, tail⟩ := List.map_eq_append_iff.mp whole
    obtain ⟨fetch, behind, rfl, seen, rfl⟩ := List.map_eq_cons_iff.mp tail
    obtain ⟨finished, failed⟩ := slot (by simp) seen
    refine ⟨fetch, ⟨finished, fails failed, ?_⟩, failed⟩
    intro _ other member lower
    have inFront := (indexed.index_lt_iff member).mp lower
    have filled := known _ (List.mem_map_of_mem inFront)
    obtain ⟨outcome, filled⟩ := Option.ne_none_iff_exists'.mp filled
    exact (slot member filled).1

/-- Nothing is seen exactly if there is nothing to see. -/
theorem problem?_eq_none_iff :
    join.problem? (outcomesAfter all done) = none ↔ ∀ fetch, ¬ join.Sees all done fetch := by
  constructor
  · rintro none fetch ⟨finished, ⟨cause, answer⟩, earlier⟩
    have failed : fetch.outcome = .error (.dataFetch fetch.binding.name fetch.binding.path cause) :=
      Fetch.outcome_eq_error_iff.mpr ⟨cause, answer, rfl⟩
    have member := within fetch finished
    have slot (other : Fetch) (inside : other ∈ done) :
        (if other.index ∈ done.map Fetch.index then some other.outcome else .none) =
          some other.outcome := if_pos (List.mem_map_of_mem inside)
    cases join with
    | eager =>
      have known : some fetch.outcome ∈ outcomesAfter all done := by
        rw [← slot fetch finished]
        exact List.mem_map_of_mem member
      rw [failed] at known
      exact eager_problem?_ne_none known none
    | ordered =>
      obtain ⟨front, rest, rfl⟩ := List.append_of_mem member
      rw [outcomesAfter, List.map_append, List.map_cons, slot fetch finished, failed] at none
      refine ordered_problem?_ne_none ?_ none
      intro outcome known
      obtain ⟨other, inFront, rfl⟩ := List.mem_map.mp known
      have inside : other ∈ front ++ fetch :: rest := List.mem_append_left _ inFront
      have lower := (indexed.index_lt_iff inside).mpr inFront
      rw [slot other (earlier rfl other inside lower)]
      exact Option.some_ne_none _
  · intro silent
    by_contra some
    obtain ⟨problem, seen⟩ := Option.ne_none_iff_exists'.mp some
    obtain ⟨fetch, sees, _⟩ := sees_of_problem? indexed within seen
    exact silent fetch sees

end

/-! ## The order of completion -/

/-- All fetches in the order in which they complete if nothing ends the load before. -/
def schedule (all : List Fetch) : List Fetch :=
  all.filter (·.response.delay.nanoseconds = 0) ++ delayed all

theorem perm_schedule (all : List Fetch) : (schedule all).Perm all := by
  have later : (delayed all).Perm
      (all.filter fun fetch => !decide (fetch.response.delay.nanoseconds = 0)) := by
    unfold delayed
    simp only [ne_eq, decide_not]
    exact List.mergeSort_perm _ _
  exact (later.append_left _).trans (List.filter_append_perm _ all)

theorem mem_schedule : fetch ∈ schedule all ↔ fetch ∈ all := (perm_schedule all).mem_iff

theorem sorted_schedule (all : List Fetch) :
    (schedule all).Pairwise fun a b => a.due ≤ b.due := by
  have now {fetch : Fetch} (member : fetch ∈ all.filter (·.response.delay.nanoseconds = 0)) :
      fetch.due = 0 := of_decide_eq_true (List.mem_filter.mp member).2
  refine List.pairwise_append.mpr ⟨?_, ?_, ?_⟩
  · refine List.pairwise_of_forall_mem_list ?_
    intro a member b _
    rw [now member]
    exact Nat.zero_le _
  · have sorted := @List.pairwise_mergeSort Fetch
      (fun a b => a.response.delay.nanoseconds ≤ b.response.delay.nanoseconds)
      (fun a b c first second => by
        simp only [decide_eq_true_eq] at first second ⊢
        omega)
      (fun a b => by
        simp only [Bool.or_eq_true, decide_eq_true_eq]
        omega)
      (all.filter (·.response.delay.nanoseconds ≠ 0))
    exact sorted.imp of_decide_eq_true
  · intro a member b _
    rw [now member]
    exact Nat.zero_le _

section

variable {rest : List Fetch} (split : schedule all = done ++ fetch :: rest)

include split

theorem mem_of_split : fetch ∈ all := by
  rw [← mem_schedule, split]
  simp

theorem within_of_split : ∀ other ∈ done, other ∈ all := by
  intro other member
  rw [← mem_schedule, split]
  exact List.mem_append_left _ member

theorem within_concat_of_split : ∀ other ∈ done ++ [fetch], other ∈ all := by
  intro other member
  rw [← mem_schedule, split, List.append_cons]
  exact List.mem_append_left _ member

/-- What takes less time is done before. -/
theorem mem_done_of_due_lt (member : other ∈ all) (sooner : other.due < fetch.due) :
    other ∈ done := by
  have sorted := sorted_schedule all
  rw [← mem_schedule, split] at member
  rw [split, List.pairwise_append, List.pairwise_cons] at sorted
  rcases List.mem_append.mp member with before | behind
  · exact before
  · rcases List.mem_cons.mp behind with rfl | later
    · omega
    · have := sorted.2.1.1 other later
      omega

/-- What is done before takes no more time. -/
theorem due_le_of_mem_concat (member : other ∈ done ++ [fetch]) : other.due ≤ fetch.due := by
  have sorted := sorted_schedule all
  rw [split, List.pairwise_append] at sorted
  rcases List.mem_append.mp member with before | same
  · exact sorted.2.2 other before fetch (List.mem_cons_self ..)
  · exact Nat.le_of_eq (congrArg Fetch.due (List.mem_singleton.mp same))

/-- What is seen once a fetch is done took no longer than that one. -/
theorem sees_of_split {join : Join} {problem : Problem} (indexed : Indexed all)
    (seen : join.problem? (outcomesAfter all (done ++ [fetch])) = some problem) :
    ∃ other ∈ all, join.Sees all (done ++ [fetch]) other ∧ other.due ≤ fetch.due ∧
      other.outcome = .error problem := by
  have within := within_concat_of_split split
  obtain ⟨other, sees, failed⟩ := sees_of_problem? indexed within seen
  exact ⟨other, within other sees.1, sees, due_le_of_mem_concat split sees.1, failed⟩

end

/-- With everything done, whatever fails is seen. -/
theorem not_fails_of_unseen {join : Join} (indexed : Indexed all)
    (unseen : join.problem? (outcomesAfter all (schedule all)) = none) (member : fetch ∈ all) :
    ¬ fetch.Fails := by
  intro fails
  have silent := (problem?_eq_none_iff indexed fun _ => mem_schedule.mp).mp unseen
  refine silent fetch ⟨mem_schedule.mpr member, fails, ?_⟩
  exact fun _ other inside _ => mem_schedule.mpr inside

/-! ## Runs -/

variable {join : Join} {timeout? : Option Duration} {bindings : List Binding} {p : Progress}

/-- The ways in which a load ends. -/
inductive Ends (join : Join) (timeout? : Option Duration) (bindings : List Binding)
    (all : List Fetch) : Result → Prop
  | complete {events now} :
    join.problem? (outcomesAfter all (schedule all)) = none →
    (∀ fetch ∈ schedule all, fetch.InTime timeout?) →
    Ends join timeout? bindings all ⟨events, fetched (schedule all), now,
      .ok (treeOf bindings ((allFetched? (outcomesAfter all (schedule all))).getD []))⟩
  | problem {events done fetch rest problem} :
    schedule all = done ++ fetch :: rest →
    join.problem? (outcomesAfter all done) = none →
    (∀ other ∈ done ++ [fetch], other.InTime timeout?) →
    join.problem? (outcomesAfter all (done ++ [fetch])) = some problem →
    Ends join timeout? bindings all
      ⟨events, fetched (done ++ [fetch]), fetch.response.delay, .error problem⟩
  | timeout {events done fetch rest timeout} :
    schedule all = done ++ fetch :: rest →
    join.problem? (outcomesAfter all done) = none →
    (∀ other ∈ done, other.InTime timeout?) →
    timeout? = some timeout → timeout.nanoseconds < fetch.due →
    Ends join timeout? bindings all
      ⟨events, fetched done, timeout, .error (.fetchTimeout bindings.length timeout)⟩

/-- A load under way has completed these fetches in this order and has seen no problem. -/
structure Reached (join : Join) (timeout? : Option Duration) (all done : List Fetch)
    (p : Progress) : Prop where
  outcomes : p.outcomes = outcomesAfter all done
  finished : p.finished = fetched done
  unseen : join.problem? p.outcomes = none
  inTime : ∀ fetch ∈ done, fetch.InTime timeout?

theorem reached_begin : Reached join timeout? all [] (.begin all.length) where
  outcomes := by simp [Progress.begin, outcomesAfter]
  finished := rfl
  unseen := by
    have none : ∀ count, join.problem? (List.replicate count none) = none := by
      intro count
      cases join with
      | eager => simp [Join.problem?]
      | ordered => cases count <;> rfl
    exact none all.length
  inTime := by simp

namespace Reached

theorem start (reached : Reached join timeout? all done p) (fetch : Fetch) :
    Reached join timeout? all done (p.start fetch) :=
  ⟨reached.outcomes, reached.finished, reached.unseen, reached.inTime⟩

variable (reached : Reached join timeout? all done p) (indexed : Indexed all)

include reached indexed

theorem outcomes_complete (member : fetch ∈ all) :
    (p.complete fetch).outcomes = outcomesAfter all (done ++ [fetch]) := by
  rw [outcomesAfter_concat indexed member, ← reached.outcomes]
  rfl

omit indexed in
theorem finished_complete : (p.complete fetch).finished = fetched (done ++ [fetch]) := by
  rw [fetched, List.filter_append, List.map_append, ← fetched, ← reached.finished,
    Progress.complete]
  cases answer : fetch.response.answer with
  | ok value => simp [answer, Except.isOk, Except.toBool]
  | error problem => simp [answer, Except.isOk, Except.toBool]

variable {rest : List Fetch} (split : schedule all = done ++ fetch :: rest)
  (inTime : fetch.InTime timeout?)

include split inTime

omit indexed split in
theorem inTime_concat : ∀ other ∈ done ++ [fetch], other.InTime timeout? := by
  intro other member
  rcases List.mem_append.mp member with before | same
  · exact reached.inTime other before
  · rw [List.mem_singleton.mp same]
    exact inTime

/-- A completion in which the join sees no problem. -/
theorem complete (unseen : join.problem? (p.complete fetch).outcomes = none) :
    Reached join timeout? all (done ++ [fetch]) (p.complete fetch) where
  outcomes := reached.outcomes_complete indexed (mem_of_split split)
  finished := reached.finished_complete
  unseen := unseen
  inTime := reached.inTime_concat inTime

/-- A completion in which it sees one. -/
theorem ends {problem : Problem} (seen : join.problem? (p.complete fetch).outcomes = some problem) :
    Ends join timeout? bindings all ((p.complete fetch).stop fetch.response.delay problem) := by
  have unseen := reached.unseen
  rw [reached.outcomes] at unseen
  rw [reached.outcomes_complete indexed (mem_of_split split)] at seen
  rw [Progress.stop, reached.finished_complete]
  exact .problem split unseen (reached.inTime_concat inTime) seen

end Reached

/-- The starts complete what takes no time. -/
theorem startAll_reaches (bindings : List Binding) (indexed : Indexed all)
    {before rest : List Fetch} (whole : all = before ++ rest)
    (reached : Reached join timeout? all (before.filter (·.response.delay.nanoseconds = 0)) p) :
    match startAll join p rest with
    | .inl result => Ends join timeout? bindings all result
    | .inr q => Reached join timeout? all (all.filter (·.response.delay.nanoseconds = 0)) q := by
  -- Of the fetches that have begun, those that take no time are done.
  induction rest generalizing before p with
  | nil =>
    rw [List.append_nil] at whole
    subst whole
    exact reached
  | cons fetch rest ih =>
    have started := reached.start fetch
    have next : all = (before ++ [fetch]) ++ rest := by simp [whole]
    simp only [startAll]
    split_ifs with now
    · have filtered : (before ++ [fetch]).filter (·.response.delay.nanoseconds = 0) =
          before.filter (·.response.delay.nanoseconds = 0) ++ [fetch] := by simp [now]
      have split : schedule all = before.filter (·.response.delay.nanoseconds = 0) ++
          fetch :: (rest.filter (·.response.delay.nanoseconds = 0) ++ delayed all) := by
        unfold schedule
        conv_lhs => rw [next, List.filter_append, filtered]
        simp [whole]
      have inTime : fetch.InTime timeout? := by
        intro timeout _
        rw [Fetch.due, now]
        exact Nat.zero_le _
      cases seen : join.problem? ((p.start fetch).complete fetch).outcomes with
      | none =>
        simp only
        refine ih next ?_
        rw [filtered]
        exact started.complete indexed split inTime seen
      | some problem =>
        have delay : fetch.response.delay = ⟨0⟩ := by rw [← now]
        have ends : Ends join timeout? bindings all _ := started.ends indexed split inTime seen
        rw [delay] at ends
        exact ends
    · refine ih next ?_
      have filtered : (before ++ [fetch]).filter (·.response.delay.nanoseconds = 0) =
          before.filter (·.response.delay.nanoseconds = 0) := by simp [now]
      rw [filtered]
      exact started

/-- The completions that are to come end the load. -/
theorem await_ends (indexed : Indexed all) {rest : List Fetch} (now : Duration)
    (split : schedule all = done ++ rest) (reached : Reached join timeout? all done p) :
    Ends join timeout? bindings all (await join timeout? bindings p now rest) := by
  induction rest generalizing done p now with
  | nil =>
    rw [List.append_nil] at split
    subst split
    have unseen := reached.unseen
    rw [reached.outcomes] at unseen
    simp only [await, finish, reached.outcomes, reached.finished]
    exact .complete unseen reached.inTime
  | cons fetch rest ih =>
    simp only [await]
    cases late : timeout?.filter (·.nanoseconds < fetch.response.delay.nanoseconds) with
    | some timeout =>
      obtain ⟨limit, later⟩ := Option.filter_eq_some_iff.mp late
      have unseen := reached.unseen
      rw [reached.outcomes] at unseen
      simp only [Progress.stop, reached.finished]
      exact .timeout split unseen reached.inTime limit (of_decide_eq_true later)
    | none =>
      have inTime : fetch.InTime timeout? := by
        intro timeout limit
        have within := Option.filter_eq_none_iff.mp late timeout limit
        simpa [Fetch.due] using within
      simp only
      cases seen : join.problem? (p.complete fetch).outcomes with
      | some problem => exact reached.ends indexed split inTime seen
      | none =>
        exact ih fetch.response.delay (by simpa using split)
          (reached.complete indexed split inTime seen)

/-! ## The fetches of bindings -/

theorem mem_fetches_iff {source : Source} :
    fetch ∈ fetches source bindings ↔
      ∃ i b, bindings[i]? = some b ∧ fetch = ⟨i, b, source b.path⟩ := by
  unfold fetches
  constructor
  · intro member
    obtain ⟨⟨b, i⟩, listed, rfl⟩ := List.mem_map.mp member
    exact ⟨i, b, List.mem_zipIdx_iff_getElem?.mp listed, rfl⟩
  · rintro ⟨i, b, found, rfl⟩
    exact List.mem_map.mpr ⟨(b, i), List.mem_zipIdx_iff_getElem?.mpr found, rfl⟩

theorem map_binding_fetches (source : Source) (bindings : List Binding) :
    (fetches source bindings).map Fetch.binding = bindings := by
  rw [fetches, List.map_map]
  exact List.zipIdx_map_fst 0 bindings

theorem response_of_mem_fetches {source : Source} (member : fetch ∈ fetches source bindings) :
    fetch.response = source fetch.binding.path := by
  obtain ⟨i, b, _, rfl⟩ := mem_fetches_iff.mp member
  rfl

theorem indexed_fetches (source : Source) (bindings : List Binding) :
    Indexed (fetches source bindings) := by
  intro i fetch found
  obtain ⟨⟨b, j⟩, listed, rfl⟩ := Option.map_eq_some_iff.mp (List.getElem?_map ▸ found)
  rw [List.getElem?_zipIdx] at listed
  obtain ⟨_, _, same⟩ := Option.map_eq_some_iff.mp listed
  simp at same
  simp [← same.2]

/-- Every load ends. -/
theorem ends_run (source : Source) (timeout? : Option Duration) (bindings : List Binding) :
    Ends (.ofCount bindings.length) timeout? bindings (fetches source bindings)
      (run source timeout? bindings) := by
  have indexed := indexed_fetches source bindings
  have count : (fetches source bindings).length = bindings.length := by simp [fetches]
  have begun : Reached (.ofCount bindings.length) timeout? (fetches source bindings) []
      (.begin bindings.length) := count ▸ reached_begin
  have started := startAll_reaches bindings indexed (List.nil_append _).symm begun
  unfold run
  cases phase : startAll (.ofCount bindings.length) (.begin bindings.length)
      (fetches source bindings) with
  | inl result =>
    rw [phase] at started
    simp only [phase]
    exact started
  | inr q =>
    rw [phase] at started
    simp only [phase]
    exact await_ends indexed _ rfl started

end Load

end Fieldmark
