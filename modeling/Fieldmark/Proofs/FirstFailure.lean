import Fieldmark.Proofs.Loading

/-!
# The first failure of a load

Up to thirty bindings, a load ends with the fetch that fails first, at the time at which it fails.
Beyond, it looks at its fetches in binding order, and that failure ends it only if no binding in
front takes longer (`first_failure_ends_load`). One that takes longer than the time limit hides
every failure behind it (`Ends.late`).
-/

namespace Fieldmark

namespace Load

variable {source : Source} {timeout? : Option Duration} {bindings : List Binding} {join : Join}
  {all done rest : List Fetch} {fetch next : Fetch} {result : Result}

/-- A fetch fails, and every other that does takes more time. -/
structure FailsFirst (all : List Fetch) (fetch : Fetch) : Prop where
  member : fetch ∈ all
  fails : fetch.Fails
  sooner : ∀ other ∈ all, other.Fails → other ≠ fetch → fetch.due < other.due

theorem FailsFirst.eq_of_due_le (first : FailsFirst all fetch) {other : Fetch}
    (member : other ∈ all) (fails : other.Fails) (sooner : other.due ≤ fetch.due) :
    other = fetch := by
  by_contra differ
  have := first.sooner other member fails differ
  omega

/-- Nothing that the join looks at before a fetch takes more time. -/
def Join.Clears (join : Join) (all : List Fetch) (fetch : Fetch) : Prop :=
  join = .ordered → ∀ other ∈ all, other.index < fetch.index → other.due ≤ fetch.due

/-- A load that has seen no problem has not come past the time of a failure in clear sight. -/
theorem due_le_of_unseen (indexed : Indexed all) (split : schedule all = done ++ next :: rest)
    (unseen : join.problem? (outcomesAfter all done) = none) (member : fetch ∈ all)
    (fails : fetch.Fails) (clear : join.Clears all fetch) : next.due ≤ fetch.due := by
  by_contra passed
  rw [Nat.not_le] at passed
  have finished : fetch ∈ done := mem_done_of_due_lt split member passed
  have silent := (problem?_eq_none_iff indexed (within_of_split split)).mp unseen
  refine silent fetch ⟨finished, fails, ?_⟩
  intro ordered other inside lower
  have := clear ordered other inside lower
  exact mem_done_of_due_lt split inside (by omega)

/-! ## The end of a load -/

/-- A load ends with a fetch: with what came of it, and when it came. -/
structure Result.EndsWith (result : Result) (fetch : Fetch) : Prop where
  problem : ∃ problem, fetch.outcome = .error problem ∧ result.result = .error problem
  ended : result.ended = fetch.response.delay

section

variable (indexed : Indexed all) (first : FailsFirst all fetch)
  (ends : Ends join timeout? bindings all result)

include indexed first ends

theorem Ends.endsWith (clear : join.Clears all fetch) (inTime : fetch.InTime timeout?) :
    result.EndsWith fetch := by
  cases ends with
  | complete unseen => exact absurd first.fails (not_fails_of_unseen indexed unseen first.member)
  | @problem events done next rest problem split unseen _ seen =>
    have reached := due_le_of_unseen indexed split unseen first.member first.fails clear
    -- What is seen came no later than the failure, so it is the failure.
    obtain ⟨other, member, ⟨_, fails, _⟩, sooner, failed⟩ := sees_of_split split indexed seen
    obtain rfl := first.eq_of_due_le member fails (by omega)
    have same : next.response.delay.nanoseconds = other.response.delay.nanoseconds :=
      Nat.le_antisymm reached sooner
    exact ⟨⟨problem, failed, rfl⟩, congrArg Duration.mk same⟩
  | timeout split unseen _ limit late =>
    have reached := due_le_of_unseen indexed split unseen first.member first.fails clear
    have := inTime _ limit
    omega

theorem Ends.clears (endsWith : result.EndsWith fetch) : join.Clears all fetch := by
  obtain ⟨⟨problem, outcome, same⟩, ended⟩ := endsWith
  cases ends with
  | complete => contradiction
  | @problem events done next rest problem split _ _ seen =>
    obtain ⟨other, member, ⟨_, fails, earlier⟩, sooner, _⟩ := sees_of_split split indexed seen
    have now : next.due = fetch.due := congrArg Duration.nanoseconds ended
    obtain rfl := first.eq_of_due_le member fails (by omega)
    intro ordered before inside lower
    have := due_le_of_mem_concat split (earlier ordered before inside lower)
    omega
  | timeout =>
    obtain ⟨cause, _, rfl⟩ := Fetch.outcome_eq_error_iff.mp outcome
    cases same

/-- The first failure ends a load exactly if nothing that is looked at before takes longer. -/
theorem Ends.endsWith_iff (inTime : fetch.InTime timeout?) :
    result.EndsWith fetch ↔ join.Clears all fetch :=
  ⟨ends.clears indexed first, fun clear => ends.endsWith indexed first clear inTime⟩

end

theorem path_of_mem_fetched {path : String} (member : path ∈ fetched done) :
    ∃ fetch ∈ done, fetch.binding.path = path := by
  obtain ⟨fetch, inside, same⟩ := List.mem_map.mp member
  exact ⟨fetch, List.mem_of_mem_filter inside, same⟩

/-- A load that fails has finished nothing that takes longer than the load itself. -/
theorem Ends.finished_due_le {problem : Problem} (ends : Ends join timeout? bindings all result)
    (h : result.result = .error problem) :
    ∀ path ∈ result.finished, ∃ other ∈ all, other.binding.path = path ∧
      other.due ≤ result.ended.nanoseconds := by
  cases ends with
  | complete => contradiction
  | problem split =>
    intro path member
    obtain ⟨other, inside, same⟩ := path_of_mem_fetched member
    have member := within_concat_of_split split other inside
    exact ⟨other, member, same, due_le_of_mem_concat split inside⟩
  | timeout split _ inTime limit =>
    intro path member
    obtain ⟨other, inside, same⟩ := path_of_mem_fetched member
    exact ⟨other, within_of_split split other inside, same, inTime other inside _ limit⟩

/-- Beyond thirty bindings, a fetch that comes too late hides every failure behind it. -/
theorem Ends.late (indexed : Indexed all) (ends : Ends .ordered timeout? bindings all result)
    (member : fetch ∈ all) (late : ¬ fetch.InTime timeout?)
    (front : ∀ other ∈ all, other.index < fetch.index → ¬ other.Fails) :
    ∃ timeout ∈ timeout?, result.ended = timeout ∧
      result.result = .error (.fetchTimeout bindings.length timeout) := by
  cases ends with
  | complete _ inTime => exact absurd (inTime fetch (mem_schedule.mpr member)) late
  | problem split _ inTime seen =>
    obtain ⟨other, inside, ⟨finished, fails, earlier⟩, _⟩ := sees_of_split split indexed seen
    rcases Nat.lt_trichotomy other.index fetch.index with lower | same | higher
    · exact absurd fails (front other inside lower)
    · obtain rfl := indexed.eq_of_index inside member same
      exact absurd (inTime other finished) late
    · exact absurd (inTime fetch (earlier rfl fetch member higher)) late
  | timeout _ _ _ limit => exact ⟨_, limit, rfl, rfl⟩

/-! ## The fetches of a page -/

variable {i : Nat} {b : Binding}

theorem clears_fetches_iff : (Join.ofCount bindings.length).Clears (fetches source bindings)
      ⟨i, b, source b.path⟩ ↔
    bindings.length ≤ eagerLimit ∨ ∀ j earlier, bindings[j]? = some earlier → j < i →
      (source earlier.path).delay.nanoseconds ≤ (source b.path).delay.nanoseconds := by
  have ordered : Join.ofCount bindings.length = .ordered ↔ ¬ bindings.length ≤ eagerLimit := by
    by_cases few : bindings.length ≤ eagerLimit
    · simp [Join.ofCount, few]
    · simp [Join.ofCount, few]
  rw [Join.Clears, ordered, ← or_iff_not_imp_left]
  refine or_congr_right ⟨?_, ?_⟩
  · intro clear j earlier found lower
    exact clear _ (mem_fetches_iff.mpr ⟨j, earlier, found, rfl⟩) lower
  · intro clear other member lower
    obtain ⟨j, earlier, found, rfl⟩ := mem_fetches_iff.mp member
    exact clear j earlier found lower

theorem failsFirst_fetches {cause : Problem} (bound : bindings[i]? = some b)
    (fails : (source b.path).answer = .error cause)
    (first : ∀ j other problem, bindings[j]? = some other → j ≠ i →
      (source other.path).answer = .error problem →
      (source b.path).delay.nanoseconds < (source other.path).delay.nanoseconds) :
    FailsFirst (fetches source bindings) ⟨i, b, source b.path⟩ where
  member := mem_fetches_iff.mpr ⟨i, b, bound, rfl⟩
  fails := ⟨cause, fails⟩
  sooner := by
    intro other member failed differ
    obtain ⟨j, binding, found, rfl⟩ := mem_fetches_iff.mp member
    obtain ⟨problem, answer⟩ := failed
    refine first j binding problem found ?_ answer
    rintro rfl
    rw [bound] at found
    cases found
    exact differ rfl

end Load

open Load

/-- A page has one binding whose fetch fails in time and sooner than every other that fails. The
load ends with that failure when it comes, and with nothing finished that takes longer, exactly if
there are no more than thirty bindings or none in front of that one takes longer. -/
theorem first_failure_ends_load {source : Source} {options : LoadOptions} {page : List Char}
    {i : Nat} {b : Binding} {cause : Problem}
    (accepted : options.duplicates = .lastWins ∨ ((Binding.find page).map (·.name)).Nodup)
    (bound : (Binding.find page)[i]? = some b) (fails : (source b.path).answer = .error cause)
    (first : ∀ j other problem, (Binding.find page)[j]? = some other → j ≠ i →
      (source other.path).answer = .error problem →
      (source b.path).delay.nanoseconds < (source other.path).delay.nanoseconds)
    (inTime : ∀ timeout ∈ options.timeout?,
      (source b.path).delay.nanoseconds ≤ timeout.nanoseconds) :
    ((load source options page).result = .error (.dataFetch b.name b.path cause) ∧
      (load source options page).ended = (source b.path).delay ∧
      ∀ path ∈ (load source options page).finished,
        (source path).delay.nanoseconds ≤ (source b.path).delay.nanoseconds) ↔
    ((Binding.find page).length ≤ eagerLimit ∨
      ∀ j earlier, (Binding.find page)[j]? = some earlier → j < i →
        (source earlier.path).delay.nanoseconds ≤ (source b.path).delay.nanoseconds) := by
  have indexed := indexed_fetches source (Binding.find page)
  have ends := ends_run source options.timeout? (Binding.find page)
  have failsFirst := failsFirst_fetches bound fails first
  have failed : (⟨i, b, source b.path⟩ : Fetch).outcome = .error (.dataFetch b.name b.path cause) :=
    Fetch.outcome_eq_error_iff.mpr ⟨cause, fails, rfl⟩
  obtain ⟨result, finished, ended⟩ :=
    load_of_accepted source options (checkDuplicates_ok_iff.mpr accepted)
  rw [result, finished, ended, ← clears_fetches_iff, ← ends.endsWith_iff indexed failsFirst inTime]
  constructor
  · rintro ⟨problem, time, _⟩
    exact ⟨⟨_, failed, problem⟩, time⟩
  · rintro ⟨⟨problem, outcome, failure⟩, time⟩
    rw [failed] at outcome
    cases outcome
    refine ⟨failure, time, ?_⟩
    intro path member
    obtain ⟨other, inside, rfl, due⟩ := ends.finished_due_le failure path member
    rw [Fetch.due, response_of_mem_fetches inside, time] at due
    exact due

/-- A document that is not there, among others that are, but not soon. -/
private def soonGone : Source := fun path =>
  if path = "/gone" then ⟨⟨1⟩, [], .error (.notFound "/gone")⟩ else ⟨⟨100⟩, [], .ok (.text "")⟩

private def behindSlow (more : Nat) : List Char :=
  "<:a=/slow:><:b=/gone:>".toList ++ (List.replicate more "<:c=/slow:>".toList).flatten

private theorem paths_behindSlow : (Binding.find (behindSlow 29)).map (·.path) =
    "/slow" :: "/gone" :: List.replicate 29 "/slow" := by
  decide +kernel

theorem first_failure_ends_load_missing :
    (load soonGone ⟨some ⟨50⟩, .reject⟩ (behindSlow 0)).result =
        .error (.dataFetch "b" "/gone" (.notFound "/gone")) ∧
      (load soonGone ⟨some ⟨50⟩, .reject⟩ (behindSlow 0)).ended = ⟨1⟩ := by
  have found : Binding.find (behindSlow 0) =
      [⟨"a", "/slow", ⟨⟨1, 1, 0⟩, ⟨1, 12, 11⟩⟩⟩, ⟨"b", "/gone", ⟨⟨1, 12, 11⟩, ⟨1, 23, 22⟩⟩⟩] := by
    with_unfolding_all rfl
  have bound : (Binding.find (behindSlow 0))[1]? =
      some ⟨"b", "/gone", ⟨⟨1, 12, 11⟩, ⟨1, 23, 22⟩⟩⟩ := by
    rw [found]
    rfl
  have distinct : ((Binding.find (behindSlow 0)).map (·.name)).Nodup := by
    rw [found]
    decide
  have first : ∀ j other problem, (Binding.find (behindSlow 0))[j]? = some other → j ≠ 1 →
      (soonGone other.path).answer = .error problem →
      1 < (soonGone other.path).delay.nanoseconds := by
    rw [found]
    rintro (_ | _ | j) other problem standing differ failed
    · cases standing
      contradiction
    · contradiction
    · contradiction
  have few : (Binding.find (behindSlow 0)).length ≤ eagerLimit := by
    rw [found]
    decide
  have ended := (@first_failure_ends_load soonGone ⟨some ⟨50⟩, .reject⟩ _ _ _ _ (.inr distinct)
    bound rfl first (by simp [soonGone])).mpr (.inl few)
  exact ⟨ended.1, ended.2.1⟩

/-- Of thirty-one fetches only the second fails, at once, and the load waits for the first until its
time is up. -/
theorem first_failure_hidden :
    (Binding.find (behindSlow 29)).map (·.path) =
        "/slow" :: "/gone" :: List.replicate 29 "/slow" ∧
      (load soonGone ⟨some ⟨50⟩, .lastWins⟩ (behindSlow 29)).result =
        .error (.fetchTimeout 31 ⟨50⟩) := by
  refine ⟨paths_behindSlow, ?_⟩
  have count : (Binding.find (behindSlow 29)).length = 31 := by
    have lengths := congrArg List.length paths_behindSlow
    rwa [List.length_map] at lengths
  obtain ⟨b, bound, slow⟩ : ∃ b, (Binding.find (behindSlow 29))[0]? = some b ∧
      b.path = "/slow" := by
    have paths := congrArg (·[0]?) paths_behindSlow
    simpa using paths
  -- The load is not evaluated: fetches are sorted by time, and a sort does not reduce.
  have ends := ends_run soonGone (some ⟨50⟩) (Binding.find (behindSlow 29))
  rw [count] at ends
  obtain ⟨timeout, limit, _, late⟩ := ends.late (indexed_fetches soonGone _)
    (mem_fetches_iff.mpr ⟨0, b, bound, rfl⟩)
    (by simp [Fetch.InTime, Fetch.due, slow, soonGone])
    (by simp)
  obtain ⟨result, _, _⟩ := load_of_accepted soonGone ⟨some ⟨50⟩, .lastWins⟩
    (checkDuplicates_ok_iff.mpr (.inl rfl))
  cases limit
  rw [result, late, count]

end Fieldmark
