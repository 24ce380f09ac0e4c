import Fieldmark.Proofs.Loading
import Mathlib.Data.List.Forall2

/-!
# Names bound again

The check of a page's bindings keeps the latest binding of each name it has passed. What it tells is
said here by places in the list of bindings: of every binding whose name was bound before it knows
the nearest earlier one (`repeats_placed`). So a strict load is refused for the first name that
comes again, a lenient one tells of each that does, and without such names the two are one
(`repeated_names_reported`).
-/

namespace Fieldmark

namespace Load

/-- The binding at `i` is an earlier one of the name that the binding at `j` has. -/
structure Rebound (bindings : List Binding) (i j : Nat) (earlier later : Binding) : Prop where
  before : i < j
  earlierAt : bindings[i]? = some earlier
  laterAt : bindings[j]? = some later
  sameName : earlier.name = later.name

/-- No binding between the two has their name. -/
structure Nearest (bindings : List Binding) (i j : Nat) (earlier later : Binding) : Prop
    extends Rebound bindings i j earlier later where
  nearest : ∀ k other, Rebound bindings k j other later → k ≤ i

variable {bindings front behind : List Binding} {i j : Nat} {earlier later b : Binding}

/-- The binding behind a list whose last binding of that name stands at the end of `before`. -/
theorem nearest_concat {before between : List Binding} (same : earlier.name = b.name)
    (other : ∀ c ∈ between, c.name ≠ b.name) :
    Nearest (before ++ earlier :: between ++ b :: behind) before.length
      (before ++ earlier :: between).length earlier b := by
  refine ⟨⟨by simp, by simp, by simp, same⟩, fun k another closer => ?_⟩
  refine Nat.le_of_not_lt fun later => ?_
  have found : between[k - (before.length + 1)]? = some another := by
    have inside := closer.before
    have at' := closer.earlierAt
    rw [List.getElem?_append_left inside, List.getElem?_append_right (by omega),
      List.getElem?_cons] at at'
    rw [if_neg (by omega)] at at'
    rwa [Nat.sub_sub] at at'
  exact other another (List.mem_of_getElem? found) closer.sameName

theorem not_rebound_of_new (new : ∀ c ∈ front, c.name ≠ b.name) :
    ¬ Rebound (front ++ b :: behind) i front.length earlier later := by
  intro again
  have here : later = b := by
    have at' := again.laterAt
    simp only [List.getElem?_append_right (Nat.le_refl _), Nat.sub_self,
      List.getElem?_cons_zero] at at'
    exact (Option.some.inj at').symm
  have member : earlier ∈ front := by
    have at' := again.earlierAt
    rw [List.getElem?_append_left again.before] at at'
    exact List.mem_of_getElem? at'
  exact new earlier member (here ▸ again.sameName)

/-- The latest binding of a name is the nearest earlier one. -/
theorem nearest_of_find (look : front.reverse.find? (·.name == b.name) = some earlier) :
    ∃ i, Nearest (front ++ b :: behind) i front.length earlier b := by
  obtain ⟨same, between, before, split, others⟩ := List.find?_eq_some_iff_append.mp look
  have whole : front = before.reverse ++ earlier :: between.reverse := by
    have again := congrArg List.reverse split
    simpa using again
  have near := @nearest_concat behind earlier b before.reverse between.reverse
    (by simpa using same) (by simpa using others)
  rw [← whole] at near
  exact ⟨_, near⟩

/-- The pairs that are found, by the places of their later bindings: one pair for each binding
behind `front` whose name was bound before, in the order of the bindings. -/
theorem repeats_placed (front behind : List Binding) :
    ∃ again : List Nat, again.Pairwise (· < ·) ∧
      (∀ j, j ∈ again ↔ front.length ≤ j ∧
        ∃ i earlier later, Rebound (front ++ behind) i j earlier later) ∧
      List.Forall₂ (fun j pair => ∃ i, Nearest (front ++ behind) i j pair.1 pair.2) again
        (repeats front.reverse behind) := by
  induction behind generalizing front with
  | nil =>
    refine ⟨[], .nil, fun j => ?_, .nil⟩
    have outside : ¬ (front.length ≤ j ∧
        ∃ i earlier later, Rebound (front ++ []) i j earlier later) := by
      rintro ⟨beyond, i, earlier, later, bound⟩
      have inside := (List.getElem?_eq_some_iff.mp bound.laterAt).1
      rw [List.append_nil] at inside
      omega
    simpa using outside
  | cons b rest ih =>
    obtain ⟨again, increasing, complete, found⟩ := ih (front ++ [b])
    simp only [List.append_assoc, List.singleton_append, List.reverse_append,
      List.reverse_singleton, List.length_append, List.length_singleton] at complete found
    rw [repeats]
    cases look : front.reverse.find? (·.name == b.name) with
    | none =>
      have new : ∀ c ∈ front, c.name ≠ b.name := by simpa using List.find?_eq_none.mp look
      refine ⟨again, increasing, fun j => ?_, found⟩
      rw [complete]
      constructor
      · rintro ⟨beyond, bound⟩
        exact ⟨Nat.le_of_succ_le beyond, bound⟩
      · rintro ⟨reached, i, earlier, later, bound⟩
        rcases Nat.eq_or_lt_of_le reached with rfl | beyond
        · exact absurd bound (not_rebound_of_new new)
        · exact ⟨beyond, i, earlier, later, bound⟩
    | some earlier =>
      obtain ⟨i, near⟩ := @nearest_of_find front rest earlier b look
      refine ⟨front.length :: again, ?_, fun j => ?_, .cons ⟨_, near⟩ found⟩
      · exact List.pairwise_cons.mpr ⟨fun j member => ((complete j).mp member).1, increasing⟩
      · rw [List.mem_cons, complete]
        constructor
        · rintro (rfl | ⟨beyond, bound⟩)
          · exact ⟨Nat.le_refl _, _, _, _, near.toRebound⟩
          · exact ⟨Nat.le_of_succ_le beyond, bound⟩
        · rintro ⟨reached, bound⟩
          rcases Nat.eq_or_lt_of_le reached with rfl | beyond
          · exact .inl rfl
          · exact .inr ⟨beyond, bound⟩

/-- The first pair that is found: its later binding is the first whose name was bound before, and
its earlier one is the only one of that name in front of it. -/
theorem first_of_repeats {pair : Binding × Binding} {rest : List (Binding × Binding)}
    (found : repeats [] bindings = pair :: rest) :
    ∃ i j, Rebound bindings i j pair.1 pair.2 ∧
      (∀ i' j' earlier later, Rebound bindings i' j' earlier later → j ≤ j') ∧
      ∀ i' earlier, Rebound bindings i' j earlier pair.2 → i' = i := by
  obtain ⟨again, increasing, complete, placed⟩ := repeats_placed [] bindings
  simp only [List.reverse_nil, found, List.nil_append, List.length_nil, Nat.zero_le, true_and]
    at complete placed
  obtain ⟨j, later, ⟨i, near⟩, _, rfl⟩ := List.forall₂_cons_right_iff.mp placed
  have first (i' j' : Nat) (earlier' later' : Binding)
      (bound : Rebound bindings i' j' earlier' later') : j ≤ j' := by
    rcases List.mem_cons.mp ((complete j').mpr ⟨i', earlier', later', bound⟩) with rfl | member
    · exact Nat.le_refl _
    · exact Nat.le_of_lt ((List.pairwise_cons.mp increasing).1 j' member)
  refine ⟨i, j, near.toRebound, first, fun i' earlier' bound => ?_⟩
  -- an earlier one still would make the nearest one a repetition in front of `j`
  refine Nat.le_antisymm (near.nearest i' earlier' bound) (Nat.le_of_not_lt fun apart => ?_)
  have sooner : Rebound bindings i' i earlier' pair.1 :=
    ⟨apart, bound.earlierAt, near.earlierAt, bound.sameName.trans near.sameName.symm⟩
  exact absurd near.before (Nat.not_lt_of_le (first i' i earlier' pair.1 sooner))

/-- There are pairs to be found exactly if a name is bound twice. -/
theorem repeats_ne_nil_iff :
    repeats [] bindings ≠ [] ↔ ∃ i j earlier later, Rebound bindings i j earlier later := by
  constructor
  · intro some
    obtain ⟨pair, rest, found⟩ := List.exists_cons_of_ne_nil some
    obtain ⟨i, j, bound, _⟩ := first_of_repeats found
    exact ⟨i, j, _, _, bound⟩
  · rintro ⟨i, j, earlier, later, bound⟩ none
    obtain ⟨again, _, complete, placed⟩ := repeats_placed [] bindings
    rw [List.reverse_nil, none, List.forall₂_nil_right_iff] at placed
    have member := (complete j).mpr ⟨Nat.zero_le _, i, earlier, later, bound⟩
    rw [placed] at member
    contradiction

/-- A strict check fails for the first binding whose name was bound before. -/
theorem checkDuplicates_reject_iff {problem : Problem} :
    (checkDuplicates .reject bindings).result = .error problem ↔
      ∃ i j earlier later, Rebound bindings i j earlier later ∧
        (∀ i' j' earlier' later', Rebound bindings i' j' earlier' later' → j ≤ j') ∧
        (∀ i' earlier', Rebound bindings i' j earlier' later → i' = i) ∧
        problem = .duplicateReference later.name earlier.span.start.line later.span.start.line := by
  cases pairs : repeats [] bindings with
  | nil =>
    have passed : (checkDuplicates .reject bindings).result = .ok () := by
      simp [checkDuplicates, pairs]
    rw [passed]
    constructor
    · intro same
      contradiction
    · rintro ⟨i, j, earlier, later, bound, _⟩
      exact absurd pairs (repeats_ne_nil_iff.mpr ⟨i, j, earlier, later, bound⟩)
  | cons pair rest =>
    obtain ⟨i, j, bound, first, only⟩ := first_of_repeats pairs
    have refused : (checkDuplicates .reject bindings).result =
        .error (.duplicateReference pair.2.name pair.1.span.start.line pair.2.span.start.line) := by
      simp [checkDuplicates, pairs]
    rw [refused, Except.error.injEq]
    constructor
    · rintro rfl
      exact ⟨i, j, _, _, bound, first, only, rfl⟩
    · rintro ⟨i', j', earlier, later, bound', first', _, rfl⟩
      obtain rfl := Nat.le_antisymm (first' _ _ _ _ bound) (first _ _ _ _ bound')
      obtain rfl := Option.some.inj (bound.laterAt.symm.trans bound'.laterAt)
      obtain rfl := only i' earlier bound'
      obtain rfl := Option.some.inj (bound.earlierAt.symm.trans bound'.earlierAt)
      rfl

/-- A lenient check tells of each binding whose name was bound before. -/
theorem events_checkDuplicates_lastWins (bindings : List Binding) :
    ∃ again : List Nat, again.Pairwise (· < ·) ∧
      (∀ j, j ∈ again ↔ ∃ i earlier later, Rebound bindings i j earlier later) ∧
      List.Forall₂ (fun j event => ∃ i earlier later, Nearest bindings i j earlier later ∧
        event = .reboundName later.name later.span.start.line earlier.span.start.line)
        again (checkDuplicates .lastWins bindings).events := by
  obtain ⟨again, increasing, complete, placed⟩ := repeats_placed [] bindings
  refine ⟨again, increasing, fun j => ?_, List.forall₂_map_right_iff.mpr ?_⟩
  · simpa using complete j
  · refine placed.imp ?_
    rintro j ⟨earlier, later⟩ ⟨i, near⟩
    exact ⟨i, earlier, later, near, rfl⟩

theorem load_reject_eq_lastWins {page : List Char}
    (distinct : ((Binding.find page).map (·.name)).Nodup) (source : Source)
    (timeout? : Option Duration) :
    load source ⟨timeout?, .reject⟩ page = load source ⟨timeout?, .lastWins⟩ page := by
  have none : repeats [] (Binding.find page) = [] :=
    repeats_eq_nil_iff.mpr ⟨distinct, fun _ _ _ => nofun⟩
  have same : checkDuplicates .reject (Binding.find page) =
      checkDuplicates .lastWins (Binding.find page) := by
    simp [checkDuplicates, none]
  simp only [load, same]

/-- A strict load is refused exactly if two bindings share a name: for the first binding whose name
was bound before, with the line of the one binding that did. A lenient one tells of every binding
whose name was bound before, in the order of the page and with the line of the nearest earlier one.
Where all names differ, the two loads are the same. -/
theorem repeated_names_reported (page : List Char) :
    ((∃ problem, (checkDuplicates .reject (Binding.find page)).result = .error problem) ↔
      ∃ i j earlier later, Rebound (Binding.find page) i j earlier later) ∧
    (∀ problem, (checkDuplicates .reject (Binding.find page)).result = .error problem ↔
      ∃ i j earlier later, Rebound (Binding.find page) i j earlier later ∧
        (∀ i' j' earlier' later', Rebound (Binding.find page) i' j' earlier' later' → j ≤ j') ∧
        (∀ i' earlier', Rebound (Binding.find page) i' j earlier' later → i' = i) ∧
        problem = .duplicateReference later.name earlier.span.start.line later.span.start.line) ∧
    (checkDuplicates .lastWins (Binding.find page)).result = .ok () ∧
    (∃ again : List Nat, again.Pairwise (· < ·) ∧
      (∀ j, j ∈ again ↔ ∃ i earlier later, Rebound (Binding.find page) i j earlier later) ∧
      List.Forall₂ (fun j event => ∃ i earlier later,
        Nearest (Binding.find page) i j earlier later ∧
        event = .reboundName later.name later.span.start.line earlier.span.start.line)
        again (checkDuplicates .lastWins (Binding.find page)).events) ∧
    (((Binding.find page).map (·.name)).Nodup → ∀ source timeout?,
      load source ⟨timeout?, .reject⟩ page = load source ⟨timeout?, .lastWins⟩ page) := by
  refine ⟨?_, fun _ => checkDuplicates_reject_iff, rfl, events_checkDuplicates_lastWins _,
    load_reject_eq_lastWins⟩
  rw [← repeats_ne_nil_iff]
  cases pairs : repeats [] (Binding.find page) with
  | nil => simp [checkDuplicates, pairs]
  | cons pair rest => simp [checkDuplicates, pairs]

end Load

end Fieldmark
