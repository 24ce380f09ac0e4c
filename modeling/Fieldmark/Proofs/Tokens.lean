import Fieldmark.Proofs.Opening
import Fieldmark.Token
import Mathlib.Tactic.SplitIfs

/-!
# Tokens where texts meet

A joined text has the tokens of its parts unless a token reaches across the seam (`lex_append`).
None does in front of a `<` or behind a `>`, so that what stands between the two is read as the same
tokens wherever it stands (`lex_between`).
-/

namespace Fieldmark

namespace Token

/-- The tokens that a text can have. -/
inductive WellFormed : Token → Prop
  | opening : WellFormed ⟨.opening, Fieldmark.opening⟩
  | closing : WellFormed ⟨.closing, [':', '>']⟩
  | single {c : Char} : (Kind.ofChar c).joins = false → WellFormed ⟨.ofChar c, [c]⟩
  | run {kind : Kind} {text : List Char} : kind.joins = true → text ≠ [] →
    (∀ c ∈ text, Kind.ofChar c = kind) → WellFormed ⟨kind, text⟩

theorem WellFormed.text_ne_nil {token : Token} (formed : token.WellFormed) : token.text ≠ [] := by
  cases formed with
  | opening => simp [Fieldmark.opening]
  | closing => simp
  | single _ => simp
  | run _ nonempty _ => exact nonempty

theorem Kind.ofChar_ne_opening (c : Char) : Kind.ofChar c ≠ .opening := by
  unfold Kind.ofChar
  split_ifs <;> simp

theorem Kind.ofChar_ne_closing (c : Char) : Kind.ofChar c ≠ .closing := by
  unfold Kind.ofChar
  split_ifs <;> simp

theorem WellFormed.text_of_opening {token : Token} (formed : token.WellFormed)
    (kind : token.kind = .opening) : token.text = Fieldmark.opening := by
  cases formed with
  | opening => rfl
  | closing => contradiction
  | single _ => exact absurd kind (Kind.ofChar_ne_opening _)
  | run joins _ _ =>
    cases kind
    contradiction

theorem WellFormed.text_of_closing {token : Token} (formed : token.WellFormed)
    (kind : token.kind = .closing) : token.text = [':', '>'] := by
  cases formed with
  | opening => contradiction
  | closing => rfl
  | single _ => exact absurd kind (Kind.ofChar_ne_closing _)
  | run joins _ _ =>
    cases kind
    contradiction

/-- Any other token is made of characters of its kind. -/
theorem WellFormed.ofChar_of_mem {token : Token} (formed : token.WellFormed)
    (kind : token.kind ≠ .opening ∧ token.kind ≠ .closing) {c : Char} (member : c ∈ token.text) :
    Kind.ofChar c = token.kind := by
  cases formed with
  | opening => exact absurd rfl kind.1
  | closing => exact absurd rfl kind.2
  | single _ => rw [List.mem_singleton.mp member]
  | run _ _ chars => exact chars c member

/-- The character that a kind of sign is for. -/
def Kind.sign? : Kind → Option Char
  | .equals => some '='
  | .dot => some '.'
  | .colon => some ':'
  | .angle => some '>'
  | .stray => some '<'
  | _ => none

theorem Kind.sign?_ofChar {c : Char} (sign : (Kind.ofChar c).joins = false) :
    (Kind.ofChar c).sign? = some c := by
  unfold Kind.ofChar at sign ⊢
  split_ifs at sign ⊢ <;> simp_all [Kind.joins, Kind.sign?]

/-- A sign is the only character of its kind. -/
theorem Kind.eq_of_ofChar {c d : Char} (sign : (Kind.ofChar c).joins = false)
    (same : Kind.ofChar d = Kind.ofChar c) : d = c := by
  have other : (Kind.ofChar d).sign? = some d := Kind.sign?_ofChar (same ▸ sign)
  rw [same, Kind.sign?_ofChar sign] at other
  exact (Option.some.inj other).symm

theorem WellFormed.text_of_sign {token : Token} (formed : token.WellFormed) {c : Char}
    (sign : (Kind.ofChar c).joins = false) (kind : token.kind = Kind.ofChar c) : token.text = [c] := by
  cases formed with
  | opening => exact absurd kind.symm (Kind.ofChar_ne_opening c)
  | closing => exact absurd kind.symm (Kind.ofChar_ne_closing c)
  | single _ => rw [Kind.eq_of_ofChar sign kind]
  | @run other _ joins _ _ =>
    have same : other = Kind.ofChar c := kind
    rw [same, sign] at joins
    contradiction

theorem wellFormed_push {c : Char} {tokens : List Token} (formed : ∀ token ∈ tokens, token.WellFormed) :
    ∀ token ∈ push c tokens, token.WellFormed := by
  have alone : WellFormed ⟨.ofChar c, [c]⟩ := by
    cases joins : (Kind.ofChar c).joins with
    | true => exact .run joins (by simp) (by simp)
    | false => exact .single joins
  intro token member
  cases tokens with
  | nil => rwa [List.mem_singleton.mp member]
  | cons first rest =>
    rw [push] at member
    split at member
    · rename_i joined
      obtain ⟨same, joins⟩ := joined
      rcases List.mem_cons.mp member with rfl | member
      · have kind : first.kind ≠ .opening ∧ first.kind ≠ .closing :=
          ⟨same ▸ Kind.ofChar_ne_opening c, same ▸ Kind.ofChar_ne_closing c⟩
        refine .run joins (by simp) fun d inside => ?_
        rcases List.mem_cons.mp inside with rfl | inside
        · exact same.symm
        · exact (formed first (List.mem_cons_self ..)).ofChar_of_mem kind inside
      · exact formed token (List.mem_cons_of_mem first member)
    · rcases List.mem_cons.mp member with rfl | member
      · exact alone
      · exact formed token member

theorem push_append {c : Char} {tokens : List Token} (nonempty : tokens ≠ []) (more : List Token) :
    push c (tokens ++ more) = push c tokens ++ more := by
  cases tokens with
  | nil => contradiction
  | cons first rest =>
    simp only [List.cons_append, push]
    split <;> simp

end Token

open Token

theorem lex_closing (rest : List Char) : lex (':' :: '>' :: rest) = ⟨.closing, [':', '>']⟩ :: lex rest := by
  rw [lex]

theorem lex_cons {c : Char} {rest : List Char} (opens : ¬ (c = '<' ∧ rest.head? = some ':'))
    (closes : ¬ (c = ':' ∧ rest.head? = some '>')) : lex (c :: rest) = push c (lex rest) := by
  rw [lex]
  · exact plain_iff.mp opens
  · rintro tail rfl rfl
    exact closes ⟨rfl, rfl⟩

theorem wellFormed_of_mem_lex {text : List Char} : ∀ token ∈ lex text, token.WellFormed := by
  fun_induction lex text with
  | case1 => simp
  | case2 rest ih =>
    intro token member
    rcases List.mem_cons.mp member with rfl | member
    · exact .opening
    · exact ih token member
  | case3 rest ih =>
    intro token member
    rcases List.mem_cons.mp member with rfl | member
    · exact .closing
    · exact ih token member
  | case4 c rest _ _ ih => exact wellFormed_push ih

/-- A token can begin with one of the characters and go on with the other. -/
def Joins (x y : Char) : Prop :=
  (x = '<' ∧ y = ':') ∨ (x = ':' ∧ y = '>') ∨ (Kind.ofChar x = Kind.ofChar y ∧ (Kind.ofChar x).joins)

/-- No token reaches from one text into the other. -/
def Severed (a b : List Char) : Prop :=
  ∀ x, a.getLast? = some x → ∀ y, b.head? = some y → ¬ Joins x y

theorem Severed.of_cons {c : Char} {a b : List Char} (h : Severed (c :: a) b) : Severed a b := by
  cases a with
  | nil => simp [Severed]
  | cons d a => simpa [Severed] using h

theorem severed_singleton {c : Char} {b : List Char} :
    Severed [c] b ↔ ∀ y, b.head? = some y → ¬ Joins c y := by
  simp [Severed]

/-- The first token of a text, if it is a run, is one of the kind of its first character. -/
theorem ofChar_of_lex_cons {y : Char} {rest : List Char} {first : Token} {tokens : List Token}
    (h : lex (y :: rest) = first :: tokens) (joins : first.kind.joins = true) :
    Kind.ofChar y = first.kind := by
  have formed : first.WellFormed := wellFormed_of_mem_lex first (h ▸ List.mem_cons_self ..)
  have whole := flatten_lex (y :: rest)
  rw [h, flatten_cons] at whole
  have member : y ∈ first.text := by
    cases text : first.text with
    | nil => exact absurd text formed.text_ne_nil
    | cons x more => simp_all
  refine formed.ofChar_of_mem ⟨?_, ?_⟩ member
  · rintro kind
    rw [kind] at joins
    contradiction
  · rintro kind
    rw [kind] at joins
    contradiction

theorem lex_eq_nil_iff {text : List Char} : lex text = [] ↔ text = [] := by
  constructor
  · intro h
    rw [← flatten_lex text, h, flatten_nil]
  · rintro rfl
    rw [lex]

theorem push_lex_of_severed {c : Char} {b : List Char} (h : Severed [c] b) :
    push c (lex b) = ⟨.ofChar c, [c]⟩ :: lex b := by
  cases tokens : lex b with
  | nil => rfl
  | cons first rest =>
    cases b with
    | nil => simp [lex] at tokens
    | cons y b =>
      rw [push, if_neg]
      rintro ⟨same, joins⟩
      have kind := ofChar_of_lex_cons tokens joins
      exact severed_singleton.mp h y rfl (.inr (.inr ⟨by rw [kind, same], same ▸ joins⟩))

/-- A character that joins nothing behind it is a token. -/
theorem lex_cons_of_severed {c : Char} {b : List Char} (severed : Severed [c] b) :
    lex (c :: b) = ⟨.ofChar c, [c]⟩ :: lex b := by
  have apart := severed_singleton.mp severed
  have joined : lex (c :: b) = push c (lex b) := lex_cons
    (fun ⟨sign, head⟩ => apart ':' head (.inl ⟨sign, rfl⟩))
    (fun ⟨sign, head⟩ => apart '>' head (.inr (.inl ⟨sign, rfl⟩)))
  rw [joined, push_lex_of_severed severed]

theorem lex_append {a b : List Char} (severed : Severed a b) : lex (a ++ b) = lex a ++ lex b := by
  fun_induction lex a with
  | case1 => rfl
  | case2 rest ih =>
    rw [List.cons_append, List.cons_append, lex, ih severed.of_cons.of_cons, List.cons_append]
  | case3 rest ih =>
    rw [List.cons_append, List.cons_append, lex_closing, ih severed.of_cons.of_cons, List.cons_append]
  | case4 c rest opens closes ih =>
    cases rest with
    | nil =>
      rw [List.singleton_append, lex_cons_of_severed severed, lex]
      rfl
    | cons d rest =>
      have joined : lex (c :: (d :: rest ++ b)) = push c (lex (d :: rest ++ b)) := by
        refine lex_cons (fun ⟨sign, head⟩ => ?_) (fun ⟨sign, head⟩ => ?_)
        · cases head
          exact opens rest sign rfl
        · cases head
          exact closes rest sign rfl
      have nonempty : lex (d :: rest) ≠ [] := by simp [lex_eq_nil_iff]
      rw [List.cons_append, joined, ih severed.of_cons, push_append nonempty]

/-- A sign is cut from what stands in front of it, unless the two are a delimiter. -/
theorem severed_before_sign {a : List Char} {c : Char} (b : List Char)
    (sign : (Kind.ofChar c).joins = false) (opens : c = ':' → a.getLast? ≠ some '<')
    (closes : c = '>' → a.getLast? ≠ some ':') : Severed a (c :: b) := by
  intro x last y head
  cases head
  rintro (⟨rfl, colon⟩ | ⟨rfl, angle⟩ | ⟨same, joins⟩)
  · exact opens colon last
  · exact closes angle last
  · rw [same, sign] at joins
    contradiction

/-- So is it from what stands behind it. -/
theorem severed_sign {c : Char} {b : List Char} (sign : (Kind.ofChar c).joins = false)
    (opens : c = '<' → b.head? ≠ some ':') (closes : c = ':' → b.head? ≠ some '>') : Severed [c] b := by
  refine severed_singleton.mpr fun y head => ?_
  rintro (⟨angle, rfl⟩ | ⟨colon, rfl⟩ | ⟨_, joins⟩)
  · exact opens angle head
  · exact closes colon head
  · rw [sign] at joins
    contradiction

theorem severed_concat {a : List Char} {c : Char} {b : List Char} : Severed (a ++ [c]) b ↔ Severed [c] b := by
  simp [Severed]

theorem severed_before_angle (a b : List Char) : Severed a ('<' :: b) :=
  severed_before_sign b rfl (by simp) (by simp)

theorem severed_behind_angle (a b : List Char) : Severed (a ++ ['>']) b :=
  severed_concat.mpr (severed_sign rfl (by simp) (by simp))

/-- A text from a `<` up to a `>` is read as the same tokens whatever stands around it. -/
theorem lex_between {text : List Char} (before behind : List Char) (start : text.head? = some '<')
    (stop : text.getLast? = some '>') :
    lex (before ++ text ++ behind) = lex before ++ lex text ++ lex behind := by
  obtain ⟨inner, rfl⟩ := List.getLast?_eq_some_iff.mp stop
  obtain ⟨rest, whole⟩ := List.head?_eq_some_iff.mp start
  rw [← List.append_assoc before, lex_append (severed_behind_angle (before ++ inner) behind),
    List.append_assoc before, whole, lex_append (severed_before_angle before rest)]

/-! ## Tokens and their texts -/

theorem lex_flatten_of_lex_cons {text : List Char} {first : Token} {tokens : List Token}
    (h : lex text = first :: tokens) : lex (flatten tokens) = tokens := by
  fun_induction lex text generalizing first tokens with
  | case1 => contradiction
  | case2 rest ih =>
    obtain ⟨_, rfl⟩ := List.cons.inj h
    rw [flatten_lex]
  | case3 rest ih =>
    obtain ⟨_, rfl⟩ := List.cons.inj h
    rw [flatten_lex]
  | case4 c rest _ _ ih =>
    cases later : lex rest with
    | nil =>
      rw [later] at h
      obtain ⟨_, rfl⟩ := List.cons.inj h
      rfl
    | cons next more =>
      rw [later, push] at h
      split at h
      · obtain ⟨_, rfl⟩ := List.cons.inj h
        exact ih later
      · obtain ⟨_, rfl⟩ := List.cons.inj h
        rw [← later, flatten_lex]

/-- The last tokens of a text are those of their own text. -/
theorem lex_flatten_suffix {text : List Char} {a b : List Token} (h : lex text = a ++ b) :
    lex (flatten b) = b := by
  induction a generalizing text with
  | nil => rw [← show lex text = b from h, flatten_lex]
  | cons first a ih => exact ih (lex_flatten_of_lex_cons h)

/-- So are the first ones if they end in a `>`. -/
theorem lex_flatten_prefix {text : List Char} {a b : List Token} (h : lex text = a ++ b)
    (stop : (flatten a).getLast? = some '>') : lex (flatten a) = a := by
  obtain ⟨inner, ends⟩ := List.getLast?_eq_some_iff.mp stop
  have whole : text = flatten a ++ flatten b := by rw [← flatten_append, ← h, flatten_lex]
  have joined : lex text = lex (flatten a) ++ lex (flatten b) := by
    rw [whole, ends, lex_append (severed_behind_angle inner _)]
  rw [lex_flatten_suffix h, h] at joined
  exact (List.append_cancel_right joined).symm

/-! ## Runs -/

/-- A run of what passes a test ends where something fails it. -/
theorem takeWhile_run {α : Type _} {test : α → Bool} {front : List α} (rest : List α)
    (passes : ∀ a ∈ front, test a = true) (fails : ∀ a, rest.head? = some a → test a = false) :
    (front ++ rest).takeWhile test = front ∧ (front ++ rest).dropWhile test = rest := by
  rw [List.takeWhile_append_of_pos passes, List.dropWhile_append_of_pos passes]
  cases rest with
  | nil => simp
  | cons a rest => simp [fails a rfl]

/-- A run of characters of one kind is one token. -/
theorem lex_run {kind : Kind} {text : List Char} (joins : kind.joins = true) (nonempty : text ≠ [])
    (chars : ∀ c ∈ text, Kind.ofChar c = kind) : lex text = [⟨kind, text⟩] := by
  induction text with
  | nil => contradiction
  | cons c rest ih =>
    have same : Kind.ofChar c = kind := chars c (List.mem_cons_self ..)
    have step : lex (c :: rest) = push c (lex rest) := by
      refine lex_cons ?_ ?_
      · rintro ⟨rfl, _⟩
        rw [← same] at joins
        exact absurd joins (by decide)
      · rintro ⟨rfl, _⟩
        rw [← same] at joins
        exact absurd joins (by decide)
    rw [step]
    cases rest with
    | nil => simp [lex, push, same]
    | cons d rest =>
      rw [ih (by simp) fun e member => chars e (List.mem_cons_of_mem c member), push,
        if_pos ⟨same.symm, joins⟩]

/-- A run ends where a character of another kind stands. -/
theorem severed_run {kind : Kind} {text rest : List Char} (joins : kind.joins = true)
    (chars : ∀ c ∈ text, Kind.ofChar c = kind) (ends : ∀ c, rest.head? = some c → Kind.ofChar c ≠ kind) :
    Severed text rest := by
  intro x last y head
  have same : Kind.ofChar x = kind := chars x (List.mem_of_getLast? last)
  rintro (⟨rfl, _⟩ | ⟨rfl, _⟩ | ⟨equal, _⟩)
  · rw [← same] at joins
    exact absurd joins (by decide)
  · rw [← same] at joins
    exact absurd joins (by decide)
  · exact ends y head (equal.symm.trans same)

end Fieldmark
