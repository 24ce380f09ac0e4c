import Fieldmark.LoopBody
import Fieldmark.Proofs.Tokens

/-!
# Readers of a loop body

A tag is read off the tokens of a body from left to right: a reader leaves its cursor further on in
the same text (`Cursor.Reaches`). So what is wrong with a body is wrong at a place of it
(`place_of_parse_error`).
-/

namespace Fieldmark

namespace LoopBody

/-! ## What a reader leaves -/

/-- A cursor stands as far on in the text as the tokens between say, or where another one does. -/
def Cursor.Reaches (c d : Cursor) : Prop :=
  ∃ used, c.tokens = used ++ d.tokens ∧ d.place = c.place.after (Token.flatten used)

namespace Cursor.Reaches

theorem trans {c d e : Cursor} (first : c.Reaches d) (second : d.Reaches e) : c.Reaches e := by
  obtain ⟨used, tokens, place⟩ := first
  obtain ⟨more, tokens', place'⟩ := second
  refine ⟨used ++ more, by rw [tokens, tokens', List.append_assoc], ?_⟩
  rw [place', place, Token.flatten_append, Point.after_append]

theorem skipBlanks (c : Cursor) : c.Reaches c.skipBlanks :=
  ⟨_, List.takeWhile_append_dropWhile.symm, rfl⟩

theorem past {c : Cursor} {token : Token} {rest : List Token} (front : c.tokens = token :: rest) :
    c.Reaches (c.past token rest) :=
  ⟨[token], front, by simp [Cursor.past]⟩

theorem word {c d : Cursor} {fault : Fault} {word : String} (h : c.word fault = .ok (word, d)) :
    c.Reaches d := by
  unfold Cursor.word at h
  split at h
  · rename_i text rest front
    cases h
    exact past front
  · contradiction

theorem readFields {reference : String} {fields read : List String} {c d : Cursor}
    (h : LoopBody.readFields reference fields c = .ok (read, d)) : c.Reaches d := by
  fun_induction LoopBody.readFields reference fields c with
  | case2 fields c here token rest front behind _ field next found ih =>
    exact (skipBlanks c).trans ((past front).trans
      ((skipBlanks behind).trans ((word found).trans (ih h))))
  | case4 fields c here token rest front behind =>
    obtain ⟨rfl, rfl⟩ := Prod.mk.inj (Except.ok.inj h)
    exact (skipBlanks c).trans (past front)
  | case5 fields c here token rest front behind _ _ _ sign rest' front' =>
    obtain ⟨rfl, rfl⟩ := Prod.mk.inj (Except.ok.inj h)
    exact (skipBlanks c).trans ((past front).trans ((skipBlanks behind).trans (past front')))
  | _ => contradiction

theorem readTag {place : Point} {c d : Cursor} {part : BodyPart}
    (h : LoopBody.readTag place c = .ok (part, d)) :
    c.Reaches d ∧ ∃ reference fields, part = .field reference fields place := by
  unfold LoopBody.readTag at h
  split at h
  · contradiction
  · rename_i reference behind found
    split at h
    · contradiction
    · split at h
      · contradiction
      · rename_i fields last read
        cases h
        exact ⟨(skipBlanks c).trans ((word found).trans (readFields read)), reference, fields, rfl⟩

end Cursor.Reaches

/-! ## Places of problems -/

/-- A problem at a place that a reader comes to. -/
def Cursor.Fails (c : Cursor) (problem : Problem) : Prop :=
  ∃ d fault, c.Reaches d ∧ problem = Scan.problemAt d.place fault

namespace Cursor.Fails

theorem here (c : Cursor) (fault : Fault) : c.Fails (Scan.problemAt c.place fault) :=
  ⟨c, fault, ⟨[], rfl, rfl⟩, rfl⟩

theorem of_reaches {c d : Cursor} {problem : Problem} (way : c.Reaches d) (fails : d.Fails problem) :
    c.Fails problem := by
  obtain ⟨e, fault, more, rfl⟩ := fails
  exact ⟨e, fault, way.trans more, rfl⟩

theorem word {c : Cursor} {fault : Fault} {problem : Problem} (h : c.word fault = .error problem) :
    c.Fails problem := by
  unfold Cursor.word at h
  split at h
  · contradiction
  · cases h
    exact here c fault

theorem readFields {reference : String} {fields : List String} {c : Cursor} {problem : Problem}
    (h : LoopBody.readFields reference fields c = .error problem) : c.Fails problem := by
  fun_induction LoopBody.readFields reference fields c with
  | case1 fields c here' front =>
    cases h
    exact of_reaches (.skipBlanks c) (here _ _)
  | case2 fields c here' token rest front behind _ field next found ih =>
    exact of_reaches ((Reaches.skipBlanks c).trans ((Reaches.past front).trans
      ((Reaches.skipBlanks behind).trans (.word found)))) (ih h)
  | case3 fields c here' token rest front behind _ problem' found =>
    cases h
    exact of_reaches ((Reaches.skipBlanks c).trans ((Reaches.past front).trans
      (.skipBlanks behind))) (word found)
  | case4 => contradiction
  | case5 => contradiction
  | case6 fields c here' token rest front behind =>
    cases h
    exact of_reaches ((Reaches.skipBlanks c).trans ((Reaches.past front).trans
      (.skipBlanks behind))) (here _ _)
  | case7 fields c here' token rest front behind =>
    cases h
    exact of_reaches (.skipBlanks c) (here _ _)

theorem readTag {place : Point} {c : Cursor} {problem : Problem}
    (h : LoopBody.readTag place c = .error problem) :
    c.Fails problem ∨ problem = Scan.problemAt place .nestedLoop := by
  unfold LoopBody.readTag at h
  split at h
  · rename_i found
    cases h
    exact .inl (of_reaches (.skipBlanks c) (word found))
  · rename_i reference behind found
    split at h
    · cases h
      exact .inr rfl
    · split at h
      · rename_i failed
        cases h
        exact .inl (of_reaches ((Reaches.skipBlanks c).trans (.word found)) (readFields failed))
      · contradiction

end Cursor.Fails

theorem place_of_parts_error (place : Point) (tokens : List Token) {problem : Problem} :
    parts place tokens = .error problem → ∃ front behind fault,
      Token.flatten tokens = front ++ behind ∧ problem = Scan.problemAt (place.after front) fault := by
  fun_induction parts place tokens with
  | case1 =>
    intro h
    contradiction
  | case2 place token tokens behind opens problem' failed =>
    intro h
    cases h
    rcases Cursor.Fails.readTag failed with ⟨d, fault, ⟨used, whole, there⟩, rfl⟩ | rfl
    · refine ⟨token.text ++ Token.flatten used, Token.flatten d.tokens, fault, ?_, ?_⟩
      · rw [Token.flatten_cons, show tokens = used ++ d.tokens from whole, Token.flatten_append,
          List.append_assoc]
      · rw [there, ← Point.after_append]
    · exact ⟨[], _, _, rfl, rfl⟩
  | case3 place token tokens behind opens part after read ih =>
    intro h
    obtain ⟨⟨used, whole, there⟩, _⟩ := Cursor.Reaches.readTag read
    cases more : parts after.place after.tokens with
    | ok later =>
      rw [more] at h
      contradiction
    | error problem' =>
      rw [more] at h
      cases h
      obtain ⟨front, rest, fault, split, rfl⟩ := ih more
      refine ⟨token.text ++ Token.flatten used ++ front, rest, fault, ?_, ?_⟩
      · rw [Token.flatten_cons, show tokens = used ++ after.tokens from whole, Token.flatten_append,
          split]
        simp
      · rw [there, ← Point.after_append, ← Point.after_append, List.append_assoc]
  | case4 place token tokens behind plain ih =>
    intro h
    cases more : parts behind tokens with
    | ok later =>
      rw [more] at h
      contradiction
    | error problem' =>
      rw [more] at h
      cases h
      obtain ⟨front, rest, fault, split, rfl⟩ := ih more
      exact ⟨token.text ++ front, rest, fault, by simp [split], by rw [Point.after_append]⟩

/-- What is wrong with a body is wrong at a place of it, or at its end. -/
theorem place_of_parse_error {body : List Char} {place : Point} {problem : Problem}
    (h : parse body place = .error problem) :
    ∃ front behind fault, body = front ++ behind ∧
      problem = Scan.problemAt (place.after front) fault := by
  have found := place_of_parts_error place (lex body) h
  rwa [flatten_lex] at found

end LoopBody

end Fieldmark
