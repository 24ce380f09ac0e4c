import Fieldmark.Proofs.Body
import Fieldmark.Proofs.Letters

/-!
# Loop bodies letter by letter

A field tag in the body of a loop is read off tokens, but what it is can be said of its characters
(`TagText`): the reader takes what is a tag (`readTag_of_tagText`) and nothing else
(`tagText_of_readTag`). So a body can be taken apart if and only if each `<:` in it begins a tag, and
its parts are these tags and the text between them (`parse_spelled`).
-/

namespace Fieldmark

open Token

namespace LoopBody

/-! ## What a tag is -/

/-- The fields of a tag, each behind its dot, and what ends the tag. -/
inductive FieldsText : List String → List Char → Prop
  | close {gap gap' : List Char} : IsPlainBlanks gap → IsPlainBlanks gap' →
    FieldsText [] (gap ++ ':' :: (gap' ++ ['>']))
  | field {gap gap' : List Char} {word : String} {fields : List String} {rest : List Char} :
    IsPlainBlanks gap → IsPlainBlanks gap' → IsWord word.toList → FieldsText fields rest →
    FieldsText (word :: fields) (gap ++ '.' :: (gap' ++ (word.toList ++ rest)))

/-- A field tag behind its `<:`. Its first word is not the keyword of a loop, which is followed by a
blank. Behind a word stands a blank, a dot or the last colon, so each is as long as it can be. -/
inductive TagText (reference : String) (fields : List String) : List Char → Prop
  | mk {gap rest : List Char} : IsPlainBlanks gap → IsWord reference.toList → fields ≠ [] →
    FieldsText fields rest →
    (reference = loopKeyword → ∀ c, rest.head? = some c → isPlainBlank c = false) →
    TagText reference fields (gap ++ (reference.toList ++ rest))

/-- What a body that begins at a point consists of: tags, and the text between them, of which there is
some wherever no tag follows a tag. -/
inductive Laid : Point → List BodyPart → List Char → Prop
  | nil {p} : Laid p [] []
  | text {p content parts rest} : content ≠ [] → ¬ opening <:+: content →
    (∀ other, parts.head? ≠ some (.text other)) → Laid (p.after content) parts rest →
    Laid p (.text content :: parts) (content ++ rest)
  | field {p reference fields text parts rest} : TagText reference fields text →
    Laid (p.after (opening ++ text)) parts rest →
    Laid p (.field reference fields p :: parts) (opening ++ text ++ rest)

/-! ## A tag is read -/

theorem skipBlanks_blanks (p : Point) {blanks rest : List Char} (blank : IsPlainBlanks blanks)
    (ends : Ends .blank rest) :
    Cursor.skipBlanks ⟨p, lex (blanks ++ rest)⟩ = ⟨p.after blanks, lex rest⟩ := by
  obtain ⟨taken, left⟩ := @takeWhile_run Token (fun token => token.kind == .blank) (lex blanks)
    (lex rest) (fun token member => by rw [eq_of_mem_lex_blanks blank member]; rfl)
    (fun token head => by simpa using head?_lex_ne_blank ends head)
  rw [Cursor.skipBlanks, lex_blanks blank ends]
  simp only [taken, left, flatten_lex]

theorem word_text (p : Point) {word : String} (isWord : IsWord word.toList) {rest : List Char}
    (ends : Ends .word rest) (fault : Fault) :
    Cursor.word ⟨p, lex (word.toList ++ rest)⟩ fault = .ok (word, ⟨p.after word.toList, lex rest⟩) := by
  simp only [Cursor.word, lex_word isWord ends, String.ofList_toList]

section

variable {reference : String} {fields : List String} {c here : Cursor} {token : Token}
  {rest : List Token}

/-- How the path of a tag goes on with a token. -/
theorem readFields_of_front (skip : c.skipBlanks = here) (front : here.tokens = token :: rest) :
    readFields reference fields c =
      if token.kind = .dot then
        match (here.past token rest).skipBlanks.word .bodyField with
        | .ok (field, after) => readFields reference (fields ++ [field]) after
        | .error problem => .error problem
      else if fields ≠ [] ∧ token.kind = .closing then .ok (fields, here.past token rest)
      else if fields ≠ [] ∧ token.kind = .colon then
        match (here.past token rest).skipBlanks.tokens with
        | ⟨.angle, sign⟩ :: more =>
          .ok (fields, (here.past token rest).skipBlanks.past ⟨.angle, sign⟩ more)
        | _ => .error (Scan.problemAt (here.past token rest).skipBlanks.place .closeOfTag)
      else .error (Scan.problemAt here.place (.bodyTagEnd reference)) := by
  subst skip
  rw [readFields]
  split
  · rename_i none
    rw [none] at front
    contradiction
  · rename_i token' rest' front'
    obtain ⟨rfl, rfl⟩ := List.cons.inj (front'.symm.trans front)
    split
    · cases found : (c.skipBlanks.past token' rest').skipBlanks.word .bodyField with
      | ok reading =>
        simp only
        split
        · rename_i found'
          cases found'.symm.trans found
          rfl
        · rename_i failed
          cases failed.symm.trans found
      | error problem =>
        simp only
        split
        · rename_i found'
          cases found'.symm.trans found
        · rename_i failed
          cases failed.symm.trans found
          rfl
    · rfl

end

/-- The end of a tag: the sign behind its path and the `>`, together or apart. -/
theorem readFields_close {reference : String} {fields : List String} (some : fields ≠ []) (p : Point)
    {gap gap' : List Char} (blank : IsPlainBlanks gap) (blank' : IsPlainBlanks gap') (rest : List Char) :
    readFields reference fields ⟨p, lex (gap ++ ':' :: (gap' ++ '>' :: rest))⟩ =
      .ok (fields, ⟨p.after (gap ++ ':' :: (gap' ++ ['>'])), lex rest⟩) := by
  have skip := skipBlanks_blanks p blank (ends_cons (show Kind.ofChar ':' ≠ .blank by decide)
    (gap' ++ '>' :: rest))
  cases gap' with
  | nil =>
    rw [readFields_of_front skip (lex_closing rest), if_neg (by simp), if_pos ⟨some, rfl⟩]
    simp [Cursor.past, Point.after_append]
  | cons c more =>
    have apart : Severed [':'] (c :: more ++ '>' :: rest) := by
      refine severed_sign rfl (by simp) fun _ head => ?_
      have dark := blank' c (List.mem_cons_self ..)
      rw [show c = '>' from Option.some.inj head] at dark
      contradiction
    have behind := skipBlanks_blanks ((p.after gap).after [':']) blank'
      (ends_cons (show Kind.ofChar '>' ≠ .blank by decide) rest)
    have angle : lex ('>' :: rest) = ⟨.angle, ['>']⟩ :: lex rest :=
      lex_cons_of_severed (severed_sign rfl (by simp) (by simp))
    rw [readFields_of_front skip (lex_cons_of_severed apart), if_neg (by decide),
      if_neg fun both => absurd both.2 (by decide), if_pos ⟨some, by decide⟩]
    simp only [Cursor.past, behind, angle]
    simp [Point.after_append]

theorem FieldsText.ne_nil {fields : List String} {text : List Char} (typed : FieldsText fields text) :
    text ≠ [] := by
  cases typed <;> simp

theorem FieldsText.ends {fields : List String} {text : List Char} (typed : FieldsText fields text)
    (rest : List Char) : Ends .word (text ++ rest) := by
  cases typed with
  | close blank _ =>
    rw [List.append_assoc]
    exact blank.ends (ends_cons (by decide) _)
  | field blank _ _ _ =>
    rw [List.append_assoc]
    exact blank.ends (ends_cons (by decide) _)

/-- The path of a tag is read behind the fields already read. -/
theorem readFields_of_text (reference : String) (done : List String) (p : Point) {fields : List String}
    {text : List Char} (typed : FieldsText fields text) (rest : List Char) (some : done ++ fields ≠ []) :
    readFields reference done ⟨p, lex (text ++ rest)⟩ =
      .ok (done ++ fields, ⟨p.after text, lex rest⟩) := by
  induction typed generalizing done p with
  | close blank blank' =>
    rw [List.append_nil] at some ⊢
    simpa using readFields_close some p blank blank' rest
  | @field gap gap' word fields text blank blank' isWord typed ih =>
    have toDot := skipBlanks_blanks p blank (ends_cons (show Kind.ofChar '.' ≠ .blank by decide)
      (gap' ++ (word.toList ++ (text ++ rest))))
    have toWord := skipBlanks_blanks ((p.after gap).after ['.']) blank' (isWord.ends (text ++ rest))
    have field := word_text (((p.after gap).after ['.']).after gap') isWord (typed.ends rest) .bodyField
    have more := ih (done ++ [word]) ((((p.after gap).after ['.']).after gap').after word.toList) (by simp)
    simp only [List.append_assoc, List.cons_append]
    rw [readFields_of_front toDot (lex_cons_of_severed (severed_sign rfl (by simp) (by simp))),
      if_pos (by decide)]
    simp only [Cursor.past, toWord, field, more]
    simp [Point.after_append]

/-- A tag is read as what it says, up to its end. -/
theorem readTag_of_tagText (place p : Point) {reference : String} {fields : List String}
    {text : List Char} (typed : TagText reference fields text) (rest : List Char) :
    readTag place ⟨p, lex (text ++ rest)⟩ =
      .ok (.field reference fields place, ⟨p.after text, lex rest⟩) := by
  cases typed with
  | @mk gap tail blank isWord some typed keyword =>
    have toWord := skipBlanks_blanks p blank (isWord.ends (tail ++ rest))
    have found := word_text (p.after gap) isWord (typed.ends rest) .bodyReference
    have path := readFields_of_text reference [] ((p.after gap).after reference.toList) typed rest
      (by simpa using some)
    have plain : ¬ (reference = loopKeyword ∧
        (lex (tail ++ rest)).head?.map (·.kind) = Option.some .blank) := by
      rintro ⟨loop, kind⟩
      obtain ⟨token, head, blank⟩ := Option.map_eq_some_iff.mp kind
      refine head?_lex_ne_blank (fun c head' same => ?_) head blank
      have dark : isPlainBlank c = false := by
        obtain ⟨d, more, rfl⟩ := List.exists_cons_of_ne_nil typed.ne_nil
        exact keyword loop c head'
      rw [ofChar_eq_blank_iff.mp same] at dark
      contradiction
    simp only [List.append_assoc, readTag, toWord, found, if_neg plain, path]
    simp [Point.after_append]

/-! ## What is read is a tag -/

/-- Between two cursors stand blanks. -/
theorem blanks_of_skipBlanks {c : Cursor} (formed : ∀ token ∈ c.tokens, token.WellFormed) :
    ∃ gap, c.tokens = gap ++ c.skipBlanks.tokens ∧ IsPlainBlanks (flatten gap) := by
  refine ⟨_, List.takeWhile_append_dropWhile.symm, fun d member => ?_⟩
  obtain ⟨token, among, inside⟩ := List.mem_flatMap.mp member
  have blank : token.kind = .blank := by simpa using List.all_eq_true.mp List.all_takeWhile token among
  have well := formed token ((List.takeWhile_sublist _).mem among)
  refine ofChar_eq_blank_iff.mp ((well.ofChar_of_mem ?_ inside).trans blank)
  rw [blank]
  decide

/-- Between two cursors stands a word. -/
theorem isWord_of_word {c d : Cursor} {fault : Fault} {word : String}
    (formed : ∀ token ∈ c.tokens, token.WellFormed) (h : c.word fault = .ok (word, d)) :
    c.tokens = ⟨.word, word.toList⟩ :: d.tokens ∧ IsWord word.toList := by
  unfold Cursor.word at h
  split at h
  · rename_i text rest front
    cases h
    have well : Token.WellFormed ⟨.word, text⟩ := formed _ (front ▸ List.mem_cons_self ..)
    rw [String.toList_ofList]
    exact ⟨front, well.text_ne_nil,
      fun e member => ofChar_eq_word_iff.mp (well.ofChar_of_mem (by simp) member)⟩
  · contradiction

theorem fieldsText_of_readFields {reference : String} {done read : List String} {c d : Cursor}
    (formed : ∀ token ∈ c.tokens, token.WellFormed)
    (h : readFields reference done c = .ok (read, d)) :
    ∃ fields used, read = done ++ fields ∧ read ≠ [] ∧ c.tokens = used ++ d.tokens ∧
      FieldsText fields (flatten used) := by
  fun_induction readFields reference done c with
  | case2 done c here token rest front behind dot field next found ih =>
    obtain ⟨gap, toDot, blank⟩ := blanks_of_skipBlanks formed
    rw [toDot, List.forall_mem_append, front, List.forall_mem_cons] at formed
    obtain ⟨_, sign, formedRest⟩ := formed
    obtain ⟨gap', toWord, blank'⟩ := @blanks_of_skipBlanks behind formedRest
    have rest' : rest = gap' ++ behind.skipBlanks.tokens := toWord
    rw [rest', List.forall_mem_append] at formedRest
    obtain ⟨word, isWord⟩ := isWord_of_word formedRest.2 found
    rw [word, List.forall_mem_cons] at formedRest
    obtain ⟨fields, used, rfl, some, tokens, typed⟩ := ih formedRest.2.2 h
    refine ⟨field :: fields, gap ++ token :: (gap' ++ ⟨.word, field.toList⟩ :: used), by simp, some, ?_, ?_⟩
    · rw [toDot, front, rest', word, tokens]
      simp
    · have text := FieldsText.field blank blank' isWord typed
      simpa [sign.text_of_sign (c := '.') rfl dot] using text
  | case4 done c here token rest front behind dot closing =>
    obtain ⟨rfl, rfl⟩ := Prod.mk.inj (Except.ok.inj h)
    obtain ⟨gap, toClose, blank⟩ := blanks_of_skipBlanks formed
    rw [toClose, List.forall_mem_append, front, List.forall_mem_cons] at formed
    refine ⟨[], gap ++ [token], by simp, closing.1, ?_, ?_⟩
    · rw [toClose, front]
      simp [behind, Cursor.past]
    · have text := FieldsText.close blank (List.forall_mem_nil _)
      simpa [formed.2.1.text_of_closing closing.2] using text
  | case5 done c here token rest front behind dot closing colon sign rest' front' =>
    obtain ⟨rfl, rfl⟩ := Prod.mk.inj (Except.ok.inj h)
    obtain ⟨gap, toColon, blank⟩ := blanks_of_skipBlanks formed
    rw [toColon, List.forall_mem_append, front, List.forall_mem_cons] at formed
    obtain ⟨_, first, formedRest⟩ := formed
    obtain ⟨gap', toAngle, blank'⟩ := @blanks_of_skipBlanks behind formedRest
    have whole : rest = gap' ++ ⟨.angle, sign⟩ :: rest' := toAngle.trans (by rw [front'])
    rw [whole, List.forall_mem_append, List.forall_mem_cons] at formedRest
    have angle : sign = ['>'] := formedRest.2.1.text_of_sign (c := '>') rfl rfl
    refine ⟨[], gap ++ token :: (gap' ++ [⟨.angle, sign⟩]), by simp, colon.1, ?_, ?_⟩
    · rw [toColon, front, whole]
      simp [Cursor.past]
    · have text := FieldsText.close blank blank'
      simpa [first.text_of_sign (c := ':') rfl colon.2, angle] using text
  | _ => contradiction

theorem tagText_of_readTag {place : Point} {c d : Cursor} {part : BodyPart}
    (formed : ∀ token ∈ c.tokens, token.WellFormed) (h : readTag place c = .ok (part, d)) :
    ∃ reference fields used, part = .field reference fields place ∧ c.tokens = used ++ d.tokens ∧
      TagText reference fields (flatten used) := by
  unfold readTag at h
  split at h
  · contradiction
  · rename_i reference behind found
    split at h
    · contradiction
    · rename_i plain
      split at h
      · contradiction
      · rename_i fields last read
        cases h
        obtain ⟨gap, toWord, blank⟩ := blanks_of_skipBlanks formed
        rw [toWord, List.forall_mem_append] at formed
        obtain ⟨word, isWord⟩ := isWord_of_word formed.2 found
        rw [word, List.forall_mem_cons] at formed
        obtain ⟨fields, used, rfl, nonempty, tokens, typed⟩ := fieldsText_of_readFields formed.2.2 read
        refine ⟨reference, _, gap ++ ⟨.word, reference.toList⟩ :: used, rfl, ?_, ?_⟩
        · rw [toWord, word, tokens]
          simp
        · rw [flatten_append, flatten_cons]
          refine .mk blank isWord nonempty typed fun loop e head => ?_
          refine Bool.eq_false_iff.mpr fun bright => plain ⟨loop, ?_⟩
          cases used with
          | nil => contradiction
          | cons token more =>
            have well := formed.2.2 token (by simp [tokens])
            have first : token.text.head? = some e := by
              obtain ⟨d, text, whole⟩ := List.exists_cons_of_ne_nil well.text_ne_nil
              simpa [whole] using head
            have kind := well.kind_of_blank (List.mem_of_head? first) bright
            simp [tokens, kind]

/-- No tag stands within a tag. -/
theorem FieldsText.not_mem_angle {fields : List String} {text : List Char}
    (typed : FieldsText fields text) : '<' ∉ text := by
  induction typed with
  | close blank blank' => simp [blank.not_mem_angle, blank'.not_mem_angle]
  | field blank blank' isWord _ ih =>
    simp only [List.mem_append, List.mem_cons, not_or]
    exact ⟨blank.not_mem_angle, by decide, blank'.not_mem_angle, isWord.not_mem_angle, ih⟩

theorem TagText.not_mem_angle {reference : String} {fields : List String} {text : List Char}
    (typed : TagText reference fields text) : '<' ∉ text := by
  cases typed with
  | mk blank isWord _ typed _ =>
    simp only [List.mem_append, not_or]
    exact ⟨blank.not_mem_angle, isWord.not_mem_angle, typed.not_mem_angle⟩

/-! ## Text between tags -/

/-- A token that opens nothing opens nothing with what stands behind it either. -/
theorem not_opening_infix {token : Token} {tokens : List Token} {content : List Char}
    (lexed : lex (flatten (token :: tokens)) = token :: tokens) (other : token.kind ≠ .opening)
    (front : content <+: flatten tokens) (plain : ¬ opening <:+: content) :
    ¬ opening <:+: token.text ++ content := by
  have formed : token.WellFormed := wellFormed_of_mem_lex token (lexed ▸ List.mem_cons_self ..)
  have alone (member : '<' ∈ token.text) : token.text = ['<'] := by
    by_cases closes : token.kind = .closing
    · rw [formed.text_of_closing closes] at member
      simp at member
    · exact formed.text_of_sign rfl (formed.ofChar_of_mem ⟨other, closes⟩ member).symm
  rw [opening_infix_append]
  rintro (inside | inside | seam)
  · have single := alone (inside.mem (by simp [opening]))
    rw [single] at inside
    simpa [opening] using inside.length_le
  · exact plain inside
  · obtain ⟨last, head⟩ := Classical.not_imp.mp seam
    obtain ⟨more, rfl⟩ := List.head?_eq_some_iff.mp (Classical.not_not.mp head)
    obtain ⟨rest, whole⟩ := front
    rw [flatten_cons, alone (List.mem_of_getLast? last), ← whole] at lexed
    obtain ⟨rfl, _⟩ := List.cons.inj lexed
    contradiction

theorem Laid.pushText {p : Point} {text rest : List Char} {parts : List BodyPart} (some : text ≠ [])
    (plain : ∀ content, content <+: rest → ¬ opening <:+: content → ¬ opening <:+: text ++ content)
    (laid : Laid (p.after text) parts rest) : Laid p (pushText text parts) (text ++ rest) := by
  have alone : ¬ opening <:+: text := by
    simpa using plain [] List.nil_prefix (by simp [opening])
  cases laid with
  | nil => exact .text some alone (by simp) .nil
  | @text _ content parts rest some' plain' apart more =>
    rw [← Point.after_append] at more
    rw [← List.append_assoc]
    exact .text (by simp [some]) (plain content (List.prefix_append ..) plain') apart more
  | field typed more => exact .text some alone (by simp) (.field typed more)

/-- The parts that are read are what the body consists of. -/
theorem laid_parts (place : Point) (tokens : List Token) (lexed : lex (flatten tokens) = tokens) :
    ∀ found, parts place tokens = .ok found → Laid place found (flatten tokens) := by
  have formed : ∀ token ∈ tokens, token.WellFormed := lexed ▸ wellFormed_of_mem_lex
  fun_induction parts place tokens with
  | case1 =>
    intro found h
    cases h
    exact .nil
  | case2 =>
    intro found h
    contradiction
  | case3 place token tokens behind opens part after read ih =>
    intro found h
    rw [List.forall_mem_cons] at formed
    obtain ⟨reference, fields, used, rfl, whole, typed⟩ := tagText_of_readTag formed.2 read
    obtain ⟨⟨used', whole', there⟩, _⟩ := Cursor.Reaches.readTag read
    obtain rfl := List.append_cancel_right (whole.symm.trans whole')
    cases more : parts after.place after.tokens with
    | error problem =>
      rw [more] at h
      contradiction
    | ok later =>
      rw [more] at h
      cases h
      have rest : tokens = used ++ after.tokens := whole
      have there : after.place = (place.after token.text).after (flatten used) := there
      have laid := ih (lex_flatten_suffix (a := token :: used) (by rw [lexed, rest]; rfl))
        (fun other inside => formed.2 other (by simp [rest, inside])) later more
      rw [there, ← Point.after_append, formed.1.text_of_opening opens] at laid
      rw [flatten_cons, rest, flatten_append, formed.1.text_of_opening opens, ← List.append_assoc]
      exact .field typed laid
  | case4 place token tokens behind plain ih =>
    intro found h
    cases more : parts behind tokens with
    | error problem =>
      rw [more] at h
      contradiction
    | ok later =>
      rw [more] at h
      cases h
      rw [List.forall_mem_cons] at formed
      exact (ih (lex_flatten_suffix (a := [token]) lexed) formed.2 later more).pushText
        formed.1.text_ne_nil fun content => not_opening_infix lexed plain

theorem laid_of_parse {body : List Char} {place : Point} {found : List BodyPart}
    (h : LoopBody.parse body place = .ok found) : Laid place found body := by
  have laid := laid_parts place (lex body) (by rw [flatten_lex]) found h
  rwa [flatten_lex] at laid

theorem Laid.text_isInfix {p : Point} {parts : List BodyPart} {body content : List Char}
    (laid : Laid p parts body) (member : .text content ∈ parts) : content <:+: body := by
  induction laid with
  | nil => contradiction
  | text _ _ _ _ ih =>
    rcases List.mem_cons.mp member with same | member
    · cases same
      exact List.infix_append_of_infix_left (List.infix_refl _)
    · exact List.infix_append_of_infix_right (ih member)
  | field _ _ ih =>
    rcases List.mem_cons.mp member with same | member
    · contradiction
    · exact List.infix_append_of_infix_right (ih member)

/-- The place of a field tag in a body is that of its `<:`, and behind it stands the tag. -/
theorem Laid.tagText_of_field_mem {p q : Point} {parts : List BodyPart} {body : List Char}
    {reference : String} {fields : List String} (laid : Laid p parts body)
    (member : .field reference fields q ∈ parts) :
    ∃ before text rest, body = before ++ opening ++ (text ++ rest) ∧ q = p.after before ∧
      TagText reference fields text := by
  induction laid with
  | nil => contradiction
  | @text p content _ _ _ _ _ _ ih =>
    obtain ⟨before, text, rest, rfl, rfl, typed⟩ := ih (by simpa using member)
    exact ⟨content ++ before, text, rest, by simp, by rw [Point.after_append], typed⟩
  | @field p _ _ tag parts behind typed _ ih =>
    rcases List.mem_cons.mp member with same | member
    · cases same
      exact ⟨[], tag, behind, by simp, rfl, typed⟩
    · obtain ⟨before, text, rest, rfl, rfl, typed⟩ := ih member
      exact ⟨opening ++ tag ++ before, text, rest, by simp, by rw [← Point.after_append], typed⟩

/-- Text in front of tokens goes in front of their parts. -/
theorem parts_text (p : Point) {text : List Token} (some : text ≠ [])
    (other : ∀ token ∈ text, token.kind ≠ .opening) (tokens : List Token) :
    parts p (text ++ tokens) =
      (parts (p.after (flatten text)) tokens).map (LoopBody.pushText (flatten text)) := by
  induction text generalizing p with
  | nil => contradiction
  | cons token text ih =>
    rw [List.forall_mem_cons] at other
    rw [List.cons_append, parts, if_neg other.1]
    by_cases last : text = []
    · simp [last]
    · have joined (found : List BodyPart) : LoopBody.pushText token.text
          (LoopBody.pushText (flatten text) found) = LoopBody.pushText (flatten (token :: text)) found := by
        cases found with
        | nil => simp [LoopBody.pushText]
        | cons part found => cases part <;> simp [LoopBody.pushText]
      rw [ih _ last other.2, flatten_cons, Point.after_append]
      cases parts ((p.after token.text).after (flatten text)) tokens with
      | error problem => rfl
      | ok found => simp [Except.map, joined]

/-- What follows text in a body begins a tag. -/
theorem Laid.severed {p : Point} {parts : List BodyPart} {content rest : List Char}
    (laid : Laid p parts rest) (tag : ∀ other, parts.head? ≠ some (.text other)) :
    Severed content rest := by
  cases laid with
  | nil => simp [Severed]
  | text => simp at tag
  | field _ _ => exact severed_before_angle _ _

theorem pushText_of_tag {content : List Char} {parts : List BodyPart}
    (tag : ∀ other, parts.head? ≠ some (.text other)) :
    LoopBody.pushText content parts = .text content :: parts := by
  unfold LoopBody.pushText
  split
  · simp at tag
  · rfl

/-- A body is read as what it consists of. -/
theorem Laid.parse {p : Point} {found : List BodyPart} {body : List Char} (laid : Laid p found body) :
    parse body p = .ok found := by
  unfold LoopBody.parse
  induction laid with
  | nil => rw [lex, parts]
  | @text p content found rest some plain tag laid ih =>
    have other : ∀ token ∈ lex content, token.kind ≠ .opening := by
      intro token member opens
      obtain ⟨front, behind, split⟩ := List.append_of_mem member
      refine plain ⟨flatten front, flatten behind, ?_⟩
      rw [← flatten_lex content, split, flatten_append, flatten_cons,
        (wellFormed_of_mem_lex token member).text_of_opening opens, List.append_assoc]
    rw [lex_append (laid.severed tag), parts_text p (mt lex_eq_nil_iff.mp some) other, flatten_lex, ih,
      Except.map, pushText_of_tag tag]
  | @field p reference fields text found rest typed laid ih =>
    have tokens : lex (opening ++ text ++ rest) = ⟨.opening, opening⟩ :: lex (text ++ rest) := by
      simp [opening, lex]
    have reads := readTag_of_tagText p (p.after opening) typed rest
    rw [tokens, parts, if_pos rfl]
    split
    · rename_i failed
      cases failed.symm.trans reads
    · rename_i part after read
      cases read.symm.trans reads
      rw [← Point.after_append, ih, Except.map]

/-! ## Which bodies can be read -/

/-- Each `<:` of a text begins a tag. -/
def OpensTags (body : List Char) : Prop :=
  ∀ before behind, body = before ++ opening ++ behind →
    ∃ reference fields text rest, behind = text ++ rest ∧ TagText reference fields text

theorem OpensTags.of_append {before behind : List Char} (tags : OpensTags (before ++ behind)) :
    OpensTags behind := by
  rintro front rest rfl
  exact tags (before ++ front) rest (by simp)

/-- A text that opens nothing, on its own or with what follows, stands in front of any `<:`. -/
theorem append_of_apart {content rest before behind : List Char} (plain : ¬ opening <:+: content)
    (apart : Apart content rest) (whole : content ++ rest = before ++ opening ++ behind) :
    ∃ between, before = content ++ between ∧ rest = between ++ opening ++ behind := by
  rw [List.append_assoc] at whole
  rcases List.append_eq_append_iff.mp whole with ⟨between, rfl, rest'⟩ | ⟨front, rfl, rest'⟩
  · exact ⟨between, rfl, by simpa using rest'⟩
  · cases front with
    | nil => exact ⟨[], by simp, by simpa using rest'.symm⟩
    | cons c front =>
      obtain ⟨rfl, behind'⟩ := List.cons.inj rest'
      cases front with
      | nil => exact absurd (by rw [← show ':' :: behind = rest from behind']; rfl) (apart (by simp))
      | cons d front =>
        obtain ⟨rfl, _⟩ := List.cons.inj behind'
        exact absurd ⟨before, front, by simp [opening]⟩ plain

theorem Laid.opensTags {p : Point} {parts : List BodyPart} {body : List Char}
    (laid : Laid p parts body) : OpensTags body := by
  induction laid with
  | nil =>
    intro before behind whole
    simp [opening] at whole
  | @text p content parts rest some plain tag laid ih =>
    intro before behind whole
    have apart : Apart content rest := by
      cases laid with
      | nil => exact apart_of_head (by simp)
      | text => simp at tag
      | field => exact apart_of_head (by simp [opening])
    obtain ⟨between, rfl, rest'⟩ := append_of_apart plain apart whole
    exact ih between behind rest'
  | @field p reference fields text parts rest typed laid ih =>
    intro before behind whole
    cases before with
    | nil => exact ⟨reference, fields, text, rest, by simpa [opening] using whole.symm, typed⟩
    | cons c before =>
      have angle : '<' ∉ ':' :: text := by simpa using typed.not_mem_angle
      have plain : ¬ opening <:+: ':' :: text := fun inside => angle (inside.mem (by simp [opening]))
      have apart : Apart (':' :: text) rest := fun last => absurd (List.mem_of_getLast? last) angle
      obtain ⟨between, _, rest'⟩ := append_of_apart plain apart (List.cons.inj whole).2
      exact ih between behind rest'

theorem exists_parts_of_opensTags (place : Point) (tokens : List Token)
    (lexed : lex (flatten tokens) = tokens) (tags : OpensTags (flatten tokens)) :
    ∃ found, parts place tokens = .ok found := by
  fun_induction parts place tokens with
  | case1 => exact ⟨_, rfl⟩
  | case2 place token tokens behind opens problem failed =>
    have later : lex (flatten tokens) = tokens := lex_flatten_suffix (a := [token]) lexed
    have formed : token.WellFormed := wellFormed_of_mem_lex token (lexed ▸ List.mem_cons_self ..)
    rw [flatten_cons, formed.text_of_opening opens] at tags
    obtain ⟨reference, fields, text, rest, whole, typed⟩ := tags [] _ rfl
    rw [← later, whole, readTag_of_tagText place behind typed rest] at failed
    contradiction
  | case3 place token tokens behind opens part after read ih =>
    obtain ⟨⟨used, whole, _⟩, _⟩ := Cursor.Reaches.readTag read
    have split : token :: tokens = (token :: used) ++ after.tokens := congrArg (token :: ·) whole
    rw [split] at lexed tags
    rw [flatten_append] at tags
    obtain ⟨found, more⟩ := ih (lex_flatten_suffix lexed) tags.of_append
    exact ⟨part :: found, by rw [more]; rfl⟩
  | case4 place token tokens behind plain ih =>
    obtain ⟨found, more⟩ := ih (lex_flatten_suffix (a := [token]) lexed) tags.of_append
    exact ⟨pushText token.text found, by rw [more]; rfl⟩

/-- A body can be taken apart if and only if each `<:` in it begins a tag. Its parts are then those
it consists of, and no others. -/
theorem parse_spelled (body : List Char) (place : Point) :
    ((∃ parts, parse body place = .ok parts) ↔ OpensTags body) ∧
      ∀ parts, parse body place = .ok parts ↔ Laid place parts body := by
  refine ⟨⟨fun ⟨parts, h⟩ => (laid_of_parse h).opensTags, fun tags => ?_⟩,
    fun parts => ⟨laid_of_parse, Laid.parse⟩⟩
  exact exists_parts_of_opensTags place (lex body) (by rw [flatten_lex]) (by rwa [flatten_lex])

end LoopBody

end Fieldmark
