import Fieldmark.Proofs.Reading
import Mathlib.Data.List.Chain

/-!
# Typed pages

What an author may type for literal text, for a field tag and for a loop, with blanks wherever they
carry no meaning (`Piece`). The scanner finds in a typed page the pieces it was typed from, each
where it stands (`scan_typed`).
-/

namespace Fieldmark

/-! ## Pieces -/

/-- Blanks where some may stand. -/
structure Gap where
  text : List Char
  blank : IsBlanks text

/-- A name and the blanks around it. -/
structure Spaced where
  before : Gap
  word : String
  behind : Gap
  named : IsName word

def Spaced.text (spaced : Spaced) : List Char :=
  spaced.before.text ++ spaced.word.toList ++ spaced.behind.text

/-- Fields as they are typed, each behind its dot, and the sign that ends them. -/
def typedPath (fields : List Spaced) : List Char :=
  (fields.flatMap fun field => '.' :: field.text) ++ [':']

theorem typedPath_cons (field : Spaced) (fields : List Spaced) :
    typedPath (field :: fields) = '.' :: (field.text ++ typedPath fields) := by
  simp [typedPath]

/-- A field tag as it is typed. -/
structure FieldTag where
  reference : Spaced
  fields : List Spaced
  close : Gap
  nonempty : fields ≠ []
  /-- Only the dot right behind it tells the reference `for` from the keyword. -/
  keyword : reference.word = loopKeyword → reference.behind.text = []
  /-- The header opens no second tag. -/
  plain : ¬ opening <:+: reference.text ++ typedPath fields ++ close.text

/-- A loop as it is typed: `for`, the loop variable, a word without meaning and the collection,
then the body up to the first `</:` that a `>` ends. -/
structure LoopTag where
  lead : Gap
  item : Spaced
  separator : String
  ahead : Gap
  collection : String
  behind : Gap
  close : Gap
  body : String
  last : Gap
  before_nonempty : item.before.text ≠ []
  behind_nonempty : item.behind.text ≠ []
  separated : IsSeparator separator
  ahead_nonempty : ahead.text ≠ []
  collected : IsCollection collection
  plain : ¬ opening <:+: lead.text ++ loopKeyword.toList ++ item.text ++ separator.toList ++
    ahead.text ++ collection.toList ++ behind.text ++ [':'] ++ close.text
  opened : Unclosed body.toList

/-- Literal text as it is typed. -/
structure LiteralText where
  text : String
  nonempty : text ≠ ""
  plain : ¬ opening <:+: text.toList

inductive Piece where
  | literal (literal : LiteralText)
  | field (tag : FieldTag)
  | loop (tag : LoopTag)

namespace FieldTag

/-- What stands between the first `<:` and the last `>`. -/
def header (tag : FieldTag) : List Char :=
  tag.reference.text ++ typedPath tag.fields ++ tag.close.text

def text (tag : FieldTag) : List Char := opening ++ tag.header ++ ['>']

/-- The tag that is meant, at a place. -/
def tagAt (tag : FieldTag) (p : Point) : Tag :=
  ⟨.field tag.reference.word (tag.fields.map Spaced.word), ⟨p, p.after tag.text⟩⟩

end FieldTag

namespace LoopTag

/-- What stands between the first `<:` and the `>` before the body. -/
def header (tag : LoopTag) : List Char :=
  tag.lead.text ++ loopKeyword.toList ++ tag.item.text ++ tag.separator.toList ++
    tag.ahead.text ++ tag.collection.toList ++ tag.behind.text ++ [':'] ++ tag.close.text

/-- Up to the body. -/
def front (tag : LoopTag) : List Char := opening ++ tag.header ++ ['>']

def text (tag : LoopTag) : List Char :=
  tag.front ++ tag.body.toList ++ (loopClose ++ tag.last.text ++ ['>'])

/-- The tag that is meant, at a place. -/
def tagAt (tag : LoopTag) (p : Point) : Tag :=
  ⟨.loop tag.item.word tag.collection tag.body
      ⟨p.after tag.front, p.after (tag.front ++ tag.body.toList)⟩,
    ⟨p, p.after tag.text⟩⟩

end LoopTag

namespace Piece

def isLiteral : Piece → Bool
  | literal _ => true
  | _ => false

/-- What is typed. -/
def text : Piece → List Char
  | literal it => it.text.toList
  | field tag => tag.text
  | loop tag => tag.text

/-- What is meant, at a place. -/
def segmentAt (p : Point) : Piece → Segment
  | literal it => .literal it.text
  | field tag => .tag (tag.tagAt p)
  | loop tag => .tag (tag.tagAt p)

end Piece

/-- A page as it is typed. -/
def typed (pieces : List Piece) : List Char := pieces.flatMap Piece.text

/-- The pieces of a page that begins at a point as segments, each where it stands. -/
def segmentsAt (p : Point) : List Piece → List Segment
  | [] => []
  | piece :: rest => piece.segmentAt p :: segmentsAt (p.after piece.text) rest

namespace Scan

/-! ## Words and gaps of a header -/

theorem follow?_word {state : String → State} {text : List Char}
    (grows : ∀ word, ∀ c ∈ text, read (state word) c = (state (word.push c), .consume))
    (word : String) :
    (state word).follow? (text.map .char) = some (state (word ++ String.ofList text)) := by
  induction text generalizing word with
  | nil => simp [State.follow?]
  | cons c text ih =>
    have more := ih (fun word d member => grows word d (List.mem_cons_of_mem _ member)) (word.push c)
    have whole : word.push c ++ String.ofList text = word ++ String.ofList (c :: text) := by
      apply String.toList_inj.mp
      simp
    rw [List.map_cons, follow?_char (grows word c (List.mem_cons_self ..)), more, whole]

/-- Blanks that change nothing. -/
theorem follow?_blanks {state : State}
    (stays : ∀ c, isBlank c = true → read state c = (state, .consume)) {text : List Char}
    (blank : IsBlanks text) : state.follow? (text.map .char) = some state := by
  induction text with
  | nil => rfl
  | cons c text ih =>
    rw [List.map_cons, follow?_char (stays c (blank c (List.mem_cons_self ..)))]
    exact ih fun d member => blank d (List.mem_cons_of_mem _ member)

/-- Blanks the first of which ends a word. -/
theorem follow?_turn {state next : State}
    (turns : ∀ c, isBlank c = true → read state c = (next, .consume))
    (stays : ∀ c, isBlank c = true → read next c = (next, .consume)) {text : List Char}
    (blank : IsBlanks text) (nonempty : text ≠ []) :
    state.follow? (text.map .char) = some next := by
  cases text with
  | nil => contradiction
  | cons c text =>
    rw [List.map_cons, follow?_char (turns c (blank c (List.mem_cons_self ..)))]
    exact follow?_blanks stays fun d member => blank d (List.mem_cons_of_mem _ member)

/-! ## Headers of field tags -/

theorem follow?_name {word : String} (named : IsName word) (lead : Gap) :
    State.tagOpen.follow? ((lead.text ++ word.toList).map .char) = some (.name word) := by
  obtain ⟨nonempty, chars⟩ := named
  have stays : ∀ c, isBlank c = true → read .tagOpen c = (.tagOpen, .consume) := by
    intro c blank
    simp [read, blank]
  have grows : ∀ token, ∀ c ∈ word.toList, read (.name token) c = (.name (token.push c), .consume) := by
    intro token c member
    obtain ⟨blank, dot, colon⟩ := chars c member
    simp [read, blank, dot, colon]
  rw [List.map_append]
  refine follow?_append (follow?_blanks stays lead.blank) ?_
  cases spelled : word.toList with
  | nil => exact absurd (String.toList_eq_nil_iff.mp spelled) nonempty
  | cons c rest =>
    rw [spelled] at chars grows
    obtain ⟨blank, dot, colon⟩ := chars c (List.mem_cons_self ..)
    have first : read .tagOpen c = (.name (String.singleton c), .consume) := by
      simp [read, blank, dot, colon]
    have whole : String.singleton c ++ String.ofList rest = word := by
      apply String.toList_inj.mp
      simp [spelled]
    rw [List.map_cons, follow?_char first,
      follow?_word (fun token d member => grows token d (List.mem_cons_of_mem _ member)), whole]

theorem follow?_field (reference : String) (done : List String) (field : Spaced) :
    (State.field reference done "").follow? (field.text.map .char) =
      some (.field reference done field.word) := by
  have stays : ∀ segment c, isBlank c = true →
      read (.field reference done segment) c = (.field reference done segment, .consume) := by
    intro segment c blank
    simp [read, blank]
  have grows : ∀ segment, ∀ c ∈ field.word.toList,
      read (.field reference done segment) c = (.field reference done (segment.push c), .consume) := by
    intro segment c member
    obtain ⟨blank, dot, colon⟩ := field.named.2 c member
    simp [read, blank, dot, colon]
  have word := follow?_word grows ""
  rw [String.empty_append, String.ofList_toList] at word
  rw [Spaced.text, List.map_append, List.map_append]
  exact follow?_append (follow?_append (follow?_blanks (stays "") field.before.blank) word)
    (follow?_blanks (stays field.word) field.behind.blank)

theorem follow?_path (reference : String) (done : List String) {segment : String}
    (nonempty : segment ≠ "") (fields : List Spaced) :
    (State.field reference done segment).follow? ((typedPath fields).map .char) =
      some (.tagEnd reference (done ++ segment :: fields.map Spaced.word)) := by
  induction fields generalizing done segment with
  | nil =>
    have ends : read (.field reference done segment) ':' =
        (.tagEnd reference (done ++ [segment]), .consume) := by
      simp [read, nonempty, isBlank_colon]
    exact (follow?_char ends).mpr rfl
  | cons field fields ih =>
    have dot : read (.field reference done segment) '.' =
        (.field reference (done ++ [segment]) "", .consume) := by
      simp [read, nonempty, isBlank_dot]
    have more := ih (done ++ [segment]) field.named.1
    rw [List.append_assoc] at more
    rw [typedPath_cons, List.map_cons, follow?_char dot, List.map_append]
    exact follow?_append (follow?_field reference _ field) more

theorem follow?_fieldHeader (tag : FieldTag) :
    State.tagOpen.follow? (tag.header.map .char) =
      some (.tagEnd tag.reference.word (tag.fields.map Spaced.word)) := by
  have behind : (State.name tag.reference.word).follow? (tag.reference.behind.text.map .char) =
      some (.name tag.reference.word) := by
    by_cases keyword : tag.reference.word = loopKeyword
    · rw [tag.keyword keyword]
      rfl
    · refine follow?_blanks ?_ tag.reference.behind.blank
      intro c blank
      simp [read, blank, keyword]
  have close : ∀ c, isBlank c = true →
      read (.tagEnd tag.reference.word (tag.fields.map Spaced.word)) c =
        (.tagEnd tag.reference.word (tag.fields.map Spaced.word), .consume) := by
    intro c blank
    simp [read, blank, ne_of_isBlank blank isBlank_angle]
  have path : (State.name tag.reference.word).follow? ((typedPath tag.fields).map .char) =
      some (.tagEnd tag.reference.word (tag.fields.map Spaced.word)) := by
    cases whole : tag.fields with
    | nil => exact absurd whole tag.nonempty
    | cons field fields =>
      have dot : read (.name tag.reference.word) '.' =
          (.field tag.reference.word [] "", .consume) := by
        simp [read, isBlank_dot]
      rw [typedPath_cons, List.map_cons, follow?_char dot, List.map_append]
      exact follow?_append (follow?_field _ _ field) (follow?_path _ [] field.named.1 fields)
  rw [FieldTag.header, Spaced.text, List.map_append, List.map_append, List.map_append]
  exact follow?_append
    (follow?_append (follow?_append (follow?_name tag.reference.named _) behind) path)
    (follow?_blanks close tag.close.blank)

/-! ## Headers of loops -/

theorem follow?_loopVariable {word : String} (named : IsName word) :
    (State.loopVariable "").follow? (word.toList.map .char) = some (.loopVariable word) := by
  have grows : ∀ item, ∀ c ∈ word.toList,
      read (.loopVariable item) c = (.loopVariable (item.push c), .consume) := by
    intro item c member
    obtain ⟨blank, dot, colon⟩ := named.2 c member
    simp [read, blank, dot, colon]
  simpa using follow?_word grows ""

theorem follow?_loopSeparator (item : String) {word : String} (separated : IsSeparator word) :
    (State.loopSeparator item "").follow? (word.toList.map .char) =
      some (.loopSeparator item word) := by
  have grows : ∀ separator, ∀ c ∈ word.toList,
      read (.loopSeparator item separator) c = (.loopSeparator item (separator.push c), .consume) := by
    intro separator c member
    simp [read, separated.2 c member]
  simpa using follow?_word grows ""

theorem follow?_loopCollection (item : String) {word : String} (collected : IsCollection word) :
    (State.loopCollection item "").follow? (word.toList.map .char) =
      some (.loopCollection item word) := by
  have grows : ∀ collection, ∀ c ∈ word.toList,
      read (.loopCollection item collection) c =
        (.loopCollection item (collection.push c), .consume) := by
    intro collection c member
    obtain ⟨blank, colon⟩ := collected.2 c member
    simp [read, blank, colon]
  simpa using follow?_word grows ""

theorem follow?_loopHeader (tag : LoopTag) :
    State.tagOpen.follow? (tag.header.map .char) =
      some (.loopBody tag.item.word tag.collection "" false) := by
  have keyword := follow?_name (show IsName loopKeyword from by decide) tag.lead
  have toItem : (State.name loopKeyword).follow? (tag.item.before.text.map .char) =
      some (.loopVariable "") := by
    refine follow?_turn ?_ ?_ tag.item.before.blank tag.before_nonempty
    · intro c blank
      simp [read, blank]
    · intro c blank
      simp [read, blank]
  have toSeparator : (State.loopVariable tag.item.word).follow? (tag.item.behind.text.map .char) =
      some (.loopSeparator tag.item.word "") := by
    refine follow?_turn ?_ ?_ tag.item.behind.blank tag.behind_nonempty
    · intro c blank
      simp [read, blank, tag.item.named.1]
    · intro c blank
      simp [read, blank]
  have toCollection : (State.loopSeparator tag.item.word tag.separator).follow?
      (tag.ahead.text.map .char) = some (.loopCollection tag.item.word "") := by
    refine follow?_turn ?_ ?_ tag.ahead.blank tag.ahead_nonempty
    · intro c blank
      simp [read, blank, tag.separated.1]
    · intro c blank
      simp [read, blank]
  have behind : (State.loopCollection tag.item.word tag.collection).follow?
      (tag.behind.text.map .char) = some (.loopCollection tag.item.word tag.collection) := by
    refine follow?_blanks ?_ tag.behind.blank
    intro c blank
    simp [read, blank]
  have colon : (State.loopCollection tag.item.word tag.collection).follow? (([':'] : List Char).map .char) =
      some (.loopBody tag.item.word tag.collection "" false) := by
    have ends : read (.loopCollection tag.item.word tag.collection) ':' =
        (.loopBody tag.item.word tag.collection "" false, .consume) := by
      simp [read, tag.collected.1, isBlank_colon]
    exact (follow?_char ends).mpr rfl
  have close : (State.loopBody tag.item.word tag.collection "" false).follow?
      (tag.close.text.map .char) = some (.loopBody tag.item.word tag.collection "" false) := by
    refine follow?_blanks ?_ tag.close.blank
    intro c blank
    simp [read, blank, ne_of_isBlank blank isBlank_angle]
  have item := follow?_append (follow?_append keyword toItem)
    (follow?_append (follow?_loopVariable tag.item.named) toSeparator)
  have separator := follow?_append item
    (follow?_append (follow?_loopSeparator tag.item.word tag.separated) toCollection)
  have collection := follow?_append separator
    (follow?_append (follow?_loopCollection tag.item.word tag.collected) behind)
  have whole := follow?_append collection (follow?_append colon close)
  simpa only [LoopTag.header, Spaced.text, List.map_append, List.append_assoc] using whole

end Scan

/-! ## The whole page -/

theorem FieldTag.written (tag : FieldTag) (p : Point) : Scan.Written p (tag.tagAt p) [] tag.text := by
  have marked : Scan.marks tag.header = tag.header.map .char := Scan.marks_eq_map tag.plain
  have written := Scan.Written.field (p := p) (marked ▸ Scan.follow?_fieldHeader tag)
  rw [marked, Scan.skipped_map_char] at written
  exact written

theorem LoopTag.written (tag : LoopTag) (p : Point) : Scan.Written p (tag.tagAt p) [] tag.text := by
  have marked : Scan.marks tag.header = tag.header.map .char := Scan.marks_eq_map tag.plain
  have written := Scan.Written.loop (p := p) (marked ▸ Scan.follow?_loopHeader tag) tag.opened
    ⟨tag.last.text, tag.last.blank, rfl⟩
  rw [marked, Scan.skipped_map_char] at written
  exact written

theorem startsPlain_segmentsAt {piece : Piece} {pieces : List Piece} (p : Point)
    (separate : (piece :: pieces).IsChain fun a b => ¬ (a.isLiteral = true ∧ b.isLiteral = true))
    (literal : piece.isLiteral = true) : Scan.StartsPlain (segmentsAt p pieces) := by
  cases pieces with
  | nil => exact fun text => by simp [segmentsAt]
  | cons next pieces =>
    intro text head
    have apart := (List.isChain_cons_cons.mp separate).1
    cases next with
    | literal it => exact apart ⟨literal, rfl⟩
    | field tag => simp [segmentsAt, Piece.segmentAt] at head
    | loop tag => simp [segmentsAt, Piece.segmentAt] at head

theorem reads_typed (p : Point) {pieces : List Piece}
    (separate : pieces.IsChain fun a b => ¬ (a.isLiteral = true ∧ b.isLiteral = true)) :
    Scan.Reads p (segmentsAt p pieces) [] (typed pieces) := by
  induction pieces generalizing p with
  | nil => exact .nil
  | cons piece pieces ih =>
    have more := ih (p.after piece.text) separate.tail
    rw [typed, List.flatMap_cons, ← typed, segmentsAt]
    cases piece with
    | literal it => exact .literal it.nonempty it.plain (startsPlain_segmentsAt _ separate rfl) more
    | field tag => exact .tag (tag.written p) more
    | loop tag => exact .tag (tag.written p) more

/-- The scanner finds in a typed page what was typed, each piece where it stands. -/
theorem scan_typed (policy : NestedOpenPolicy) (pieces : List Piece)
    (separate : pieces.IsChain fun a b => ¬ (a.isLiteral = true ∧ b.isLiteral = true)) :
    scan policy (typed pieces) = .ok ⟨segmentsAt .start pieces, []⟩ :=
  Scan.scan_eq_ok_iff.mpr ⟨reads_typed .start separate, fun _ => rfl⟩

/-- Literal text that ends like the opening behind it begins. -/
private def literalSample : LiteralText where
  text := "<"
  nonempty := by decide
  plain := by decide

/-- A loop whose body ends like one. -/
private def loopSample : LoopTag where
  lead := ⟨[], by decide⟩
  item := ⟨⟨[' '], by decide⟩, "i", ⟨[' '], by decide⟩, by decide⟩
  separator := ":"
  ahead := ⟨['\t'], by decide⟩
  collection := "a."
  behind := ⟨[], by decide⟩
  close := ⟨['\n'], by decide⟩
  body := "i</:"
  last := ⟨[' '], by decide⟩
  before_nonempty := by decide
  behind_nonempty := by decide
  separated := by decide
  ahead_nonempty := by decide
  collected := by decide
  plain := by decide
  opened := Scan.unclosed_append Scan.unclosed_nil (by decide)

theorem scan_typed_loop :
    [Piece.literal literalSample, .loop loopSample].IsChain
        (fun a b => ¬ (a.isLiteral = true ∧ b.isLiteral = true)) ∧
      scan .error "<<:for i :\ta.:\n>i</:</: >".toList = .ok
        ⟨[.literal "<",
          .tag ⟨.loop "i" "a." "i</:" ⟨⟨2, 2, 16⟩, ⟨2, 6, 20⟩⟩, ⟨⟨1, 2, 1⟩, ⟨2, 11, 25⟩⟩⟩], []⟩ := by
  have separate : [Piece.literal literalSample, .loop loopSample].IsChain
      (fun a b => ¬ (a.isLiteral = true ∧ b.isLiteral = true)) := by
    simp [Piece.isLiteral]
  exact ⟨separate, scan_typed .error _ separate⟩

end Fieldmark
