import Fieldmark.Yaml.Cursor

/-!
# Plain and quoted scalars

Scalars that run over lines are folded: blanks around the end of a line go, one line feed becomes
a space, and of several one is left out. Plain scalars end where punctuation or indentation says
so, quoted ones at their quote.
-/

namespace Fieldmark

namespace Yaml

/-- What stands between two words. -/
inductive Gap where
  /-- Blanks within a line. -/
  | blanks (text : List Char)
  /-- The end of a line, and those of the empty lines behind it. A line joined by a backslash ends
  with no text. -/
  | breaks (first more : List Char)

namespace Gap

/-- What a gap contributes to a scalar. -/
def text : Gap → List Char
  | blanks text => text
  | breaks ['\n'] [] => [' ']
  | breaks ['\n'] more => more
  | breaks first more => first ++ more

def hasBreak : Gap → Bool
  | blanks _ => false
  | breaks .. => true

end Gap

namespace Reading

/-- The ends of empty lines. No tab may stand in front of column `indent`. -/
def emptyLines (indent : Nat) : Nat → Reading (List Char)
  | 0 => pure []
  | fuel + 1 => do
    match ← peek with
    | none => return []
    | some c =>
      if isBlank c then
        if c = '\t' ∧ (← place).column < indent then failure
        skip 1
        emptyLines indent fuel
      else if isBreak c then
        let text ← takeBreak
        return text ++ (← emptyLines indent fuel)
      else return []

/-- Blanks and ends of lines. -/
def gap (indent : Nat) : Reading Gap := do
  let blanks ← takeWhile isBlank
  match ← peek with
  | none => return .blanks blanks
  | some c =>
    if isBreak c then
      let first ← takeBreak
      return .breaks first (← emptyLines indent (← left))
    else return .blanks blanks

/-! ## Plain scalars -/

/-- The punctuation of flow collections that ends a plain scalar in them. -/
def isFlowMark (c : Char) : Bool := c = ',' || c = '[' || c = ']' || c = '{' || c = '}'

/-- The characters of a plain scalar up to the next blank. In flow collections, a colon must not
stand before their punctuation. -/
def plainWord? (inFlow : Bool) : List Char → Option (List Char)
  | [] => some []
  | c :: rest =>
    let next := rest.head?
    if isBlankOrBreak c then some []
    else if inFlow ∧ c = ':' ∧ (next = some '?' ∨ (next.map isFlowMark).getD false) then none
    else if c = ':' ∧ endsWord next then some []
    else if inFlow ∧ isFlowMark c then some []
    else (plainWord? inFlow rest).map (c :: ·)

def plainWord (inFlow : Bool) : Reading (List Char) := do
  let word ← (plainWord? inFlow (← place).rest : Option (List Char))
  skip word.length
  return word

/-- The rest of a plain scalar behind a word, and whether a line ended behind its last word. -/
def plainRest (inFlow : Bool) (indent : Nat) : Nat → Reading (List Char × Bool)
  | 0 => pure ([], false)
  | fuel + 1 => do
    if ((← peek).map isBlankOrBreak).getD false then
      let gap ← gap indent
      if !inFlow ∧ (← place).column < indent then return ([], gap.hasBreak)
      if (← atDocumentMark) ∨ (← peek) = some '#' then return ([], gap.hasBreak)
      let word ← plainWord inFlow
      if word.isEmpty then return ([], gap.hasBreak)
      let (more, broken) ← plainRest inFlow indent fuel
      return (gap.text ++ word ++ more, broken)
    else return ([], false)

/-- A plain scalar whose lines begin at column `indent` or behind it, and whether a line ended
behind its last word. -/
def plain (inFlow : Bool) (indent : Nat) : Reading (List Char × Bool) := do
  let word ← plainWord inFlow
  let (more, broken) ← plainRest inFlow indent (← left)
  return (word ++ more, broken)

/-! ## Quoted scalars -/

def hexValue? (c : Char) : Option Nat :=
  if c.isDigit then some (c.toNat - '0'.toNat)
  else if 'a' ≤ c ∧ c ≤ 'f' then some (c.toNat - 'a'.toNat + 10)
  else if 'A' ≤ c ∧ c ≤ 'F' then some (c.toNat - 'A'.toNat + 10)
  else none

/-- A number in exactly `width` hexadecimal digits. -/
def hexNumber (width : Nat) : Reading Nat := do
  let digits := (← place).rest.take width
  if digits.length ≠ width then failure
  let n ← (digits.foldlM (fun n c => (hexValue? c).map (n * 16 + ·)) 0 : Option Nat)
  skip width
  return n

/-- A character given by its number. -/
def numberedChar (width : Nat) : Reading (List Char) := do
  let n ← hexNumber width
  if (0xD800 ≤ n ∧ n ≤ 0xDFFF) ∨ 0x10FFFF < n then failure
  return [Char.ofNat n]

/-- The character of an escape, from its backslash on. -/
def escape : Reading (List Char) := do
  skip 1
  let c? ← peek
  skip 1
  match c? with
  | some '0' => return ['\x00']
  | some 'a' => return ['\x07']
  | some 'b' => return ['\x08']
  | some 't' => return ['\t']
  | some '\t' => return ['\t']
  | some 'n' => return ['\n']
  | some 'v' => return ['\x0b']
  | some 'f' => return ['\x0c']
  | some 'r' => return ['\r']
  | some 'e' => return ['\x1b']
  | some ' ' => return [' ']
  | some '"' => return ['"']
  | some '/' => return ['/']
  | some '\\' => return ['\\']
  | some 'N' => return ['\u0085']
  | some '_' => return ['\u00a0']
  | some 'L' => return ['\u2028']
  | some 'P' => return ['\u2029']
  | some 'x' => numberedChar 2
  | some 'u' => numberedChar 4
  | some 'U' => numberedChar 8
  | _ => failure

/-- A line joined to the next by the backslash that stands here. -/
def joinedLine : Reading (List Char) := do
  skip 1
  let _ ← takeBreak
  return (Gap.breaks [] (← emptyLines 0 (← left))).text

/-- A quoted scalar behind its opening quote. A single quote is written twice inside; only double
quotes have escapes. -/
def quotedRest (quote : Char) : Nat → Reading (List Char)
  | 0 => failure
  | fuel + 1 => do
    if ← atDocumentMark then failure
    let c := (← place).rest.head?
    let next := (← place).rest[1]?
    match c with
    | none => failure
    | some c =>
      if c = quote then
        if quote = '\'' ∧ next = some quote then
          skip 2
          return quote :: (← quotedRest quote fuel)
        else
          skip 1
          return []
      else
        let part ←
          if isBlankOrBreak c then (do return (← gap 0).text)
          else if quote = '"' ∧ c = '\\' then
            if (next.map isBreak).getD false then joinedLine else escape
          else (do skip 1; return [c])
        return part ++ (← quotedRest quote fuel)

/-- A quoted scalar. -/
def quoted (quote : Char) : Reading (List Char) := do
  skip 1
  quotedRest quote ((← left) + 1)

end Reading

end Yaml

end Fieldmark
