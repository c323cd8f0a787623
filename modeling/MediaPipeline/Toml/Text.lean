/-!
# Characters, gaps and quoted texts

The smallest parts of a TOML document. A reader takes its part off the front of the characters and
returns what it has read with the rest, or nothing if the part is not there.
-/

namespace MediaPipeline.Toml

abbrev Reader (α : Type) := List Char → Option (α × List Char)

/-! ## Gaps -/

def isBlank (c : Char) : Bool := c == ' ' || c == '\t'

/-- What comments and quoted texts may hold on one line: tabs and all but control characters. -/
def isPrintable (c : Char) : Bool := c == '\t' || (' ' ≤ c && c != '\x7f')

def skipBlanks (cs : List Char) : List Char := cs.dropWhile isBlank

def newline? : List Char → Option (List Char)
  | '\n' :: rest => some rest
  | '\r' :: '\n' :: rest => some rest
  | _ => none

theorem length_skipBlanks (cs : List Char) : (skipBlanks cs).length ≤ cs.length :=
  (List.dropWhile_sublist _).length_le

theorem length_of_newline? {cs rest : List Char} (h : newline? cs = some rest) :
    rest.length < cs.length := by
  unfold newline? at h
  split at h
  all_goals cases h
  all_goals (simp only [List.length_cons]; omega)

/-- What follows the blanks and the comment that may end a line. -/
def endLine? (cs : List Char) : Option (List Char) :=
  let rest := match skipBlanks cs with
    | '#' :: comment => comment.dropWhile isPrintable
    | rest => rest
  if rest.isEmpty then some [] else newline? rest

def skipBlankLines : List Char → List Char
  | [] => []
  | '\n' :: rest => skipBlankLines rest
  | '\r' :: '\n' :: rest => skipBlankLines rest
  | c :: rest => if isBlank c then skipBlankLines rest else c :: rest

theorem length_skipBlankLines (cs : List Char) : (skipBlankLines cs).length ≤ cs.length := by
  fun_induction skipBlankLines cs <;> simp only [List.length_cons, List.length_nil] <;> omega

/-- Skips blanks, line ends and comments. -/
def skipGap (inComment : Bool) : List Char → List Char
  | [] => []
  | '\n' :: rest => skipGap false rest
  | '\r' :: '\n' :: rest => skipGap false rest
  | c :: rest =>
    if inComment then if isPrintable c then skipGap true rest else c :: rest
    else if c == '#' then skipGap true rest
    else if isBlank c then skipGap false rest
    else c :: rest

def expect? (c : Char) : List Char → Option (List Char)
  | [] => none
  | d :: rest => if d = c then some rest else none

/-- Items with a separator between them, as many as there are. A separator that no item follows is
left in the rest. -/
def separated {α : Type} (separator : Char) (item : Reader α) (cs : List Char) :
    List α × List Char :=
  match item cs with
  | none => ([], cs)
  | some (a, rest) =>
    match expect? separator rest with
    | none => ([a], rest)
    | some next =>
      if next.length < cs.length then
        match separated separator item next with
        | ([], _) => ([a], rest)
        | (as, rest) => (a :: as, rest)
      else ([a], rest)
termination_by cs.length

/-! ## Digits -/

def digitValue (c : Char) : Nat :=
  if c.isDigit then c.toNat - '0'.toNat
  else if c.isLower then c.toNat - 'a'.toNat + 10
  else c.toNat - 'A'.toNat + 10

def isHexDigit (c : Char) : Bool :=
  c.isDigit || ('a' ≤ c && c ≤ 'f') || ('A' ≤ c && c ≤ 'F')

def ofDigits (base : Nat) (digits : List Char) : Nat :=
  digits.foldl (fun n c => n * base + digitValue c) 0

def fixedDigits? (base n : Nat) (isDigit : Char → Bool) (cs : List Char) :
    Option (Nat × List Char) :=
  let digits := cs.take n
  if digits.length = n ∧ digits.all isDigit then some (ofDigits base digits, cs.drop n) else none

theorem length_of_fixedDigits? {base n value : Nat} {isDigit : Char → Bool} {cs rest : List Char}
    (h : fixedDigits? base n isDigit cs = some (value, rest)) : rest.length ≤ cs.length := by
  simp only [fixedDigits?] at h
  split at h
  · simp only [Option.some.injEq, Prod.mk.injEq] at h
    simp [← h.2]
  · cases h

/-! ## Quoted texts -/

/-- The character that an escape stands for; the backslash has been read. -/
def escape? : Reader Char
  | 'b' :: rest => some ('\x08', rest)
  | 't' :: rest => some ('\t', rest)
  | 'n' :: rest => some ('\n', rest)
  | 'f' :: rest => some ('\x0c', rest)
  | 'r' :: rest => some ('\r', rest)
  | '"' :: rest => some ('"', rest)
  | '\\' :: rest => some ('\\', rest)
  | 'u' :: rest => codePoint? 4 rest
  | 'U' :: rest => codePoint? 8 rest
  | _ => none
where
  codePoint? (n : Nat) (cs : List Char) : Option (Char × List Char) :=
    match fixedDigits? 16 n isHexDigit cs with
    | some (code, rest) => if code.isValidChar then some (Char.ofNat code, rest) else none
    | none => none

theorem length_of_escape? {cs rest : List Char} {c : Char} (h : escape? cs = some (c, rest)) :
    rest.length ≤ cs.length := by
  have code {n : Nat} {cs : List Char} (h : escape?.codePoint? n cs = some (c, rest)) :
      rest.length ≤ cs.length := by
    simp only [escape?.codePoint?] at h
    split at h
    · next hd =>
      split at h
      · simp only [Option.some.injEq, Prod.mk.injEq] at h
        exact h.2 ▸ length_of_fixedDigits? hd
      · cases h
    · cases h
  unfold escape? at h
  split at h
  all_goals first
    | exact Nat.le_succ_of_le (code h)
    | (simp only [Option.some.injEq, Prod.mk.injEq] at h
       simp [← h.2])
    | cases h

/-- How a text is quoted. Only between double quotes does a backslash escape. -/
inductive Quote where
  | double
  | single
  deriving DecidableEq, Repr

namespace Quote

def mark : Quote → Char
  | double => '"'
  | single => '\x27'

def escapes (q : Quote) (c : Char) : Bool := q == double && c == '\\'

/-- A text on one line, up to its closing quote. -/
def line? (q : Quote) : Reader (List Char)
  | [] => none
  | c :: rest =>
    if c == q.mark then some ([], rest)
    else if q.escapes c then
      match h : escape? rest with
      | none => none
      | some (c, rest') =>
        have := length_of_escape? h
        (q.line? rest').map fun (text, rest) => (c :: text, rest)
    else if isPrintable c then (q.line? rest).map fun (text, rest) => (c :: text, rest)
    else none
termination_by cs => cs.length
decreasing_by all_goals (simp only [List.length_cons]; omega)

/-- What follows an escaped line end, which takes the blanks and line ends after it along. -/
def continuation? (cs : List Char) : Option (List Char) :=
  (newline? (skipBlanks cs)).map skipBlankLines

theorem length_of_continuation? {cs rest : List Char} (h : continuation? cs = some rest) :
    rest.length ≤ cs.length := by
  obtain ⟨next, hn, rfl⟩ := Option.map_eq_some_iff.1 h
  have h1 := length_skipBlankLines next
  have h2 := length_of_newline? hn
  have h3 := length_skipBlanks cs
  omega

/-- The end of a text on several lines: three quotes. Up to two more right before them belong to the
text. -/
def closing? (q : Quote) (cs : List Char) : Option (List Char × List Char) :=
  let quotes := (cs.take 5).takeWhile (· == q.mark)
  if quotes.length < 3 then none else some (quotes.drop 3, cs.drop quotes.length)

/-- A text on several lines, up to its closing quotes. Every line end is a line feed in the text. -/
def lines? (q : Quote) (cs : List Char) : Option (List Char × List Char) :=
  match q.closing? cs with
  | some closed => some closed
  | none =>
    match h : newline? cs with
    | some rest =>
      have := length_of_newline? h
      (q.lines? rest).map fun (text, rest) => ('\n' :: text, rest)
    | none =>
      match cs with
      | [] => none
      | c :: rest =>
        if q.escapes c then
          match hc : continuation? rest with
          | some rest' =>
            have := length_of_continuation? hc
            q.lines? rest'
          | none =>
            match he : escape? rest with
            | none => none
            | some (c, rest') =>
              have := length_of_escape? he
              (q.lines? rest').map fun (text, rest) => (c :: text, rest)
        else if isPrintable c then (q.lines? rest).map fun (text, rest) => (c :: text, rest)
        else none
termination_by cs.length
decreasing_by
  · omega
  all_goals (simp only [List.length_cons]; omega)

def quotedLine? (q : Quote) (cs : List Char) : Option (String × List Char) := do
  let (text, rest) ← q.line? (← expect? q.mark cs)
  return (String.ofList text, rest)

/-- A text with its quotes, on several lines if there are three of them. A line end right after the
opening quotes is no part of the text. -/
def quoted? (q : Quote) (cs : List Char) : Option (String × List Char) :=
  if cs.take 3 = [q.mark, q.mark, q.mark] then do
    let opened := cs.drop 3
    let (text, rest) ← q.lines? ((newline? opened).getD opened)
    return (String.ofList text, rest)
  else q.quotedLine? cs

end Quote

end MediaPipeline.Toml
