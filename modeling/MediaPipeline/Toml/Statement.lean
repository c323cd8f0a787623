import MediaPipeline.Toml.Scalar

/-!
# Statements

A document is a list of statements, each at the end of its line: entries with their dotted keys, and
headers of tables.
-/

namespace MediaPipeline.Toml

inductive Statement where
  | assign (path : List String) (value : Value)
  | header (path : List String)
  /-- A header in double brackets. -/
  | nextHeader (path : List String)
  deriving Repr

/-! ## Keys -/

def isBareKey (c : Char) : Bool := c.isAlphanum || c == '-' || c == '_'

/-- One part of a dotted key with the blanks around it. -/
def keyPart? (cs : List Char) : Option (String × List Char) := do
  let cs := skipBlanks cs
  let (key, rest) ← match cs with
    | '"' :: _ => Quote.double.quotedLine? cs
    | '\x27' :: _ => Quote.single.quotedLine? cs
    | _ =>
      let key := cs.takeWhile isBareKey
      if key.isEmpty then none else some (String.ofList key, cs.dropWhile isBareKey)
  return (key, skipBlanks rest)

/-- Keys have fewer parts than this, and values are nested less deep. -/
def depthLimit : Nat := 80

def path? (cs : List Char) : Option (List String × List Char) :=
  let (path, rest) := separated '.' keyPart? cs
  if path.isEmpty ∨ depthLimit ≤ path.length then none else some (path, rest)

/-! ## Values -/

/-- The values of an array, after its opening bracket. A comma may follow the last one. -/
def array? (item : Reader Value) (cs : List Char) : Option (Value × List Char) := do
  let spaced : Reader Value := fun cs => do
    let (value, rest) ← item (skipGap false cs)
    return (value, skipGap false rest)
  let (values, rest) := separated ',' spaced cs
  let rest := if values.isEmpty then rest else (expect? ',' rest).getD rest
  return (.array values, ← expect? ']' (skipGap false rest))

def keyValue? (item : Reader Value) (cs : List Char) :
    Option ((List String × Value) × List Char) := do
  let (path, rest) ← path? cs
  let (value, rest) ← item (skipBlanks (← expect? '=' rest))
  return ((path, value), skipBlanks rest)

/-- The entries of a table in braces, after the opening one. -/
def braces? (item : Reader Value) (cs : List Char) : Option (Value × List Char) := do
  let (entries, rest) := separated ',' (keyValue? item) cs
  let table ← entries.foldlM (fun t (path, value) => Table.assign value path t) []
  return (.table .braces table, ← expect? '}' (skipBlanks rest))

/-- A value in which arrays and tables are nested no deeper than the first argument says. -/
def value? : Nat → Reader Value
  | 0 => scalar?
  | depth + 1 => fun cs =>
    match cs with
    | '[' :: rest => array? (value? depth) rest
    | '{' :: rest => braces? (value? depth) rest
    | cs => scalar? cs

/-! ## Documents -/

def statement? (cs : List Char) : Option (Statement × List Char) :=
  match cs with
  | '[' :: '[' :: rest => do
    let (path, rest) ← path? rest
    return (.nextHeader path, ← expect? ']' (← expect? ']' rest))
  | '[' :: rest => do
    let (path, rest) ← path? rest
    return (.header path, ← expect? ']' rest)
  | cs => do
    let ((path, value), rest) ← keyValue? (value? (depthLimit - 1)) cs
    return (.assign path value, rest)

def statements? (cs : List Char) : Option (List Statement) :=
  match skipGap false cs with
  | [] => some []
  | rest =>
    match statement? rest with
    | none => none
    | some (statement, rest) =>
      match endLine? rest with
      | none => none
      | some rest =>
        if rest.length < cs.length then (statements? rest).map (statement :: ·) else none
termination_by cs.length

end MediaPipeline.Toml
