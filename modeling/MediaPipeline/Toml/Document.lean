import MediaPipeline.Toml.Statement

/-!
# Documents

The table that the statements of a document build up.
-/

namespace MediaPipeline.Toml

/-- The table so far and the header under which entries are added. -/
structure Document where
  root : Table := []
  header : List String := []
  deriving Repr

namespace Document

def add? (d : Document) : Statement → Option Document
  | .assign path value => do
    return { d with root := ← Table.update (Table.assign value path) d.header d.root }
  | .header path => open? Table.openTable path
  | .nextHeader path => open? Table.openNext path
where
  open? (make : String → Table → Option Table) (path : List String) : Option Document := do
    let key ← path.getLast?
    return ⟨← Table.update (make key) path.dropLast d.root, path⟩

/-- A byte order mark in front is no part of the document. -/
def parse? (text : String) : Option Table := do
  let cs := match text.toList with
    | '\ufeff' :: cs => cs
    | cs => cs
  return (← (← statements? cs).foldlM add? {}).root

end Document

end MediaPipeline.Toml
