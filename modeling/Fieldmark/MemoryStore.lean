import Fieldmark.Path
import Fieldmark.Value

/-!
# Documents in memory

A store of documents by path. Slashes around a path carry no meaning, so `/posts/hello` and
`posts/hello/` name one document.
-/

namespace Fieldmark

structure MemoryStore where
  documents : Fields Value

namespace MemoryStore

def empty : MemoryStore := ⟨[]⟩

/-- Stores a document in the place of any other one at its path. -/
def insert (store : MemoryStore) (path : String) (value : Value) : MemoryStore :=
  ⟨store.documents.insert (Path.trimSlashes path) value⟩

def get (store : MemoryStore) (path : String) : Except Problem Value :=
  match store.documents.lookup (Path.trimSlashes path) with
  | some value => .ok value
  | none => .error (.notFound path)

end MemoryStore

end Fieldmark
