import Stencil.Entries
import Stencil.Source.Error
import Stencil.Text.Ascii

/-!
# Templates in memory
-/

namespace Stencil

/-- A name without the slash at its start, if it has one; of several slashes one is dropped. -/
def withoutSlash (name : String) : String :=
  match name.toList with
  | '/' :: rest => String.ofList rest
  | _ => name

/-- The texts of templates by name. -/
structure MemoryStore where
  templates : Entries Bytes

namespace MemoryStore

def empty : MemoryStore := ⟨[]⟩

def insert (store : MemoryStore) (name : String) (text : Bytes) : MemoryStore :=
  ⟨store.templates.insert name text⟩

/-- The text of a name. One slash at the start of the name does not count. -/
def load (store : MemoryStore) (name : String) : Except LoadError Bytes :=
  match store.templates.find? (withoutSlash name) with
  | some text => .ok text
  | none => .error (.notFound (withoutSlash name))

end MemoryStore

end Stencil
