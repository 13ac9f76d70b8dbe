import Stencil.Source.File

/-!
# Sources

Where an engine takes the texts of its templates from.
-/

namespace Stencil

/-- A store in memory, or files under a root. -/
inductive Source where
  | memory (store : MemoryStore)
  | files (layout : FileLayout) (tree : FileTree)

namespace Source

def load : Source → String → Except LoadError Bytes
  | memory store, name => store.load name
  | files layout tree, name => layout.load tree name

/-- As many different names as can be loaded, one inside another, by texts that include each other.
A store answers to each of its names with and without a slash at the start. For files, every name
but the first is written somewhere in a file, so the length of all files is enough. -/
def nesting : Source → Nat
  | memory store => 2 * store.templates.length
  | files _ tree => tree.files.foldl (fun total file => total + file.2.length) 1

end Source

end Stencil
