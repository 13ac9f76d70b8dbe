import Stencil.Value.Convert

/-!
# Contexts

The named values that a template is rendered with.
-/

namespace Stencil

/-- Values by name. -/
structure Context where
  entries : Entries Value
  deriving Inhabited

namespace Context

def empty : Context := ⟨[]⟩

def insert (context : Context) (name : String) (value : Value) : Context :=
  ⟨context.entries.insert name value⟩

def get? (context : Context) (name : String) : Option Value :=
  context.entries.find? name

def contains (context : Context) (name : String) : Bool :=
  (context.get? name).isSome

instance : ToValue Context := ⟨fun context => .map context.entries⟩

end Context

end Stencil
