import Stencil.Outcome
import Stencil.Entries
import Stencil.Scope
import Stencil.Context
import Stencil.Text.Ascii
import Stencil.Text.Utf8
import Stencil.Text.Printable
import Stencil.Text.Quoted
import Stencil.Text.Upper
import Stencil.Text.Segments
import Stencil.Number.Binary64
import Stencil.Number.Shortest
import Stencil.Number.Layout
import Stencil.Number.Numeral
import Stencil.Value.Basic
import Stencil.Value.Text
import Stencil.Value.Convert
import Stencil.Template.Basic
import Stencil.Template.Display
import Stencil.Template.Variables
import Stencil.Parse.Error
import Stencil.Parse.Scan
import Stencil.Parse.Chain
import Stencil.Parse.Basic
import Stencil.Parse.Outline
import Stencil.Tag.Argument
import Stencil.Tag.Basic
import Stencil.Tag.Registry
import Stencil.Tag.Builtin
import Stencil.Tag.Host
import Stencil.Render.Error
import Stencil.Render.Basic
import Stencil.Compile.Error
import Stencil.Compile.Basic
import Stencil.Compile.Load
import Stencil.Source.Error
import Stencil.Source.Memory
import Stencil.Source.File
import Stencil.Source.Basic
import Stencil.Engine
import Stencil.Json.Basic
import Stencil.Json.Numeral
import Stencil.Json.Document
import Stencil.Json.Writer
import Stencil.Json.Codec
import Stencil.Proofs.Tag.Builtin
import Stencil.Proofs.Template.Tags
import Stencil.Proofs.Template.Variables
import Stencil.Proofs.Template.Renaming
import Stencil.Proofs.Value.Chunks
import Stencil.Proofs.Value.Renderables
import Stencil.Proofs.Value.Texts
import Stencil.Proofs.Source.Containment
import Stencil.Proofs.Scope.Lookup
import Stencil.Proofs.Scope.Guards
import Stencil.Proofs.Render.Steady
import Stencil.Proofs.Render.Lockstep
import Stencil.Proofs.Render.Noninterference
import Stencil.Proofs.Render.Safety
import Stencil.Proofs.Render.Restoring
import Stencil.Proofs.Render.Transparency
import Stencil.Proofs.Render.Uppercase
import Stencil.Proofs.Render.Hygiene
import Stencil.Proofs.Render.Validity
import Stencil.Proofs.Render.Loops
import Stencil.Proofs.Render.Alternatives
import Stencil.Proofs.Json.Parts
import Stencil.Proofs.Json.Untagged
import Stencil.Proofs.Json.RoundTrip
import Stencil.Proofs.Text.Utf8
import Stencil.Proofs.Text.Runs
import Stencil.Proofs.Text.Validity
import Stencil.Proofs.Parse.Nesting
import Stencil.Proofs.Parse.Rounds
import Stencil.Proofs.Parse.Lists
import Stencil.Proofs.Parse.Braces
import Stencil.Proofs.Parse.Parameters
import Stencil.Proofs.Parse.Grammar
import Stencil.Proofs.Parse.Chains
import Stencil.Proofs.Parse.Spelling
import Stencil.Proofs.Parse.Bodies
import Stencil.Proofs.Parse.Appending
import Stencil.Proofs.Parse.Escaping
import Stencil.Proofs.Parse.Positions
import Stencil.Proofs.Parse.Validity
import Stencil.Proofs.Parse.Grouping
import Stencil.Proofs.Parse.Cursor
import Stencil.Proofs.Parse.Bounds
import Stencil.Proofs.Compile.Related
import Stencil.Proofs.Compile.Inclusion
import Stencil.Proofs.Compile.Fresh
import Stencil.Proofs.Compile.Coherence
import Stencil.Proofs.Compile.Yields
import Stencil.Proofs.Compile.Calls
import Stencil.Proofs.Compile.Allowance
import Stencil.Proofs.Compile.Judgement
import Stencil.Proofs.Compile.Outcomes
import Stencil.Proofs.Compile.Variables
import Stencil.Proofs.Compile.Failing
import Stencil.Proofs.Compile.Growth
import Stencil.Proofs.Compile.Appending
import Stencil.Proofs.Compile.Validity
import Stencil.Proofs.Compile.Sources
import Stencil.Proofs.Engine.Workspace
import Stencil.Proofs.Engine.History
import Stencil.Proofs.Engine.Nested
import Stencil.Proofs.Engine.Loading
import Stencil.Proofs.Engine.Termination
import Stencil.Proofs.Engine.Rendering
import Stencil.Proofs.Engine.Provenance
import Stencil.Proofs.Engine.Caching
import Stencil.Proofs.Engine.Appending
import Stencil.Proofs.Engine.Concatenation
import Stencil.Proofs.Engine.Escaping
import Stencil.Proofs.Engine.Positions
import Stencil.Proofs.Engine.Validity
import Stencil.Proofs.Engine.Sources
import Stencil.Proofs.Engine.Variables
