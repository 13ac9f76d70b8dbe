import Stencil.Proofs.Render.Transparency
import Stencil.Proofs.Text.Utf8

/-!
# The upper-case filter

`uppercased` makes its value when it is evaluated, from the text of a string or else from the bytes
of whatever the parameter stands for, and it has a closed gate where there is nothing. The bare tag
has an open gate and makes its bytes when `self` is put out. The two ways meet
(`Template.run_uppercased`): what the filter puts out is the upper case of what the bare tag does.
-/

namespace Stencil

/-- The value that a parameter stands for at a scope, null if there is none. -/
def Parameter.valueAt (parameter : Parameter) (scope : Scope) : Value :=
  (Argument.ofParameter scope parameter).value.getD .null

/-- Bytes in upper case: they are read as UTF-8, with replacement characters where they are not. -/
def Utf8.uppercase (s : Bytes) : Bytes :=
  encode (Unicode.upper (decodeLossy s))

theorem Utf8.uppercase_nil : uppercase [] = [] := by
  rw [uppercase, decodeLossy_nil, Unicode.upper_empty]
  rfl

namespace Tag

variable {σ : Type}

/-- The upper case of a string is that of what is read from its bytes, so strings are no
exception. -/
theorem evaluate_uppercased (scope : Scope) (invocation : Invocation Template)
    (argument : Argument) :
    (uppercased : Tag σ).evaluate scope invocation [argument] =
      match argument.value with
      | none => pure none
      | some value => do
        let bytes ← liftM value.toBytes
        return some (.string (Unicode.upper (Utf8.decodeLossy bytes))) := by
  have hstring (text : String) : (Value.string text).toBytes = .ok (Utf8.encode text) := rfl
  rcases argument with ⟨path, _ | value⟩ | text
  · rfl
  · cases value with
    | string text =>
      simp only [Argument.value, hstring]
      change _ = pure (some (Value.string (Unicode.upper (Utf8.decodeLossy (Utf8.encode text)))))
      rw [Utf8.decodeLossy_encode]
      rfl
    | _ => rfl
  · simp only [Argument.value, hstring]
    change _ = pure (some (Value.string (Unicode.upper (Utf8.decodeLossy (Utf8.encode text)))))
    rw [Utf8.decodeLossy_encode]
    rfl

end Tag

namespace Template

open RenderM
open Utf8 (uppercase)

variable {σ : Type}

/-- The bare tag puts out the value of its parameter. -/
theorem gives_parameter (parameter : Parameter) (source : String) (scope : Scope) :
    ((mk source [.invocation ⟨"", [parameter], none⟩]).render
      (Registry.builtins : Registry σ)).Gives scope (parameter.valueAt scope).toBytes := by
  refine gives_invocation ?_ source
  rw [renderTag]
  exact gives_renderThrough (Registry.find?_builtins "") rfl rfl (gives_renderSelf scope _)

/-- The filter puts out the value of its parameter in upper case. -/
theorem gives_uppercased (parameter : Parameter) (source : String) (scope : Scope) :
    ((mk source [.invocation ⟨"uppercased", [parameter], none⟩]).render
      (Registry.builtins : Registry σ)).Gives scope
        ((parameter.valueAt scope).toBytes.map uppercase) := by
  have hfind : (Registry.builtins : Registry σ).find? "uppercased" = some Tag.uppercased :=
    Registry.find?_builtins _
  have hevaluate := Tag.evaluate_uppercased (σ := σ) scope ⟨"uppercased", [parameter], none⟩
    (Argument.ofParameter scope parameter)
  unfold Parameter.valueAt
  cases hvalue : (Argument.ofParameter scope parameter).value with
  | none =>
    simp only [hvalue] at hevaluate
    have hnothing : Value.null.toBytes.map uppercase = .ok [] :=
      congrArg Except.ok Utf8.uppercase_nil
    rw [Option.getD_none, hnothing]
    refine gives_invocation_of_closed ?_ source
    rw [renderTag]
    exact gives_renderThrough_of_closed none hfind hevaluate rfl
  | some value =>
    simp only [hvalue] at hevaluate
    refine gives_invocation ?_ source
    rw [renderTag, Option.getD_some]
    cases hbytes : value.toBytes with
    | error e =>
      rw [hbytes] at hevaluate
      exact gives_renderThrough_of_error none hfind hevaluate
    | ok bytes =>
      rw [hbytes] at hevaluate
      change _ = pure (some (Value.string (Unicode.upper (Utf8.decodeLossy bytes)))) at hevaluate
      simp only [Except.map, uppercase]
      -- The tables of upper case are kept out of the comparisons that follow.
      generalize Unicode.upper (Utf8.decodeLossy bytes) = upper at hevaluate ⊢
      have hself : renderSelf.Gives _ (.ok (Utf8.encode upper)) :=
        gives_renderSelf (σ := σ) scope (.string upper)
      have hthrough : (renderThrough Registry.builtins _ none).Gives scope
          (Except.map some (.ok (Utf8.encode upper))) :=
        gives_renderThrough hfind hevaluate rfl hself
      exact hthrough

/-- **The filter puts the upper case on what the bare tag puts out.** For every parameter and at
every scope, `uppercased` succeeds exactly when the bare tag does, its output is then the upper case
of the other output, and a failure is the same failure. Neither leaves a trace. -/
theorem run_uppercased (parameter : Parameter) (source : String) (state : RenderState σ) :
    let bare := (mk source [.invocation ⟨"", [parameter], none⟩]).render Registry.builtins
    let filtered :=
      (mk source [.invocation ⟨"uppercased", [parameter], none⟩]).render Registry.builtins
    bare.run state = ((parameter.valueAt state.scope).toBytes, state) ∧
      filtered.run state = ((bare.run state).1.map uppercase, state) := by
  intro bare filtered
  have hbare : bare.run state = ((parameter.valueAt state.scope).toBytes, state) :=
    gives_parameter parameter source state.scope state.tags
  refine ⟨hbare, ?_⟩
  rw [hbare]
  exact gives_uppercased parameter source state.scope state.tags

/-- A renderable object inside an array need not put out valid UTF-8. -/
example :
    let items := [.string "ß", .renderable ⟨0, .ok [0x61, 0xFF]⟩]
    let scope := Scope.ofContext (.singleton "q" (.array items))
    let output (name : String) : Option Bytes :=
      (((mk "" [.invocation ⟨name, [.variable "q"], none⟩]).render
        (Registry.builtins : Registry Unit)).run ⟨scope, ()⟩).1.toOption
    output "" = some (Utf8.encode "[ß, a" ++ [0xFF] ++ Utf8.encode "]") ∧
      output "uppercased" = some (Utf8.encode "[SS, A\uFFFD]") := by
  decide +kernel

end Template

end Stencil
