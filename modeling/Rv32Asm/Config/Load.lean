import Rv32Asm.Config
import Rv32Asm.Json.Parse
import Rv32Asm.Json.Update

/-!
Configurations from JSON documents. What a document leaves out has its standard value.
-/

set_option autoImplicit false
set_option relaxedAutoImplicit false

namespace Rv32Asm

open Rv32Asm.Json

inductive ConfigLoadFault where
  /-- The document is not JSON, or its values have the wrong types. -/
  | malformed
  | refused (fault : ConfigFault)
deriving DecidableEq, Repr

namespace Config

structure Draft where
  byteOrder : String
  extensions : Slots String

def Draft.update : Update Draft :=
  .record "Config" "config"
    [.lens "byteOrder" Draft.byteOrder (fun d s => { d with byteOrder := s }) (.text "string"),
     .lens "extensions" Draft.extensions (fun d s => { d with extensions := s })
       (.list "[]string" "" (.text "string"))]

def Draft.standard : Draft :=
  ⟨Config.standard.byteOrder, .ofList Config.standard.extensionList⟩

def load (content : Bytes) : Except ConfigLoadFault Config :=
  match Json.parse? content with
  | none => .error .malformed
  | some document =>
    match Draft.update.run document Draft.standard with
    | .error _ => .error .malformed
    | .ok draft =>
      let config : Config := ⟨draft.byteOrder, draft.extensions.toList?⟩
      match config.validate with
      | .error fault => .error (.refused fault)
      | .ok _ => .ok config

end Config

end Rv32Asm
