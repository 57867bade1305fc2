/-!
Lines of the log.
-/

set_option autoImplicit false
set_option relaxedAutoImplicit false

namespace Rv32Asm

/-- The line that a message makes. The newline that ends a line may be part of the message
already, so the last newline of a message adds nothing. -/
def logLine (message : String) : String :=
  match message.toList.reverse with
  | '\n' :: rest => String.ofList rest.reverse
  | _ => message

example : logLine "a\nb\n\n" = "a\nb\n" ∧ logLine "a" = "a" := by decide +kernel

end Rv32Asm
