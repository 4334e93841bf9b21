import DtgProxy.Language.Normalize
import DtgProxy.Language.Parser

/-! # The compiler -/
namespace DtgProxy.Language

def validateOutput (program : LogicalProgram) : Outcome Unit :=
  match validateProgram program with
  | .ok () => .ok ()
  | .error error => reject "DTG-LANG-IR-VALIDATION" error.message

def compile (source : String) (catalog : SchemaCatalog) : Outcome LogicalProgram := do
  let tokens ← lex source
  let ast ← parse tokens
  let typed ← analyze catalog ast
  let program ← normalize typed
  validateOutput program
  .ok program

end DtgProxy.Language
