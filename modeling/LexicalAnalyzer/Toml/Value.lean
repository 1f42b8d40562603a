/-!
Values of TOML 1.0, and what can be wrong with a document. Numbers other than integers and points
in time are kept as they are written: nothing here computes with them.
-/
namespace LexicalAnalyzer

namespace Toml

inductive Value where
  | string (text : String)
  | integer (value : Int)
  | float (written : String)
  | boolean (value : Bool)
  | dateTime (written : String)
  | array (items : List Value)
  /-- An inline table: dotted keys and their values. -/
  | table (pairs : List (List String × Value))
  deriving Repr

inductive Error where
  | unexpectedEnd
  | unexpected (found : Char)
  /-- An escape that stands for no character. -/
  | badEscape
  /-- A bare word that is no boolean, number or point in time. -/
  | badScalar (written : String)
  /-- Brackets, or the parts of a key, are nested too deeply. -/
  | tooDeep
  | duplicateKey (key : String)
  /-- A key leads through something that is no table, or that is closed. -/
  | notATable (key : String)
  | wrongType (key wanted : String)
  deriving DecidableEq, Repr

def Error.message : Error → String
  | .unexpectedEnd => "unexpected end of document"
  | .unexpected found => s!"unexpected character '{found}'"
  | .badEscape => "invalid escape sequence"
  | .badScalar written => s!"invalid value '{written}'"
  | .tooDeep => "nested too deeply"
  | .duplicateKey key => s!"duplicate key '{key}'"
  | .notATable key => s!"key '{key}' is not a table that can be extended"
  | .wrongType key wanted => s!"key '{key}' must be a {wanted}"

end Toml

end LexicalAnalyzer
