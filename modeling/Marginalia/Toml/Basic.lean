/-!
# TOML values

What a TOML text says.  Numbers with a fraction or an exponent, and dates and times, are
kept as they were written.
-/

namespace Marginalia

inductive Toml where
  | text (value : String)
  | integer (value : Int)
  | float (literal : String)
  | boolean (value : Bool)
  | moment (literal : String)
  | array (items : List Toml)
  | table (entries : List (String × Toml))
  deriving Repr, Inhabited

namespace Toml

/-- A parser of the text in front of it, which gives a value and what follows it. -/
abbrev Reader (α : Type) := List Char → Option (α × List Char)

end Toml

end Marginalia
