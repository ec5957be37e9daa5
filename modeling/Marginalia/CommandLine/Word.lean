/-!
# Words of a command line

A word that starts with dashes names an option: two dashes stand before a long name, behind
which a value may follow an equals sign, and a single dash stands before letters.  Two dashes
alone say that no more options follow, and one dash alone is a word like any other.
-/

namespace Marginalia

namespace CommandLine

inductive Word where
  | separator
  | long (name : String) (value : Option String)
  | short (letter : Char) (rest : List Char)
  | plain (text : String)
  deriving DecidableEq, Repr

namespace Word

/-- A long name, and the value behind the first equals sign. -/
def ofLong (cs : List Char) : Word :=
  let name := String.ofList (cs.takeWhile (· != '='))
  match cs.dropWhile (· != '=') with
  | [] => .long name none
  | _ :: value => .long name (some (String.ofList value))

def ofText (text : String) : Word :=
  match text.toList with
  | ['-', '-'] => .separator
  | '-' :: '-' :: cs => ofLong cs
  | '-' :: letter :: rest => .short letter rest
  | _ => .plain text

/-- The value that is attached to a letter; an equals sign in front of it may be left out. -/
def attached? : List Char → Option String
  | [] => none
  | '=' :: value => some (String.ofList value)
  | value => some (String.ofList value)

end Word

end CommandLine

end Marginalia
