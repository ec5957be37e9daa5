import Marginalia.Text.Blank
import Marginalia.Text.Utf8

/-!
# The environment

Named variables, and texts with references to them.  A reference is a name between
a dollar sign with an opening brace and the next closing brace; it stands for the value
of the variable, or for nothing when there is none.  A value is not looked through for
references again.
-/

namespace Marginalia

/--
Variables with their values: a block of entries, each of which is the bytes of a name, an
equals sign and the bytes of a value, which need not be text.
-/
structure Environment where
  entries : List (List UInt8) := []
  deriving DecidableEq, Repr, Inhabited

namespace Environment

/-- The bytes that the entry of a variable starts with. -/
def mark (name : String) : List UInt8 :=
  Text.Utf8.encode (name ++ "=")

def ofVariables (pairs : List (String × String)) : Environment :=
  ⟨pairs.map fun (name, value) => mark name ++ Text.Utf8.encode value⟩

/--
The bytes of the value of a variable.  A name finds the first entry that starts with the
name and an equals sign.
-/
def bytesOf? (e : Environment) (name : String) : Option (List UInt8) :=
  if name = "" then none else e.entries.findSome? (mark name).isPrefixOf?

/-- The value of a variable, if it is set and its value is text. -/
def lookup? (e : Environment) (name : String) : Option String :=
  (e.bytesOf? name).bind fun bytes => String.fromUTF8? ⟨bytes.toArray⟩

def value (e : Environment) (name : String) : String :=
  (e.lookup? name).getD ""

def splitAtBrace? (cs : List Char) : Option (List Char × List Char) :=
  match cs.dropWhile (· != '\x7d') with
  | [] => none
  | _ :: rest => some (cs.takeWhile (· != '\x7d'), rest)

theorem splitAtBrace?_length {cs name rest : List Char}
    (h : splitAtBrace? cs = some (name, rest)) : rest.length < cs.length := by
  have hlen : (cs.dropWhile (· != '\x7d')).length ≤ cs.length :=
    (List.dropWhile_sublist _).length_le
  unfold splitAtBrace? at h
  split at h
  · cases h
  · next c rest' heq =>
    rw [heq] at hlen
    simp only [Option.some.injEq, Prod.mk.injEq] at h
    rw [← h.2]
    simp only [List.length_cons] at hlen
    omega

/--
A text with the references in it replaced by values; `acc` holds what has been
written so far, the last character first.
-/
def expandChars (e : Environment) (acc : List Char) (cs : List Char) : List Char :=
  match cs with
  | [] => acc.reverse
  | '$' :: '\x7b' :: rest =>
      match _h : splitAtBrace? rest with
      | some (name, after) =>
          e.expandChars ((e.value (String.ofList name)).toList.reverse ++ acc) after
      | none => e.expandChars ('$' :: acc) ('\x7b' :: rest)
  | c :: rest => e.expandChars (c :: acc) rest
termination_by cs.length
decreasing_by
  · have := splitAtBrace?_length _h
    simp only [List.length_cons]
    omega
  · simp
  · simp

def expand (e : Environment) (s : String) : String :=
  String.ofList (e.expandChars [] s.toList)

end Environment

end Marginalia
