import Marginalia.CommandLine.Given
import Marginalia.CommandLine.Word

/-!
# Reading a command line

The words of a level are read from the left.  An option takes the value that is attached to
it, or else the next word; a word without a name goes to the next place.  What an argument was
given is looked at only when the next one begins or the words are over, so a fault in a name
is found before a fault in the value in front of it.
-/

namespace Marginalia

namespace CommandLine

inductive Halt where
  | help (level : Level)
  /-- There is nothing on the command line. -/
  | nothingGiven
  | fault (fault : UsageFault)
  deriving DecidableEq, Repr

structure Reading where
  level : Level
  given : Given := {}
  /-- The argument being read, with the values that it has so far. -/
  pending : Option (Argument × List String) := none
  /-- Whether the next word is the value of an option. -/
  isAwaiting : Bool := false
  /-- The places still to be filled. -/
  places : List Argument := []
  /-- Whether all further words go to places. -/
  isPlain : Bool := false
  deriving DecidableEq, Repr

namespace Reading

def start (level : Level) : Reading :=
  { level, places := level.places }

def orHalt {α : Type} : Except UsageFault α → Except Halt α
  | .ok a => .ok a
  | .error fault => .error (.fault fault)

def settle (r : Reading) : Except Halt Reading :=
  match r.pending with
  | none => .ok r
  | some (a, texts) =>
      (orHalt (r.given.accept a texts)).map fun given =>
        { r with given, pending := none, isAwaiting := false }

def option (r : Reading) (a : Argument) (value : Option String) : Except Halt Reading := do
  let r ← r.settle
  match value with
  | none => return { r with pending := some (a, []), isAwaiting := true }
  | some text => return { r with given := ← orHalt (r.given.accept a [text]) }

def help (r : Reading) : Except Halt Reading := do
  let r ← r.settle
  .error (.help r.level)

def long (r : Reading) (name : String) (value : Option String) : Except Halt Reading :=
  match r.level.long? name with
  | some a => r.option a value
  | none =>
      if name = Level.helpName then
        match value with
        | none => r.help
        | some text => .error (.fault (.unneededValue text))
      else .error (.fault (.unexpected ("--" ++ name)))

/-- An option by its letter, with what follows the letter in the word. -/
def short (r : Reading) (letter : Char) (rest : List Char) : Except Halt Reading :=
  match r.level.short? letter with
  | some a => r.option a (Word.attached? rest)
  | none =>
      if letter = 'h' then r.help
      else .error (.fault (.unexpected ("-" ++ String.singleton letter)))

def surplus (r : Reading) (text : String) : UsageFault :=
  if r.level = .program ∧ ¬(r.isPlain ∧ r.level.isCommand text) then .unknownCommand text
  else .unexpected text

/-- A word for the next place.  A place that takes any number of words stays open. -/
def place (r : Reading) (text : String) : Except Halt Reading :=
  match r.places with
  | [] => .error (.fault (r.surplus text))
  | a :: places => do
      let isGoingOn := a.isRepeatable && (r.pending.map (·.1)) == some a
      let r ← if isGoingOn then .ok r else r.settle
      let texts := (r.pending.map (·.2)).getD []
      let places := if a.isRepeatable then a :: places else places
      return { r with pending := some (a, texts ++ [text]), isAwaiting := false, places }

/-- A word without a name: the value of an option that awaits one, or for a place. -/
def plain (r : Reading) (text : String) : Except Halt Reading :=
  match r.isAwaiting, r.pending with
  | true, some (a, _) => .ok { r with pending := some (a, [text]), isAwaiting := false }
  | _, _ => r.place text

def word (r : Reading) (text : String) : Except Halt Reading :=
  if r.isPlain then r.place text
  else
    match Word.ofText text with
    | .separator => .ok { r with isPlain := true }
    | .long name value => r.long name value
    | .short letter rest => r.short letter rest
    | .plain text => r.plain text

def stopsAt (r : Reading) (text : String) : Bool :=
  !r.isPlain && !r.isAwaiting && r.level.isCommand text

/-- Reads words up to a command, which is left with the words behind it. -/
def words (r : Reading) : List String → Except Halt (Reading × List String)
  | [] => .ok (r, [])
  | text :: rest =>
      if r.stopsAt text then .ok (r, text :: rest)
      else
        match r.word text with
        | .error halt => .error halt
        | .ok r => r.words rest

end Reading

end CommandLine

end Marginalia
