import Marginalia.Json.Reader

/-!
# Reading JSON of an expected kind

Readers for values of a known kind, straight from the text.  A value of another
kind is unsuitable, but a fault inside it comes first.  Members nobody asked for
are skipped by the lax reading, at any depth.
-/

namespace Marginalia

namespace Json

namespace Expect

def unsuitable {α : Type} (ahead : List Char) : Except Fault α :=
  .error ⟨.unsuitable, ahead, 0⟩

/--
What becomes of a value of the wrong kind: a scalar is read first, and a fault in
it goes before its being unsuitable.
-/
def mismatch {α : Type} : Reader α := fun cs =>
  match cs with
  | '[' :: _ => unsuitable cs
  | '\x7b' :: _ => unsuitable cs
  | _ =>
      match valueWith true 0 none cs with
      | .error fault => .error fault
      | .ok (_, rest) => unsuitable rest

def string : Reader String := fun cs =>
  match skipSpace cs with
  | [] => faultAtEnd .endInValue
  | '"' :: rest => stringBody true .plain [] rest
  | cs => mismatch cs

def natural (bound : Nat) : Reader Nat := fun cs =>
  match skipSpace cs with
  | [] => faultAtEnd .endInValue
  | c :: rest => do
      let number : Number × List Char ←
        if c = '-' then numberBody true true rest
        else if Text.isDigit c then numberBody true false (c :: rest)
        else mismatch (c :: rest)
      match number with
      | (.natural n, after) => if n ≤ bound then return (n, after) else unsuitable after
      | (_, after) => unsuitable after

def null : Reader Unit := fun cs =>
  match skipSpace cs with
  | [] => faultAtEnd .endInValue
  | 'n' :: rest => wordBody () ['u', 'l', 'l'] rest
  | cs => mismatch cs

def skipped (fuel : Nat) : Reader Unit := fun cs => do
  let (_, rest) ← value false fuel fuel cs
  return ((), rest)

def key : Reader String := fun cs =>
  match skipSpace cs with
  | [] => faultAtEnd .endInValue
  | '"' :: rest => stringBody true .plain [] rest
  | ahead => faultAt .keyMustBeString ahead

/-- One of a set of words: a string, or an object with the word as its one key and `null` in it. -/
def word {α : Type} (ofWord? : String → Option α) : Reader α := fun cs =>
  match skipSpace cs with
  | [] => faultAtEnd .endInValue
  | '"' :: rest => do
      let (name, rest) ← stringBody true .plain [] rest
      match ofWord? name with
      | some a => return (a, rest)
      | none => unsuitable rest
  | '\x7b' :: rest => do
      let (name, rest) ← key rest
      match ofWord? name with
      | none => unsuitable rest
      | some a => do
          let (_, rest) ← keyed null rest
          match skipSpace rest with
          | [] => faultAtEnd .endInObject
          | '\x7d' :: after => return (a, after)
          | ahead => faultAt .expectedValue ahead
  | cs => faultAt .expectedValue cs

def list {α : Type} (fuel : Nat) (item : Reader α) : Reader (List α) := fun cs =>
  match skipSpace cs with
  | [] => faultAtEnd .endInValue
  | '[' :: rest => do
      let step (acc : List α) : Reader (List α) := fun cs => do
        let (a, rest) ← item cs
        return (a :: acc, rest)
      let (items, rest) ← foldItems step fuel true [] rest
      return (items.reverse, rest)
  | cs => mismatch cs

structure Field (σ : Type) where
  key : String
  isRead : σ → Bool
  read : σ → Reader σ

def positional {σ : Type} : List (Field σ) → Bool → σ → Reader σ
  | [], _, acc, cs =>
      match skipSpace cs with
      | [] => faultAtEnd .endInList
      | ']' :: rest => .ok (acc, rest)
      | ahead => faultAt .trailingCharacters ahead
  | field :: fields, isFirst, acc, cs => do
      match ← nextItem isFirst cs with
      | .closed rest => unsuitable rest
      | .item cs => do
          let (acc, rest) ← field.read acc cs
          positional fields false acc rest

/-- A member of a record: a known key may come once, an unknown one is skipped. -/
def member {σ : Type} (fuel : Nat) (fields : List (Field σ)) (acc : σ) (name : String) :
    Reader σ := fun cs =>
  match fields.find? (fun field => field.key == name) with
  | some field =>
      if field.isRead acc then unsuitable cs else keyed (field.read acc) cs
  | none => do
      let (_, rest) ← keyed (skipped fuel) cs
      return (acc, rest)

/-- A record: an object with its fields by key, or a list with its fields by position. -/
def record {σ α : Type} (fuel : Nat) (fields : List (Field σ)) (empty : σ)
    (complete? : σ → Option α) : Reader α := fun cs =>
  match skipSpace cs with
  | [] => faultAtEnd .endInValue
  | '[' :: rest => do
      let (acc, rest) ← positional fields true empty rest
      match complete? acc with
      | some a => return (a, rest)
      | none => unsuitable rest
  | '\x7b' :: rest => do
      let (acc, rest) ← foldMembers true (member fuel fields) fuel true empty rest
      match complete? acc with
      | some a => return (a, rest)
      | none => unsuitable rest
  | cs => mismatch cs

def checked {α β : Type} (reader : Reader α) (check? : α → Option β) : Reader β := fun cs => do
  let (a, rest) ← reader cs
  match check? a with
  | some b => return (b, rest)
  | none => unsuitable rest

def whole {α : Type} (reader : Nat → Reader α) (cs : List Char) : Except Fault α :=
  reader (fuelFor cs) cs >>= ended

end Expect

end Json

end Marginalia
