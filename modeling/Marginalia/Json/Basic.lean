/-!
# JSON values

A value as it was read: the members of an object stay in the order of the text
and a repeated key stays repeated.  Looking a key up gives its last value.
-/

namespace Marginalia

namespace Json

/--
A number by the way it was written.  A literal without fraction and exponent is
`natural` below 2^64 and `negative` down to -2^63, where the field holds the
magnitude; every other literal, minus zero among them, is `float` and keeps its
spelling.
-/
inductive Number where
  | natural (value : Nat)
  | negative (magnitude : Nat)
  | float (literal : String)
  deriving DecidableEq, Repr

end Json

inductive Json where
  | null
  | bool (value : Bool)
  | number (value : Json.Number)
  | string (value : String)
  | array (items : List Json)
  | object (members : List (String × Json))
  deriving Repr, Inhabited

namespace Json

/-- A value whose own members are in the order of their keys, as in a map. -/
def sorted : Json → Json
  | object members => .object (members.mergeSort fun a b => a.1 ≤ b.1)
  | v => v

/-- The value of a key among members that are in the order of the text: the last one wins. -/
def lookup? (members : List (String × Json)) (key : String) : Option Json :=
  (members.reverse.find? fun member => member.1 == key).map (·.2)

@[simp] theorem lookup?_nil (key : String) : lookup? [] key = none := rfl

theorem lookup?_cons (m : String × Json) (members : List (String × Json)) (key : String) :
    lookup? (m :: members) key =
      (lookup? members key).or (if m.1 = key then some m.2 else none) := by
  rw [lookup?, List.reverse_cons, List.find?_append, lookup?]
  cases members.reverse.find? fun member => member.1 == key with
  | some found => rfl
  | none =>
      by_cases hkey : m.1 = key
      · simp [hkey]
      · simp [hkey]

theorem lookup?_eq_none {members : List (String × Json)} {key : String}
    (h : key ∉ members.map (·.1)) : lookup? members key = none := by
  induction members with
  | nil => rfl
  | cons m members ih =>
      rw [List.map_cons, List.mem_cons, not_or] at h
      rw [lookup?_cons, ih h.2, if_neg (Ne.symm h.1)]
      rfl

/-- Where no key is repeated, each key has the value it is written with. -/
theorem lookup?_eq_some {members : List (String × Json)} {key : String} {value : Json}
    (hkeys : (members.map (·.1)).Nodup) (h : (key, value) ∈ members) :
    lookup? members key = some value := by
  induction members with
  | nil => cases h
  | cons m members ih =>
      rw [List.map_cons, List.nodup_cons] at hkeys
      rw [lookup?_cons]
      cases h with
      | head => rw [lookup?_eq_none hkeys.1, if_pos rfl, Option.none_or]
      | tail _ hlater => rw [ih hkeys.2 hlater, Option.some_or]

end Json

end Marginalia
