import Marginalia.Text.Ascii

/-!
# The catalog of models

The models that can be asked, and the choice of one by vendor and family.
-/

namespace Marginalia

namespace Model

structure Identity where
  vendor : String
  family : String
  deriving DecidableEq, Repr

structure Criteria where
  vendor : Option String := none
  family : Option String := none
  deriving DecidableEq, Repr, Inhabited

def accepts (criterion : Option String) (name : String) : Bool :=
  criterion.all (Text.sameIgnoringCase · name)

def Criteria.matches (criteria : Criteria) (model : Identity) : Bool :=
  accepts criteria.vendor model.vendor && accepts criteria.family model.family

structure Catalog where
  models : List Identity := []
  deriving DecidableEq, Repr, Inhabited

namespace Catalog

def select? (catalog : Catalog) (criteria : Criteria) : Option Nat :=
  catalog.models.findIdx? criteria.matches

end Catalog

end Model

end Marginalia
