import Recast.Value

/-!
Templates: written forms of values. A template is built anew each time it is used, so two uses of
one template give equal values that are different objects.
-/

set_option autoImplicit false

namespace Recast

/-- The written form of a value. -/
inductive Template where
  | null
  | bool (b : Bool)
  | int (n : Int)
  | float (x : Decimal.Double)
  | text (s : String)
  | bytes (bs : List UInt8)
  | moment (m : Moment)
  | list (items : List Template)
  | tuple (items : List Template)
  | dict (entries : List (Template × Template))
  | slot (path : List String)
  /-- A fault object of a kind, from its arguments. -/
  | fault (kind : String) (args : List Template)
  /-- A record of a type with fields given; a model validates them. -/
  | record (type : String) (fields : List (String × Template))
  /-- A record of a type made without arguments. -/
  | blank (type : String)
  /-- A record of a model made without validation. -/
  | raw (type : String) (fields : List (String × Template))
  /-- A variable of the session, then attributes or positions. -/
  | variable (name : String) (path : List String)

instance : Inhabited Template := ⟨.null⟩

end Recast
