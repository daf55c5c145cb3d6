import PrefixCalc.Number.Input

/-! # Data

A datum is what a document holds before anything is known of its meaning: a scalar, a list,
or a map whose keys are data too and keep the order of their first arrival. -/

namespace PrefixCalc
set_option autoImplicit false

inductive Datum where
  | null
  | bool (b : Bool)
  | int (i : Int)
  | float (v : Binary64)
  | text (t : Text)
  | list (items : List Datum)
  | map (entries : List (Datum × Datum))
  /-- A scalar of any other type, such as a date, with its written form. -/
  | other (written : Text)

namespace Datum

instance : Inhabited Datum := ⟨.null⟩

/-- A number by its value: equal numbers of different types are one key. -/
def number? : Datum → Option Binary64
  | bool b => some (.ofNat b.toNat)
  | int i => some (.ofInt i)
  | float v => some v
  | _ => none

/-- The whole number that the datum stands for as a key, if it is one. -/
def integer? : Datum → Option Int
  | bool b => some b.toNat
  | int i => some i
  | _ => none

/-- The two data are one key. Lists and maps are no keys. -/
def sameKey : Datum → Datum → Bool
  | null, null => true
  | text s, text t => s == t
  | other s, other t => s == t
  | a, b =>
    match a.integer?, b.integer? with
    | some i, some j => i == j
    | _, _ =>
      match a.number?, b.number? with
      | some v, some w => v.eq w || (v.isNaN && w.isNaN)
      | _, _ => false

/-- The entry goes to the end, or replaces the value of the entry with the same key. -/
def put (entries : List (Datum × Datum)) (k v : Datum) : List (Datum × Datum) :=
  if entries.any (·.1.sameKey k) then
    entries.map fun e => if e.1.sameKey k then (e.1, v) else e
  else entries ++ [(k, v)]

def find? (entries : List (Datum × Datum)) (key : Text) : Option Datum :=
  (entries.find? fun e => match e.1 with | text t => t == key | _ => false).map (·.2)

end Datum
end PrefixCalc
