import PrefixCalc.Suite.Datum
import PrefixCalc.Suite.Detail

/-! # Cases and suites

A case is an expression with values for the variables and at most one expectation: a value
or the kind of a parse error. A suite is a list of cases with a tolerance. `Case.ofDatum`
and `Suite.ofDatum` read them from data under a rule for numbers, or list every fault: field by
field in the order of declaration, then the unknown keys in the order of the input. A rule that
concerns a field or a whole case is applied only where no other fault was found. -/

namespace PrefixCalc
set_option autoImplicit false

structure Case where
  name : Option Text
  expression : Text
  arguments : Point
  expected : Option Binary64
  error : Option ErrorKind
deriving DecidableEq

/-- The name, or the expression if there is no name or an empty one. -/
def Case.label (c : Case) : Text :=
  match c.name with
  | some (ch :: name) => ch :: name
  | _ => c.expression

structure Suite where
  tolerance : Binary64
  cases : List Case
deriving DecidableEq

namespace Record

abbrev Read (α : Type) := Except (List Detail) α

def refuse {α : Type} (p : Problem) : Read α := .error [⟨[], p⟩]

/-- The reading of a part, its details seen from the whole. -/
def within {α : Type} (item : PathItem) (r : Read α) : Read α :=
  r.mapError (·.map (·.within item))

def details {α : Type} : Read α → List Detail
  | .ok _ => []
  | .error ds => ds

def number (rule : NumberRule) (d : Datum) : Read Binary64 :=
  (rule d).mapError fun fault => [⟨[], .number fault⟩]

def string : Datum → Read Text
  | .text t => .ok t
  | _ => refuse .stringType

/-- A field that may be absent or null. -/
def optional {α : Type} (read : Datum → Read α) : Option Datum → Read (Option α)
  | none | some .null => .ok none
  | some d => (read d).map some

def required {α : Type} (read : Datum → Read α) : Option Datum → Read α
  | none => refuse .missing
  | some d => read d

def field {α : Type} (entries : List (Datum × Datum)) (name : Text)
    (read : Option Datum → Read α) : Read α :=
  within (.key name) (read (Datum.find? entries name))

def keyItem : Datum → PathItem
  | .text t => .key t
  | .int i => .index i
  | .bool b => .index b.toNat
  | .float v => .key v.toText
  | .null => .key "None".toList
  | .other t => .key t
  | .list _ | .map _ => .key []

/-- One detail for each key that is not in the list. -/
def unknownKeys (known : List Text) (entries : List (Datum × Datum)) : List Detail :=
  entries.filterMap fun e =>
    match e.1 with
    | .text t => if known.contains t then none else some ⟨[.key t], .extraForbidden⟩
    | k => some ⟨[keyItem k], .invalidKey⟩

/-- All readings of a list, each under its index from the given one on. -/
def items {α : Type} (read : Datum → Read α) : Nat → List Datum → Read (List α)
  | _, [] => .ok []
  | i, d :: ds =>
    match within (.index i) (read d), items read (i + 1) ds with
    | .ok a, .ok as => .ok (a :: as)
    | r, rs => .error (details r ++ details rs)

end Record

namespace Case

open Record

def fieldNames : List Text :=
  ["name".toList, "expression".toList, "bindings".toList, "expected".toList, "error".toList]

/-- A value for a name; the name need not be a variable yet. -/
def binding (rule : NumberRule) (e : Datum × Datum) : Read (Text × Binary64) :=
  let key := within (.key "[key]".toList) (string e.1)
  match within (keyItem e.1) key, within (keyItem e.1) (number rule e.2) with
  | .ok name, .ok v => .ok (name, v)
  | k, v => .error (details k ++ details v)

def bindingList (rule : NumberRule) : List (Datum × Datum) → Read (List (Text × Binary64))
  | [] => .ok []
  | e :: es =>
    match binding rule e, bindingList rule es with
    | .ok b, .ok bs => .ok (b :: bs)
    | b, bs => .error (details b ++ details bs)

/-- Names below their successors in the order of code points. -/
def nameLe (s t : Text) : Bool :=
  !List.lex (t.map Char.toNat) (s.map Char.toNat) fun m n => decide (m < n)

/-- The names that are no variables, in order and each once. -/
def unknownNames (bs : List (Text × Binary64)) : List Text :=
  ((bs.map (·.1)).filter fun t => (Variable.ofName? t).isNone).eraseDups.mergeSort nameLe

def valueOf (bs : List (Text × Binary64)) (i : Variable) : Binary64 :=
  ((bs.find? (·.1 == i.name)).map (·.2)).getD .zero

def argumentsOf (bs : List (Text × Binary64)) : Point :=
  ⟨valueOf bs .x, valueOf bs .y, valueOf bs .z⟩

def bindings (rule : NumberRule) : Option Datum → Read Point
  | none => .ok (argumentsOf [])
  | some (.map entries) =>
    match bindingList rule entries with
    | .error ds => .error ds
    | .ok bs =>
      if unknownNames bs = [] then .ok (argumentsOf bs)
      else refuse (.rule (.unknownVariables (unknownNames bs)))
  | some _ => refuse .dictType

def errorKind (d : Datum) : Read ErrorKind :=
  match string d with
  | .error ds => .error ds
  | .ok name =>
    match ErrorKind.ofName? name with
    | some k => .ok k
    | none => refuse (.rule (.unknownErrorKind name))

def modelName : Text := "EvaluationCase".toList

def ofEntries (rule : NumberRule) (entries : List (Datum × Datum)) : Read Case :=
  let name := field entries "name".toList (optional string)
  let expression := field entries "expression".toList (required string)
  let arguments := field entries "bindings".toList (bindings rule)
  let expected := field entries "expected".toList (optional (number rule))
  let error := field entries "error".toList (optional errorKind)
  match name, expression, arguments, expected, error, unknownKeys fieldNames entries with
  | .ok name, .ok expression, .ok arguments, .ok expected, .ok error, [] =>
    if expected.isSome && error.isSome then refuse (.rule .twoExpectations)
    else .ok ⟨name, expression, arguments, expected, error⟩
  | name, expression, arguments, expected, error, unknown =>
    .error (details name ++ details expression ++ details arguments ++ details expected
      ++ details error ++ unknown)

def ofDatum (rule : NumberRule) : Datum → Read Case
  | .map entries => ofEntries rule entries
  | _ => refuse (.modelType modelName)

end Case

namespace Suite

open Record

def fieldNames : List Text := ["tolerance".toList, "cases".toList]

def defaultTolerance : Binary64 := (Decimal.mk 1 (-9)).toBinary64 false

def tolerance? (rule : NumberRule) : Option Datum → Read Binary64
  | none => .ok defaultTolerance
  | some d =>
    match number rule d with
    | .error ds => .error ds
    | .ok v => if Binary64.le .zero v then .ok v else refuse .negative

def caseList (rule : NumberRule) : Datum → Read (List Case)
  | .list [] => refuse .tooShort
  | .list ds => items (Case.ofDatum rule) 0 ds
  | _ => refuse .listType

def modelName : Text := "CaseSuite".toList

def ofEntries (rule : NumberRule) (entries : List (Datum × Datum)) : Read Suite :=
  let tolerance := field entries "tolerance".toList (tolerance? rule)
  let cases := field entries "cases".toList (required (caseList rule))
  match tolerance, cases, unknownKeys fieldNames entries with
  | .ok tolerance, .ok cases, [] => .ok ⟨tolerance, cases⟩
  | tolerance, cases, unknown => .error (details tolerance ++ details cases ++ unknown)

def ofDatum (rule : NumberRule) : Datum → Read Suite
  | .map entries => ofEntries rule entries
  | _ => refuse (.modelType modelName)

end Suite
end PrefixCalc
