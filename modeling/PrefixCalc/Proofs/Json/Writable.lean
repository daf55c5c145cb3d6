import PrefixCalc.Json.Basic

/-! # Values with a written form

A value has a written form, at every depth, just where each number in it is finite. -/

namespace PrefixCalc
set_option autoImplicit false

namespace Json

/-- Every number in the value is finite. -/
inductive Writable : Json → Prop where
  | bool (b : Bool) : Writable (.bool b)
  | count (n : Nat) : Writable (.count n)
  | number {v : Binary64} (finite : v.isFinite = true) : Writable (.number v)
  | text (t : Text) : Writable (.text t)
  | list {items : List Json} (each : ∀ j ∈ items, Writable j) : Writable (.list items)
  | object {fields : List (Text × Json)} (each : ∀ f ∈ fields, Writable f.2) :
      Writable (.object fields)

theorem writable_number_iff {v : Binary64} : Writable (.number v) ↔ v.isFinite = true := by
  constructor
  · intro h
    cases h with
    | number finite => exact finite
  · exact .number

theorem writable_list_iff {items : List Json} :
    Writable (.list items) ↔ ∀ j ∈ items, Writable j := by
  constructor
  · intro h
    cases h with
    | list each => exact each
  · exact .list

theorem writable_object_iff {fields : List (Text × Json)} :
    Writable (.object fields) ↔ ∀ f ∈ fields, Writable f.2 := by
  constructor
  · intro h
    cases h with
    | object each => exact each
  · exact .object

mutual

theorem exists_write?_iff : ∀ (j : Json) (depth : Nat),
    (∃ t, j.write? depth = some t) ↔ Writable j
  | .bool b, _ => by simp [write?, Writable.bool]
  | .count n, _ => by simp [write?, Writable.count]
  | .number v, _ => by
    rw [writable_number_iff, write?]
    cases v.isFinite <;> simp
  | .text t, _ => by simp [write?, Writable.text]
  | .list [], _ => by simp [write?, writable_list_iff]
  | .list (j :: js), depth => by
    rw [writable_list_iff, List.forall_mem_cons, ← exists_write?_iff j (depth + 1),
      ← exists_writeItems?_iff js (depth + 1), write?]
    cases j.write? (depth + 1) <;> cases writeItems? (depth + 1) js <;> simp
  | .object [], _ => by simp [write?, writable_object_iff]
  | .object ((k, j) :: fields), depth => by
    rw [writable_object_iff, List.forall_mem_cons, ← exists_write?_iff j (depth + 1),
      ← exists_writeFields?_iff fields (depth + 1), write?]
    cases j.write? (depth + 1) <;> cases writeFields? (depth + 1) fields <;> simp

theorem exists_writeItems?_iff : ∀ (js : List Json) (depth : Nat),
    (∃ t, writeItems? depth js = some t) ↔ ∀ j ∈ js, Writable j
  | [], _ => by simp [writeItems?]
  | j :: js, depth => by
    rw [List.forall_mem_cons, ← exists_write?_iff j depth, ← exists_writeItems?_iff js depth,
      writeItems?]
    cases j.write? depth <;> cases writeItems? depth js <;> simp

theorem exists_writeFields?_iff : ∀ (fields : List (Text × Json)) (depth : Nat),
    (∃ t, writeFields? depth fields = some t) ↔ ∀ f ∈ fields, Writable f.2
  | [], _ => by simp [writeFields?]
  | (k, j) :: fields, depth => by
    rw [List.forall_mem_cons, ← exists_write?_iff j depth, ← exists_writeFields?_iff fields depth,
      writeFields?]
    cases j.write? depth <;> cases writeFields? depth fields <;> simp

end

end Json
end PrefixCalc
