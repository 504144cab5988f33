import RovSdk.PythonValues

namespace RovSdk.SchemaLayout

open RovSdk.PythonValues

/-- `TYPE_SIZE[t]`. -/
def typeSize (t : PyVal) : Except PyError Int :=
  if t.sameKey (.str "u8") then .ok 1
  else if t.sameKey (.str "f32") then .ok 4
  else if t.hashable then .error (.keyError t)
  else .error .typeError

/-- An entry of the list that `compute_layout` returns. -/
structure LayoutField where
  name : PyVal
  type : PyVal
  count : Int
  elementSize : Int
  size : Int
  offset : Int
  unit : PyVal
  range : PyVal
  notes : PyVal

/-- One turn of the loop of `compute_layout`. -/
def layoutField (py : Runtime) (offset : Int) (f : PyVal) : Except PyError LayoutField := do
  let t ← f.getItem (.str "type")
  let count ← py.int (← f.get (.str "count") (.int 1))
  let elem ← typeSize t
  let name ← f.getItem (.str "name")
  let unit ← f.get (.str "unit") (.str "")
  let range ← f.get (.str "range") .none
  let notes ← f.get (.str "notes") (.str "")
  return {
    name := name
    type := t
    count := count
    elementSize := elem
    size := elem * count
    offset := offset
    unit := unit
    range := range
    notes := notes }

def computeLayoutFrom (py : Runtime) : Int → List PyVal → Except PyError (List LayoutField)
  | _, [] => return []
  | offset, f :: fields => do
      let field ← layoutField py offset f
      let rest ← computeLayoutFrom py (offset + field.size) fields
      return field :: rest

def computeLayout (py : Runtime) (fields : List PyVal) : Except PyError (List LayoutField) :=
  computeLayoutFrom py 0 fields

end RovSdk.SchemaLayout
