import Mathlib.Data.List.Infix
import RovSdk.Results
import RovSdk.SchemaLayout

namespace RovSdk.SchemaValidator

open RovSdk.Results
open RovSdk.PythonValues

/-- A piece of the text of a `SchemaError`: fixed, or a value formatted by `str` or by
`repr`. -/
inductive Piece where
  | text (s : String)
  | shown (v : PyVal)
  | repr (v : PyVal)

/-- `SchemaError`, the `UndefinedError` of the template engine, or an exception of
Python itself. -/
inductive GenError where
  | schemaError (text : List Piece)
  | undefinedError
  | python (e : PyError)

abbrev Gen := Except GenError

instance : MonadLift (Except PyError) Gen := ⟨fun x => x.mapError .python⟩

def contains (d key : PyVal) : Except PyError Bool :=
  match d with
  | .dict entries =>
      if key.hashable then .ok (PyVal.lookup entries key).isSome else .error .typeError
  | .list items => .ok (items.any fun item => item.sameKey key)
  | .str s =>
      match key with
      | .str part => .ok (s.toList.tails.any part.toList.isPrefixOf)
      | _ => .error .typeError
  | _ => .error .typeError

def isDict : PyVal → Bool
  | .dict _ => true
  | _ => false

def knownType (type : PyVal) : Except PyError Bool :=
  if type.hashable then .ok (type.sameKey (.str "u8") || type.sameKey (.str "f32"))
  else .error .typeError

/-- `name in seen_names`, for a set. -/
def seenName (seen : List PyVal) (name : PyVal) : Except PyError Bool :=
  if name.hashable then .ok (seen.any fun other => other.sameKey name)
  else .error .typeError

def requiredTop : List String := ["version", "frame", "types", "enums", "frames"]

def requiredField : List String := ["name", "type", "unit", "range", "notes"]

def requireField (frameName : PyVal) (idx : Nat) (field : PyVal) (req : String) :
    Gen Unit := do
  if !(← contains field (.str req)) then
    throw (.schemaError [.text "frame ", .shown frameName, .text " field #",
      .shown (.int idx), .text " missing required key '", .text req, .text "'"])

/-- One turn of the loop over the fields of a frame; the names seen after it. -/
def validateField (frameName : PyVal) (seen : List PyVal) (idx : Nat) (field : PyVal) :
    Gen (List PyVal) := do
  if !isDict field then
    throw (.schemaError [.text "frame ", .shown frameName, .text " field #",
      .shown (.int idx), .text " is not a mapping"])
  requiredField.forM (requireField frameName idx field)
  let type ← field.getItem (.str "type")
  let name ← field.getItem (.str "name")
  if !(← knownType type) then
    throw (.schemaError [.text "frame ", .shown frameName, .text " field ", .shown name,
      .text " has unknown type ", .repr type])
  if ← seenName seen name then
    throw (.schemaError [.text "frame ", .shown frameName, .text " duplicate field name: ",
      .shown name])
  return seen ++ [name]

def validateFields (frameName : PyVal) : List PyVal → Nat → List PyVal → Gen Unit
  | _, _, [] => return
  | seen, idx, field :: fields => do
      let seen ← validateField frameName seen idx field
      validateFields frameName seen (idx + 1) fields

def validateFrame (frameName frame : PyVal) : Gen Unit := do
  if !(← contains frame (.str "fields")) then
    throw (.schemaError [.text "frame ", .shown frameName, .text " missing 'fields'"])
  match ← frame.getItem (.str "fields") with
  | .list fields => validateFields frameName [] 0 fields
  | _ =>
      throw (.schemaError [.text "frame ", .shown frameName,
        .text ".fields must be a list"])

def requireTop (data : PyVal) (key : String) : Gen Unit := do
  if !(← contains data (.str key)) then
    throw (.schemaError [.text "schema missing top-level key: ", .text key])

def validateSchema (data : PyVal) : Gen Unit := do
  requiredTop.forM (requireTop data)
  match ← data.getItem (.str "frames") with
  | .dict frames => frames.forM fun entry => validateFrame entry.1 entry.2
  | _ => throw (.schemaError [.text "schema.frames must be a mapping"])

/-- `load_schema`, where `data` is what the YAML loader returns. -/
def loadSchema (data : PyVal) : Gen PyVal := do
  if !isDict data then throw (.schemaError [.text "schema root must be a mapping"])
  validateSchema data
  return data

theorem lift_eq_ok {α : Type} {x : Except PyError α} {a : α} :
    (liftM x : Gen α) = .ok a ↔ x = .ok a :=
  mapError_eq_ok

theorem lift_ok {α : Type} (a : α) : (liftM (Except.ok a : Except PyError α) : Gen α) = .ok a :=
  rfl

theorem eq_str_of_sameKey {v : PyVal} {s : String} (h : v.sameKey (.str s) = true) :
    v = .str s := by
  cases v <;> simp_all [PyVal.sameKey, PyVal.whole, PyVal.keyInt]

/-- What the validator ensures of a field, with the field's name. -/
structure ValidField (field name : PyVal) : Prop where
  dict : isDict field = true
  name_eq : field.getItem (.str "name") = .ok name
  hashable : name.hashable = true
  type_eq : field.getItem (.str "type") = .ok (.str "u8") ∨
    field.getItem (.str "type") = .ok (.str "f32")

structure ValidFields (fields names : List PyVal) : Prop where
  fields : List.Forall₂ ValidField fields names
  distinct : names.Pairwise fun a b => ¬a.sameKey b = true

theorem validateField_ok {frameName field : PyVal} {seen seen' : List PyVal} {idx : Nat}
    (h : validateField frameName seen idx field = .ok seen') :
    ∃ name, ValidField field name ∧ (∀ other ∈ seen, ¬other.sameKey name = true) ∧
      seen' = seen ++ [name] := by
  simp only [validateField, throw_bind, throw_if_eq_ok, bind_eq_ok, lift_eq_ok, pure_eq_ok] at h
  obtain ⟨hdict, -, -, type, htype, name, hname, known, hknown, hisknown, seenBefore, hseen,
    hnot, rfl⟩ := h
  refine ⟨name, ⟨by simpa using hdict, hname, ?_, ?_⟩, ?_, rfl⟩
  · rw [seenName] at hseen
    split_ifs at hseen with hhash
    exact hhash
  · rw [knownType] at hknown
    split_ifs at hknown
    obtain rfl := Except.ok.inj hknown
    rw [Bool.not_eq_true, Bool.not_eq_false', Bool.or_eq_true] at hisknown
    rcases hisknown with hu8 | hf32
    · exact .inl (by rw [htype, eq_str_of_sameKey hu8])
    · exact .inr (by rw [htype, eq_str_of_sameKey hf32])
  · rw [seenName] at hseen
    split_ifs at hseen
    obtain rfl := Except.ok.inj hseen
    simpa using hnot

theorem validateFields_ok {frameName : PyVal} {seen fields : List PyVal} {idx : Nat}
    (h : validateFields frameName seen idx fields = .ok ()) :
    ∃ names, ValidFields fields names ∧
      ∀ other ∈ seen, ∀ name ∈ names, ¬other.sameKey name = true := by
  induction fields generalizing seen idx with
  | nil => exact ⟨[], ⟨.nil, .nil⟩, by simp⟩
  | cons field fields ih =>
      rw [validateFields, bind_eq_ok] at h
      obtain ⟨seen', hfield, hrest⟩ := h
      obtain ⟨name, hvalid, hfresh, rfl⟩ := validateField_ok hfield
      obtain ⟨names, hnames, hseen⟩ := ih hrest
      refine ⟨name :: names, ⟨.cons hvalid hnames.fields, .cons ?_ hnames.distinct⟩, ?_⟩
      · exact hseen name (by simp)
      · intro other hother
        rw [List.forall_mem_cons]
        exact ⟨hfresh other hother, hseen other (by simp [hother])⟩

theorem validateFrame_ok {frameName frame : PyVal} (h : validateFrame frameName frame = .ok ()) :
    ∃ fields names, frame.getItem (.str "fields") = .ok (.list fields) ∧
      ValidFields fields names := by
  simp only [validateFrame, throw_bind, throw_if_eq_ok, bind_eq_ok, lift_eq_ok] at h
  obtain ⟨-, -, -, fields, hfields, h⟩ := h
  split at h
  next fields =>
    obtain ⟨names, hnames, -⟩ := validateFields_ok h
    exact ⟨fields, names, hfields, hnames⟩
  next => exact absurd h throw_ne_ok

theorem contains_of_requireTop {data : PyVal} {key : String}
    (h : requireTop data key = .ok ()) : contains data (.str key) = .ok true := by
  simp only [requireTop, throw_if_eq_ok, bind_eq_ok, lift_eq_ok] at h
  obtain ⟨present, hcontains, hpresent, -⟩ := h
  rw [Bool.not_eq_true, Bool.not_eq_false'] at hpresent
  rw [hcontains, hpresent]

theorem mem_of_getItem {entries : List (PyVal × PyVal)} {key v : PyVal}
    (h : (PyVal.dict entries).getItem key = .ok v) : ∃ k, (k, v) ∈ entries := by
  rw [PyVal.getItem] at h
  split_ifs at h
  split at h
  next w hlookup =>
    obtain rfl := Except.ok.inj h
    rw [PyVal.lookup, Option.map_eq_some_iff] at hlookup
    obtain ⟨entry, hfind, rfl⟩ := hlookup
    exact ⟨entry.1, List.mem_of_find?_eq_some hfind⟩
  next => cases h

/-- What `load_schema` accepts: each required key is there, and every frame is valid. -/
theorem loadSchema_ok {data schema : PyVal} (h : loadSchema data = .ok schema) :
    schema = data ∧ isDict data = true ∧
      (∀ key ∈ requiredTop, contains data (.str key) = .ok true) ∧
      ∃ frames, data.getItem (.str "frames") = .ok (.dict frames) ∧
        ∀ entry ∈ frames, validateFrame entry.1 entry.2 = .ok () := by
  simp only [loadSchema, validateSchema, throw_bind, throw_if_eq_ok, bind_eq_ok, lift_eq_ok,
    pure_eq_ok] at h
  obtain ⟨hdict, ⟨⟩, ⟨⟨⟩, htop, frames, hframes, h⟩, rfl⟩ := h
  refine ⟨rfl, by simpa using hdict, fun key hkey => ?_, ?_⟩
  · exact contains_of_requireTop (forM_eq_ok.mp htop key hkey)
  · split at h
    next frames => exact ⟨frames, hframes, forM_eq_ok.mp h⟩
    next => exact absurd h throw_ne_ok

/-- `schema["frames"][frame_name]`. -/
def frameOf (schema : PyVal) (frameName : String) : Except PyError PyVal := do
  (← schema.getItem (.str "frames")).getItem (.str frameName)

theorem fields_of_loadSchema {data schema frame : PyVal} {frameName : String}
    (h : loadSchema data = .ok schema) (hframe : frameOf schema frameName = .ok frame) :
    ∃ fields names, frame.getItem (.str "fields") = .ok (.list fields) ∧
      ValidFields fields names := by
  obtain ⟨rfl, -, -, frames, hframes, hvalid⟩ := loadSchema_ok h
  rw [frameOf, hframes, ok_bind] at hframe
  obtain ⟨key, hmem⟩ := mem_of_getItem hframe
  exact validateFrame_ok (hvalid _ hmem)

end RovSdk.SchemaValidator
