import RovSdk.SchemaSufficiency

namespace RovSdk.SchemaDiagnostics

open RovSdk.Results
open RovSdk.PythonValues
open RovSdk.SchemaValidator
open RovSdk.FrameLayouts (isDict_iff)
open RovSdk.SchemaSufficiency (getItem_str isDict_of_getItem)

def HasKey (d : PyVal) (key : String) : Prop := ∃ v, d.getItem (.str key) = .ok v

/-- A field with the five required keys, one of the two types and a name. -/
structure WellFormedField (field name : PyVal) : Prop where
  keys : ∀ key ∈ requiredField, HasKey field key
  type_eq : field.getItem (.str "type") = .ok (.str "u8") ∨
    field.getItem (.str "type") = .ok (.str "f32")
  name_eq : field.getItem (.str "name") = .ok name
  hashable : name.hashable = true

/-- A frame whose fields are well formed, with names that are no equal keys. -/
def WellFormedFrame (frame : PyVal) : Prop :=
  ∃ fields names, frame.getItem (.str "fields") = .ok (.list fields) ∧
    List.Forall₂ WellFormedField fields names ∧
    names.Pairwise fun a b => ¬a.sameKey b = true

/-- A mapping with the five top-level keys whose frames are well formed. -/
structure WellFormed (data : PyVal) : Prop where
  keys : ∀ key ∈ requiredTop, HasKey data key
  frames : ∃ frames, data.getItem (.str "frames") = .ok (.dict frames) ∧
    ∀ entry ∈ frames, WellFormedFrame entry.2

/-- What a text says of the field of an index, the fields before it being well formed. -/
inductive FieldComplaint (frameName : PyVal) (before : List PyVal) (field : PyVal) :
    List Piece → Prop
  | notMapping (h : isDict field = false) :
      FieldComplaint frameName before field [.text "frame ", .shown frameName,
        .text " field #", .shown (.int before.length), .text " is not a mapping"]
  | missing {key : String} (hkey : key ∈ requiredField) (h : ¬HasKey field key) :
      FieldComplaint frameName before field [.text "frame ", .shown frameName,
        .text " field #", .shown (.int before.length), .text " missing required key '",
        .text key, .text "'"]
  | unknownType {type name : PyVal} (htype : field.getItem (.str "type") = .ok type)
      (hname : field.getItem (.str "name") = .ok name)
      (h : type ≠ .str "u8" ∧ type ≠ .str "f32") :
      FieldComplaint frameName before field [.text "frame ", .shown frameName,
        .text " field ", .shown name, .text " has unknown type ", .repr type]
  | duplicate {other name : PyVal} {earlier : PyVal} (hearlier : earlier ∈ before)
      (hother : earlier.getItem (.str "name") = .ok other)
      (hname : field.getItem (.str "name") = .ok name) (h : other.sameKey name = true) :
      FieldComplaint frameName before field [.text "frame ", .shown frameName,
        .text " duplicate field name: ", .shown name]

inductive FrameComplaint (frameName frame : PyVal) : List Piece → Prop
  | noFields (h : ¬HasKey frame "fields") :
      FrameComplaint frameName frame [.text "frame ", .shown frameName, .text " missing 'fields'"]
  | notList {v : PyVal} (hfields : frame.getItem (.str "fields") = .ok v)
      (h : ∀ fields, v ≠ .list fields) :
      FrameComplaint frameName frame [.text "frame ", .shown frameName,
        .text ".fields must be a list"]
  | field {before : List PyVal} {field : PyVal} {rest : List PyVal} {text : List Piece}
      (hfields : frame.getItem (.str "fields") = .ok (.list (before ++ field :: rest)))
      (hbefore : ∀ earlier ∈ before, ∃ name, WellFormedField earlier name)
      (h : FieldComplaint frameName before field text) : FrameComplaint frameName frame text

/-- What the text of a `SchemaError` says of the mapping. -/
inductive Complaint (data : PyVal) : List Piece → Prop
  | root (h : isDict data = false) : Complaint data [.text "schema root must be a mapping"]
  | topKey {key : String} (hkey : key ∈ requiredTop) (h : ¬HasKey data key) :
      Complaint data [.text "schema missing top-level key: ", .text key]
  | frames {v : PyVal} (hframes : data.getItem (.str "frames") = .ok v)
      (h : isDict v = false) : Complaint data [.text "schema.frames must be a mapping"]
  | frame {before rest : List (PyVal × PyVal)} {name frame : PyVal} {text : List Piece}
      (hframes : data.getItem (.str "frames") = .ok (.dict (before ++ (name, frame) :: rest)))
      (hbefore : ∀ entry ∈ before, WellFormedFrame entry.2)
      (h : FrameComplaint name frame text) : Complaint data text

/-- A field that the validator cannot look up: its type or its name has no hash. -/
def Unhashable (field : PyVal) : Prop :=
  ∃ key ∈ ["type", "name"], ∃ v, field.getItem (.str key) = .ok v ∧ v.hashable = false

/-- A frame that is no mapping, or has a field that cannot be looked up. -/
def Unlookable (frame : PyVal) : Prop :=
  isDict frame = false ∨ ∃ fields, frame.getItem (.str "fields") = .ok (.list fields) ∧
    ∃ field ∈ fields, Unhashable field

section Errors

variable {ε α β : Type}

theorem bind_eq_error {x : Except ε α} {f : α → Except ε β} {e : ε} :
    (x >>= f) = .error e ↔ x = .error e ∨ ∃ a, x = .ok a ∧ f a = .error e := by
  rcases x with e' | a
  · simp [bind, Except.bind]
  · simp [bind, Except.bind]

theorem forM_eq_error {f : α → Except ε Unit} {xs : List α} {e : ε} :
    xs.forM f = .error e ↔ ∃ before x rest, xs = before ++ x :: rest ∧
      (∀ y ∈ before, f y = .ok ()) ∧ f x = .error e := by
  induction xs with
  | nil =>
      refine iff_of_false (fun h => by cases h) ?_
      rintro ⟨before, x, rest, h, -⟩
      simp at h
  | cons x xs ih =>
      rw [show (x :: xs).forM f = f x >>= fun _ => xs.forM f from rfl, bind_eq_error, ih]
      constructor
      · rintro (hx | ⟨⟨⟩, hx, before, y, rest, rfl, hbefore, hy⟩)
        · exact ⟨[], x, xs, rfl, fun _ h => absurd h List.not_mem_nil, hx⟩
        · exact ⟨x :: before, y, rest, rfl, List.forall_mem_cons.mpr ⟨hx, hbefore⟩, hy⟩
      · rintro ⟨_ | ⟨z, before⟩, y, rest, h, hbefore, hy⟩
        · obtain ⟨rfl, rfl⟩ := List.cons.inj h
          exact .inl hy
        · obtain ⟨rfl, rfl⟩ := List.cons.inj h
          rw [List.forall_mem_cons] at hbefore
          exact .inr ⟨(), hbefore.1, before, y, rest, rfl, hbefore.2, hy⟩

end Errors

section Keys

variable {d : PyVal} {key : String}

theorem contains_of_isDict (hdict : isDict d = true) :
    (HasKey d key ∧ contains d (.str key) = .ok true) ∨
      (¬HasKey d key ∧ contains d (.str key) = .ok false) := by
  obtain ⟨entries, rfl⟩ := isDict_iff.mp hdict
  have hhash : (PyVal.str key).hashable = true := rfl
  simp only [HasKey, contains, if_pos hhash, getItem_str]
  rcases PyVal.lookup entries (.str key) with _ | v
  · simp
  · simp

theorem requireTop_of_isDict (hdict : isDict d = true) :
    (HasKey d key ∧ requireTop d key = .ok ()) ∨
      (¬HasKey d key ∧ requireTop d key =
        .error (.schemaError [.text "schema missing top-level key: ", .text key])) := by
  rcases contains_of_isDict hdict with ⟨hkey, h⟩ | ⟨hkey, h⟩
  · exact .inl ⟨hkey, by rw [requireTop, h]; rfl⟩
  · exact .inr ⟨hkey, by rw [requireTop, h]; rfl⟩

theorem requireField_of_isDict (frameName : PyVal) (idx : Nat) (hdict : isDict d = true) :
    (HasKey d key ∧ requireField frameName idx d key = .ok ()) ∨
      (¬HasKey d key ∧ requireField frameName idx d key =
        .error (.schemaError [.text "frame ", .shown frameName, .text " field #",
          .shown (.int idx), .text " missing required key '", .text key, .text "'"])) := by
  rcases contains_of_isDict hdict with ⟨hkey, h⟩ | ⟨hkey, h⟩
  · exact .inl ⟨hkey, by rw [requireField, h]; rfl⟩
  · exact .inr ⟨hkey, by rw [requireField, h]; rfl⟩

end Keys

section Fields

variable {frameName field name : PyVal} {before seen : List PyVal}

theorem knownType_cases (type : PyVal) :
    ((type = .str "u8" ∨ type = .str "f32") ∧ knownType type = .ok true) ∨
      ((type ≠ .str "u8" ∧ type ≠ .str "f32") ∧ knownType type = .ok false) ∨
      (type.hashable = false ∧ knownType type = .error .typeError) := by
  rw [knownType]
  rcases hhash : type.hashable with _ | _
  · exact .inr (.inr ⟨rfl, rfl⟩)
  · rw [if_pos rfl]
    by_cases hknown : (type.sameKey (.str "u8") || type.sameKey (.str "f32")) = true
    · refine .inl ⟨?_, by rw [hknown]⟩
      rcases Bool.or_eq_true_iff.mp hknown with hu8 | hf32
      · exact .inl (eq_str_of_sameKey hu8)
      · exact .inr (eq_str_of_sameKey hf32)
    · refine .inr (.inl ⟨⟨?_, ?_⟩, by rw [Bool.eq_false_iff.mpr hknown]⟩)
      · rintro rfl
        exact hknown rfl
      · rintro rfl
        exact hknown rfl

theorem seenName_cases (seen : List PyVal) (name : PyVal) :
    (name.hashable = true ∧ (∀ other ∈ seen, ¬other.sameKey name = true) ∧
      seenName seen name = .ok false) ∨
      (name.hashable = true ∧ (∃ other ∈ seen, other.sameKey name = true) ∧
        seenName seen name = .ok true) ∨
      (name.hashable = false ∧ seenName seen name = .error .typeError) := by
  rw [seenName]
  rcases hhash : name.hashable with _ | _
  · exact .inr (.inr ⟨rfl, rfl⟩)
  · rw [if_pos rfl]
    rcases hany : seen.any (fun other => other.sameKey name) with _ | _
    · refine .inl ⟨rfl, ?_, rfl⟩
      rw [List.any_eq_false] at hany
      exact hany
    · refine .inr (.inl ⟨rfl, ?_, rfl⟩)
      rw [List.any_eq_true] at hany
      exact hany

theorem validateField_eq {type : PyVal} {idx : Nat} (seen : List PyVal)
    (hdict : isDict field = true)
    (hkeys : requiredField.forM (requireField frameName idx field) = .ok ())
    (htype : field.getItem (.str "type") = .ok type)
    (hname : field.getItem (.str "name") = .ok name) :
    validateField frameName seen idx field = (do
      if !(← knownType type) then
        throw (.schemaError [.text "frame ", .shown frameName, .text " field ", .shown name,
          .text " has unknown type ", .repr type])
      if ← seenName seen name then
        throw (.schemaError [.text "frame ", .shown frameName, .text " duplicate field name: ",
          .shown name])
      return seen ++ [name]) := by
  simp only [validateField, hdict, Bool.not_true, Bool.false_eq_true, if_false, hkeys, ok_bind,
    htype, hname, lift_ok]

/-- One turn of the loop over the fields: the field is taken, complained of, or cannot be
looked up. -/
theorem validateField_cases (frameName field : PyVal)
    (hseen : List.Forall₂ WellFormedField before seen) :
    (∃ name, WellFormedField field name ∧ (∀ other ∈ seen, ¬other.sameKey name = true) ∧
      validateField frameName seen before.length field = .ok (seen ++ [name])) ∨
      (∃ text, FieldComplaint frameName before field text ∧
        validateField frameName seen before.length field = .error (.schemaError text)) ∨
      (Unhashable field ∧
        validateField frameName seen before.length field = .error (.python .typeError)) := by
  rcases hdict : isDict field with _ | _
  · refine .inr (.inl ⟨_, .notMapping hdict, ?_⟩)
    simp only [validateField, hdict, Bool.not_false, if_true]
    rfl
  rcases hkeys : requiredField.forM (requireField frameName before.length field) with e | ⟨⟨⟩⟩
  · obtain ⟨earlier, key, rest, hsplit, -, hkey⟩ := forM_eq_error.mp hkeys
    have hmem : key ∈ requiredField := by
      rw [hsplit]
      exact List.mem_append_right _ List.mem_cons_self
    rcases requireField_of_isDict frameName before.length hdict with
      ⟨-, h⟩ | ⟨habsent, h⟩
    · rw [h] at hkey
      cases hkey
    · rw [h] at hkey
      obtain rfl := Except.error.inj hkey
      refine .inr (.inl ⟨_, .missing hmem habsent, ?_⟩)
      simp only [validateField, hdict, Bool.not_true, Bool.false_eq_true, if_false, hkeys]
      rfl
  have hhas : ∀ key ∈ requiredField, HasKey field key := by
    intro key hkey
    rcases requireField_of_isDict frameName before.length hdict with
      ⟨h, -⟩ | ⟨-, h⟩
    · exact h
    · have hok := forM_eq_ok.mp hkeys key hkey
      rw [h] at hok
      cases hok
  obtain ⟨type, htype⟩ := hhas "type" (by decide)
  obtain ⟨name, hname⟩ := hhas "name" (by decide)
  have hstart := validateField_eq seen hdict hkeys htype hname
  rcases knownType_cases type with ⟨hknown, hlookup⟩ | ⟨hunknown, hlookup⟩ | ⟨hhash, hlookup⟩
  · rcases seenName_cases seen name with
      ⟨hhash, hfresh, hset⟩ | ⟨hhash, ⟨other, hother, hsame⟩, hset⟩ | ⟨hhash, hset⟩
    · refine .inl ⟨name, ⟨hhas, ?_, hname, hhash⟩, hfresh, ?_⟩
      · rcases hknown with rfl | rfl
        · exact .inl htype
        · exact .inr htype
      · rw [hstart, hlookup, hset]
        rfl
    · obtain ⟨earlier, hearlier, hwell⟩ := exists_of_mem_right hseen hother
      refine .inr (.inl ⟨_, .duplicate hearlier hwell.name_eq hname hsame, ?_⟩)
      rw [hstart, hlookup, hset]
      rfl
    · refine .inr (.inr ⟨⟨"name", by decide, name, hname, hhash⟩, ?_⟩)
      rw [hstart, hlookup, hset]
      rfl
  · refine .inr (.inl ⟨_, .unknownType htype hname hunknown, ?_⟩)
    rw [hstart, hlookup]
    rfl
  · refine .inr (.inr ⟨⟨"type", by decide, type, htype, hhash⟩, ?_⟩)
    rw [hstart, hlookup]
    rfl

/-- The loop over the fields from one on: what its result says of the fields that are left. -/
theorem validateFields_cases (frameName : PyVal) {before seen : List PyVal}
    (hseen : List.Forall₂ WellFormedField before seen) (rest : List PyVal) :
    (∃ names, List.Forall₂ WellFormedField rest names ∧
      (∀ other ∈ seen, ∀ name ∈ names, ¬other.sameKey name = true) ∧
      (names.Pairwise fun a b => ¬a.sameKey b = true) ∧
      validateFields frameName seen before.length rest = .ok ()) ∨
      (∃ middle field after text, rest = middle ++ field :: after ∧
        (∀ earlier ∈ middle, ∃ name, WellFormedField earlier name) ∧
        FieldComplaint frameName (before ++ middle) field text ∧
        validateFields frameName seen before.length rest = .error (.schemaError text)) ∨
      ((∃ field ∈ rest, Unhashable field) ∧
        validateFields frameName seen before.length rest = .error (.python .typeError)) := by
  induction rest generalizing before seen with
  | nil =>
      exact .inl ⟨[], .nil, fun _ _ _ h => absurd h List.not_mem_nil, .nil, rfl⟩
  | cons field rest ih =>
      rw [validateFields]
      rcases validateField_cases frameName field hseen with
        ⟨name, hwell, hfresh, hturn⟩ | ⟨text, hcomplaint, hturn⟩ | ⟨hhash, hturn⟩
      · rw [hturn, ok_bind, show before.length + 1 = (before ++ [field]).length by simp]
        have hseen' : List.Forall₂ WellFormedField (before ++ [field]) (seen ++ [name]) :=
          List.rel_append hseen (.cons hwell .nil)
        rcases ih hseen' with ⟨names, hnames, hapart, hdistinct, hrest⟩ |
          ⟨middle, later, after, text, rfl, hmiddle, hcomplaint, hrest⟩ |
          ⟨⟨later, hlater, hhash⟩, hrest⟩
        · refine .inl ⟨name :: names, .cons hwell hnames, ?_, ?_, hrest⟩
          · intro other hother
            rw [List.forall_mem_cons]
            exact ⟨hfresh other hother, hapart other (List.mem_append_left _ hother)⟩
          · exact .cons (hapart name (List.mem_append_right _ List.mem_cons_self)) hdistinct
        · rw [List.append_assoc, List.cons_append, List.nil_append] at hcomplaint
          refine .inr (.inl ⟨field :: middle, later, after, text, rfl, ?_, hcomplaint, hrest⟩)
          exact List.forall_mem_cons.mpr ⟨⟨name, hwell⟩, hmiddle⟩
        · exact .inr (.inr ⟨⟨later, List.mem_cons_of_mem _ hlater, hhash⟩, hrest⟩)
      · rw [hturn]
        refine .inr (.inl ⟨[], field, rest, text, rfl, ?_, ?_, rfl⟩)
        · exact fun _ h => absurd h List.not_mem_nil
        · rwa [List.append_nil]
      · rw [hturn]
        exact .inr (.inr ⟨⟨field, List.mem_cons_self, hhash⟩, rfl⟩)

theorem validateFrame_cases (frameName frame : PyVal) :
    (WellFormedFrame frame ∧ validateFrame frameName frame = .ok ()) ∨
      (∃ text, FrameComplaint frameName frame text ∧
        validateFrame frameName frame = .error (.schemaError text)) ∨
      (Unlookable frame ∧ validateFrame frameName frame = .error (.python .typeError)) := by
  rcases hdict : isDict frame with _ | _
  · have hno : ∀ key v, frame.getItem key ≠ .ok v := by
      intro key v h
      rw [isDict_of_getItem h] at hdict
      cases hdict
    have herror : frame.getItem (.str "fields") = .error .typeError := by
      cases frame with
      | dict entries => cases hdict
      | _ => rfl
    have habsent : ¬HasKey frame "fields" := fun ⟨v, h⟩ => hno _ v h
    have hcontains : contains frame (.str "fields") = .ok true ∨
        contains frame (.str "fields") = .ok false ∨
        contains frame (.str "fields") = .error .typeError := by
      rcases hresult : contains frame (.str "fields") with e | b
      · refine .inr (.inr ?_)
        cases frame with
        | dict entries => cases hdict
        | list items => cases hresult
        | str s => cases hresult
        | _ => exact hresult.symm
      · cases b with
        | true => exact .inl rfl
        | false => exact .inr (.inl rfl)
    rcases hcontains with h | h | h
    · refine .inr (.inr ⟨.inl hdict, ?_⟩)
      rw [validateFrame, h, herror]
      rfl
    · refine .inr (.inl ⟨_, .noFields habsent, ?_⟩)
      rw [validateFrame, h]
      rfl
    · refine .inr (.inr ⟨.inl hdict, ?_⟩)
      rw [validateFrame, h]
      rfl
  · rcases @contains_of_isDict _ "fields" hdict with ⟨⟨v, hfields⟩, h⟩ | ⟨habsent, h⟩
    · cases v with
      | list fields =>
          have hstart : validateFrame frameName frame =
              validateFields frameName [] ([] : List PyVal).length fields := by
            rw [validateFrame, h, hfields]
            rfl
          rw [hstart]
          rcases validateFields_cases frameName .nil fields with
            ⟨names, hnames, -, hdistinct, hloop⟩ |
            ⟨middle, field, after, text, rfl, hmiddle, hcomplaint, hloop⟩ | ⟨hhash, hloop⟩
          · exact .inl ⟨⟨fields, names, hfields, hnames, hdistinct⟩, hloop⟩
          · exact .inr (.inl ⟨text, .field hfields hmiddle hcomplaint, hloop⟩)
          · exact .inr (.inr ⟨.inr ⟨fields, hfields, hhash⟩, hloop⟩)
      | _ =>
          refine .inr (.inl ⟨_, .notList hfields (fun _ h => by cases h), ?_⟩)
          rw [validateFrame, h, hfields]
          rfl
    · refine .inr (.inl ⟨_, .noFields habsent, ?_⟩)
      rw [validateFrame, h]
      rfl

theorem forall₂_split {α β : Type} {R : α → β → Prop} {xs zs : List α} {y : α} {bs : List β}
    (h : List.Forall₂ R (xs ++ y :: zs) bs) : ∃ before b after, bs = before ++ b :: after ∧
      List.Forall₂ R xs before ∧ R y b := by
  induction xs generalizing bs with
  | nil =>
      obtain ⟨b, after, hb, -, rfl⟩ := List.forall₂_cons_left_iff.mp h
      exact ⟨[], b, after, rfl, .nil, hb⟩
  | cons x xs ih =>
      obtain ⟨b, rest, hb, hrest, rfl⟩ := List.forall₂_cons_left_iff.mp h
      obtain ⟨before, b', after, rfl, hbefore, hb'⟩ := ih hrest
      exact ⟨b :: before, b', after, rfl, .cons hb hbefore, hb'⟩

theorem not_wellFormedFrame {frameName frame : PyVal} {text : List Piece}
    (h : FrameComplaint frameName frame text) : ¬WellFormedFrame frame := by
  rintro ⟨fields, names, hfields, hnames, hdistinct⟩
  cases h with
  | noFields habsent => exact habsent ⟨_, hfields⟩
  | notList hv hnot =>
      obtain rfl := Except.ok.inj (hv.symm.trans hfields)
      exact hnot fields rfl
  | @field before field rest _ hv hbefore hcomplaint =>
      obtain rfl := PyVal.list.inj (Except.ok.inj (hfields.symm.trans hv))
      obtain ⟨first, name, after, rfl, hfirst, hwell⟩ := forall₂_split hnames
      cases hcomplaint with
      | notMapping hdict =>
          rw [isDict_of_getItem hwell.name_eq] at hdict
          cases hdict
      | missing hkey habsent => exact habsent (hwell.keys _ hkey)
      | unknownType htype hname hunknown =>
          rcases hwell.type_eq with heq | heq
          · exact hunknown.1 (Except.ok.inj (htype.symm.trans heq))
          · exact hunknown.2 (Except.ok.inj (htype.symm.trans heq))
      | duplicate hearlier hother hname hsame =>
          obtain ⟨other, hmem, hwellOther⟩ := exists_of_mem_left hfirst hearlier
          obtain rfl := Except.ok.inj (hwellOther.name_eq.symm.trans hother)
          obtain rfl := Except.ok.inj (hwell.name_eq.symm.trans hname)
          exact (List.pairwise_append.mp hdistinct).2.2 other hmem name List.mem_cons_self hsame

theorem not_wellFormedFrame_of_unlookable {frame : PyVal} (h : Unlookable frame) :
    ¬WellFormedFrame frame := by
  rintro ⟨fields, names, hfields, hnames, -⟩
  rcases h with hdict | ⟨fields', hfields', field, hfield, key, hkey, v, hv, hhash⟩
  · rw [isDict_of_getItem hfields] at hdict
    cases hdict
  · obtain rfl := PyVal.list.inj (Except.ok.inj (hfields.symm.trans hfields'))
    obtain ⟨name, -, hwell⟩ := exists_of_mem_left hnames hfield
    simp only [List.mem_cons, List.not_mem_nil, or_false] at hkey
    rcases hkey with rfl | rfl
    · rcases hwell.type_eq with heq | heq
      · obtain rfl := Except.ok.inj (hv.symm.trans heq)
        cases hhash
      · obtain rfl := Except.ok.inj (hv.symm.trans heq)
        cases hhash
    · obtain rfl := Except.ok.inj (hv.symm.trans hwell.name_eq)
      rw [hwell.hashable] at hhash
      cases hhash

end Fields

/-- `load_schema` on any value: it returns a well-formed mapping as it is; anything else it
refuses, with a text that is true of it and blames the first fault, or with a `TypeError`
where a frame is no mapping or a type or name has no hash. -/
theorem load_schema_decides (data : PyVal) :
    (WellFormed data ∧ loadSchema data = .ok data) ∨
      (¬WellFormed data ∧ ∃ text, Complaint data text ∧
        loadSchema data = .error (.schemaError text)) ∨
      (¬WellFormed data ∧ (∃ frames, data.getItem (.str "frames") = .ok (.dict frames) ∧
        ∃ entry ∈ frames, Unlookable entry.2) ∧
        loadSchema data = .error (.python .typeError)) := by
  rcases hdict : isDict data with _ | _
  · refine .inr (.inl ⟨?_, _, .root hdict, ?_⟩)
    · rintro ⟨-, frames, hframes, -⟩
      rw [isDict_of_getItem hframes] at hdict
      cases hdict
    · rw [loadSchema, hdict]
      rfl
  have hroot : loadSchema data = (do validateSchema data; return data) := by
    rw [loadSchema, hdict]
    rfl
  rcases htop : requiredTop.forM (requireTop data) with e | ⟨⟨⟩⟩
  · obtain ⟨earlier, key, rest, hsplit, -, hkey⟩ := forM_eq_error.mp htop
    have hmem : key ∈ requiredTop := by
      rw [hsplit]
      exact List.mem_append_right _ List.mem_cons_self
    rcases requireTop_of_isDict hdict with ⟨-, h⟩ | ⟨habsent, h⟩
    · rw [h] at hkey
      cases hkey
    · rw [h] at hkey
      obtain rfl := Except.error.inj hkey
      refine .inr (.inl ⟨fun hwell => habsent (hwell.keys key hmem), _, .topKey hmem habsent, ?_⟩)
      rw [hroot, validateSchema, htop]
      rfl
  have hhas : ∀ key ∈ requiredTop, HasKey data key := by
    intro key hkey
    rcases requireTop_of_isDict hdict with ⟨h, -⟩ | ⟨-, h⟩
    · exact h
    · have hok := forM_eq_ok.mp htop key hkey
      rw [h] at hok
      cases hok
  obtain ⟨v, hframes⟩ := hhas "frames" (by decide)
  rcases hv : isDict v with _ | _
  · refine .inr (.inl ⟨?_, _, .frames hframes hv, ?_⟩)
    · rintro ⟨-, frames, h, -⟩
      obtain rfl := Except.ok.inj (hframes.symm.trans h)
      cases hv
    · rw [hroot, validateSchema, htop, hframes]
      cases v with
      | dict entries => cases hv
      | _ => rfl
  · obtain ⟨frames, rfl⟩ := isDict_iff.mp hv
    have hstart : validateSchema data =
        frames.forM fun entry => validateFrame entry.1 entry.2 := by
      rw [validateSchema, htop, hframes]
      rfl
    rcases hloop : frames.forM fun entry => validateFrame entry.1 entry.2 with e | ⟨⟨⟩⟩
    · have hresult : loadSchema data = .error e := by
        rw [hroot, hstart]
        simp only [hloop]
        rfl
      obtain ⟨before, entry, rest, rfl, hbefore, hentry⟩ := forM_eq_error.mp hloop
      have hmem : entry ∈ before ++ entry :: rest :=
        List.mem_append_right _ List.mem_cons_self
      have hfault : ¬WellFormedFrame entry.2 → ¬WellFormed data := by
        rintro hnot ⟨-, frames, h, hwell⟩
        obtain rfl := PyVal.dict.inj (Except.ok.inj (h.symm.trans hframes))
        exact hnot (hwell entry hmem)
      rcases validateFrame_cases entry.1 entry.2 with
        ⟨-, h⟩ | ⟨text, hcomplaint, h⟩ | ⟨hunlookable, h⟩
      · rw [h] at hentry
        cases hentry
      · rw [h] at hentry
        obtain rfl := Except.error.inj hentry
        refine .inr (.inl ⟨hfault (not_wellFormedFrame hcomplaint), text, ?_, hresult⟩)
        refine .frame hframes (fun earlier hearlier => ?_) hcomplaint
        rcases validateFrame_cases earlier.1 earlier.2 with
          ⟨hwell, -⟩ | ⟨_, -, h⟩ | ⟨-, h⟩
        · exact hwell
        · rw [hbefore earlier hearlier] at h
          cases h
        · rw [hbefore earlier hearlier] at h
          cases h
      · rw [h] at hentry
        obtain rfl := Except.error.inj hentry
        exact .inr (.inr ⟨hfault (not_wellFormedFrame_of_unlookable hunlookable),
          ⟨_, hframes, entry, hmem, hunlookable⟩, hresult⟩)
    · refine .inl ⟨⟨hhas, frames, hframes, fun entry hentry => ?_⟩, ?_⟩
      · have hok := forM_eq_ok.mp hloop entry hentry
        rcases validateFrame_cases entry.1 entry.2 with ⟨hwell, -⟩ | ⟨_, -, h⟩ | ⟨-, h⟩
        · exact hwell
        · rw [hok] at h
          cases h
        · rw [hok] at h
          cases h
      · rw [hroot, hstart]
        simp only [hloop]
        rfl

end RovSdk.SchemaDiagnostics
