import Mathlib.Algebra.Group.Nat.Defs
import Mathlib.Algebra.Ring.Int.Defs

/-!
Python values as the YAML loader builds them and the generators use them.  A float is
one that 32 bits hold exactly, told by its pattern; dates, bytes and sets are left out.
-/

namespace RovSdk.PythonValues

inductive PyVal where
  | none
  | bool (b : Bool)
  | int (n : Int)
  | float (bits : UInt32)
  | str (s : String)
  | list (items : List PyVal)
  | dict (entries : List (PyVal × PyVal))

/-- Exceptions.  The text of a `ValueError` is the pieces of its format string. -/
inductive PyError where
  | keyError (key : PyVal)
  | typeError
  | attributeError
  | valueError (text : List PyVal)
  | structError

/-- The conversions of the runtime that nothing here depends on: `int` of a float or a
text, and packing an integer or a text as a 32-bit float. -/
structure Runtime where
  intOfFloat : UInt32 → Except PyError Int
  intOfText : String → Except PyError Int
  f32OfInt : Int → Except PyError UInt32
  f32OfText : String → Except PyError UInt32

namespace PyVal

def hashable : PyVal → Bool
  | list _ => false
  | dict _ => false
  | _ => true

def keyInt : PyVal → Option Int
  | bool b => some (if b then 1 else 0)
  | int n => some n
  | _ => Option.none

/-- The integer that a float equals, told from its 32-bit pattern. -/
def floatInt (bits : UInt32) : Option Int :=
  let exponent := (bits >>> 23 &&& 0xFF).toNat
  let fraction := (bits &&& 0x7FFFFF).toNat
  if exponent = 255 then Option.none
  else
    -- the significand counts units of 2 ^ (scale - 150)
    let significand := if exponent = 0 then fraction else 2 ^ 23 + fraction
    let scale := max exponent 1
    if significand % 2 ^ (150 - scale) = 0 then
      let magnitude : Int := significand / 2 ^ (150 - scale) * 2 ^ (scale - 150)
      some (if bits >>> 31 = 1 then -magnitude else magnitude)
    else Option.none

def whole : PyVal → Option Int
  | float bits => floatInt bits
  | v => v.keyInt

/-- Whether two hashable values are one key of a mapping.  Floats, told by their patterns,
are the same number where the patterns are or where both are zero. -/
def sameKey : PyVal → PyVal → Bool
  | str s, str t => s == t
  | float v, float w => v == w || (v ||| w) &&& 0x7FFFFFFF == 0
  | none, none => true
  | v, w =>
      match v.whole, w.whole with
      | some m, some n => m == n
      | _, _ => false

theorem sameKey_self {v : PyVal} (h : v.hashable = true) : v.sameKey v = true := by
  cases v with
  | none => rfl
  | bool b => exact beq_self_eq_true _
  | int n => exact beq_self_eq_true n
  | float bits => simp [sameKey]
  | str s => exact beq_self_eq_true s
  | list items => cases h
  | dict entries => cases h

def lookup (entries : List (PyVal × PyVal)) (key : PyVal) : Option PyVal :=
  (entries.find? fun entry => entry.1.sameKey key).map Prod.snd

def getItem (d key : PyVal) : Except PyError PyVal :=
  match d with
  | dict entries =>
      if key.hashable then
        match lookup entries key with
        | some v => .ok v
        | Option.none => .error (.keyError key)
      else .error .typeError
  | _ => .error .typeError

def get (d key default : PyVal) : Except PyError PyVal :=
  match d with
  | dict entries => .ok ((lookup entries key).getD default)
  | _ => .error .attributeError

/-- The items that `len` counts and `*` unpacks. -/
def items : PyVal → Except PyError (List PyVal)
  | list xs => .ok xs
  | str s => .ok (s.toList.map fun c => str (String.singleton c))
  | dict entries => .ok (entries.map Prod.fst)
  | _ => .error .typeError

/-- One byte of `struct.pack("<B", v)`. -/
def packU8 (v : PyVal) : Except PyError UInt8 :=
  match v.keyInt with
  | some n => if 0 ≤ n ∧ n < 256 then .ok (UInt8.ofNat n.toNat) else .error .structError
  | Option.none => .error .structError

/-- One byte of `bytes([v])`. -/
def toByte (v : PyVal) : Except PyError UInt8 :=
  match v.keyInt with
  | some n =>
      if 0 ≤ n ∧ n < 256 then .ok (UInt8.ofNat n.toNat)
      else .error (.valueError [str "bytes must be in range(0, 256)"])
  | Option.none => .error .typeError

end PyVal

def Runtime.int (py : Runtime) : PyVal → Except PyError Int
  | .bool b => .ok (if b then 1 else 0)
  | .int n => .ok n
  | .float bits => py.intOfFloat bits
  | .str s => py.intOfText s
  | _ => .error .typeError

/-- The bits of one item of `struct.pack("<…f", …)`, which takes numbers alone. -/
def Runtime.packF32 (py : Runtime) : PyVal → Except PyError UInt32
  | .bool b => py.f32OfInt (if b then 1 else 0)
  | .int n => py.f32OfInt n
  | .float bits => .ok bits
  | _ => .error .structError

/-- The bits of `struct.pack("<f", float(v))`. -/
def Runtime.f32 (py : Runtime) : PyVal → Except PyError UInt32
  | .bool b => py.f32OfInt (if b then 1 else 0)
  | .int n => py.f32OfInt n
  | .float bits => .ok bits
  | .str s => py.f32OfText s
  | _ => .error .typeError

end RovSdk.PythonValues
