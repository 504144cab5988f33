import Mathlib.Data.String.Basic
import RovSdk.HeaderText
import RovSdk.SourceTokens

namespace RovSdk.SourceNames

open RovSdk.Results
open RovSdk.PythonValues
open RovSdk.CodeGenerator
open RovSdk.SourceTokens
open RovSdk.HeaderText (intText)

theorem isWordChar_toUpper_toLower {c : Char} (h : isWordChar c = true) :
    isWordChar c.toUpper = true ∧ isWordChar c.toLower = true := by
  have hsmall : c.toNat < 128 := by
    change ((decide (c.val ≥ 65 ∧ c.val ≤ 90) || (decide (c.val ≥ 97) && decide (c.val ≤ 122)) ||
      (decide (c.val ≥ 48) && decide (c.val ≤ 57))) || c == '_') = true at h
    simp only [Bool.or_eq_true, Bool.and_eq_true, decide_eq_true_eq, beq_iff_eq,
      UInt32.le_iff_toNat_le] at h
    rcases h with ((h | h) | h) | rfl
    · exact h.2.trans_lt (by decide)
    · exact h.2.trans_lt (by decide)
    · exact h.2.trans_lt (by decide)
    · decide
  have hall : ∀ n < 128, isWordChar (Char.ofNat n) = true →
      isWordChar (Char.ofNat n).toUpper = true ∧ isWordChar (Char.ofNat n).toLower = true := by
    decide
  have hcases := hall c.toNat hsmall
  rw [Char.ofNat_toNat] at hcases
  exact hcases h

/-- The pieces of a text are made of its characters. -/
theorem mem_of_mem_splitOn {c sep : Char} {text piece : List Char}
    (hpiece : piece ∈ text.splitOn sep) (h : c ∈ piece) : c ∈ text := by
  induction text generalizing piece with
  | nil =>
      obtain rfl := List.mem_singleton.mp hpiece
      exact h
  | cons d text ih =>
      rw [List.splitOn_cons_eq_if_modifyHead] at hpiece
      split_ifs at hpiece
      · rcases List.mem_cons.mp hpiece with rfl | hpiece
        · exact absurd h List.not_mem_nil
        · exact List.mem_cons_of_mem d (ih hpiece h)
      · rcases hpieces : text.splitOn sep with _ | ⟨first, pieces⟩
        · exact absurd hpieces (List.splitOn_ne_nil sep text)
        · rw [hpieces] at hpiece ih
          rcases List.mem_cons.mp hpiece with rfl | hpiece
          · exact List.mem_cons.mpr
              ((List.mem_cons.mp h).imp_right fun hc => ih List.mem_cons_self hc)
          · exact List.mem_cons_of_mem d (ih (List.mem_cons_of_mem first hpiece) h)

/-- What Python's `str`, `capitalize` and `upper` do with a text of ASCII letters, digits and
underscores. -/
structure KeepsWords (py : TextRuntime) (str : PyVal → List Char) : Prop where
  str_text : ∀ s, str (.str s) = s.toList
  capitalize : ∀ s : String, s.toList.all isWordChar = true →
    (py.capitalize s).toList.all isWordChar = true
  upper : ∀ s : String, s.toList.all isWordChar = true → (py.upper s).toList.all isWordChar = true

variable {py : TextRuntime} {str : PyVal → List Char} {name : PyVal} {s : String}

/-- A text that can stand as a name in the headers. -/
def FreeName (name : PyVal) : Prop := ∃ s : String, name = .str s ∧ IsIdentifier s.toList

instance : DecidablePred FreeName
  | .str s => decidable_of_iff (IsIdentifier s.toList)
      ⟨fun h => ⟨s, rfl, h⟩, fun ⟨_, hs, h⟩ => PyVal.str.inj hs ▸ h⟩
  | .int _ | .bool _ | .float _ | .none | .list _ | .dict _ =>
      isFalse fun ⟨_, hs, _⟩ => nomatch hs

theorem isIdentifier_of_freeName (hpy : KeepsWords py str) (h : FreeName name) :
    IsIdentifier (str name) := by
  obtain ⟨s, rfl, hs⟩ := h
  rwa [hpy.str_text]

theorem all_camel (hpy : KeepsWords py str) (h : FreeName name) (hs : camel py name = .ok s) :
    s.toList.all isWordChar = true := by
  obtain ⟨text, rfl, hword⟩ := h
  obtain rfl := Except.ok.inj hs
  rw [String.toList_join, List.all_eq_true]
  intro c hc
  obtain ⟨piece, hpiece, hc⟩ := List.mem_flatMap.mp hc
  obtain ⟨part, hpart, rfl⟩ := List.mem_map.mp hpiece
  have hpiece : (String.ofList part).toList.all isWordChar = true := by
    rw [String.toList_ofList, List.all_eq_true]
    exact fun d hd => List.all_eq_true.mp hword.isWord.2 d (mem_of_mem_splitOn hpart hd)
  exact List.all_eq_true.mp (hpy.capitalize _ hpiece) c hc

theorem all_upperName (hpy : KeepsWords py str) (h : FreeName name)
    (hs : upperName py name = .ok s) : s.toList.all isWordChar = true := by
  obtain ⟨text, rfl, hword⟩ := h
  obtain rfl := Except.ok.inj hs
  exact hpy.upper text hword.isWord.2

def plainText : PyVal → List Char
  | .str s => s.toList
  | .int n => intText n
  | _ => []

theorem keepsWords_plainRuntime : KeepsWords plainRuntime plainText where
  str_text _ := rfl
  capitalize s hs := by
    rw [List.all_eq_true] at hs ⊢
    change ∀ c ∈ (String.ofList ((s.toList.map Char.toLower).modifyHead Char.toUpper)).toList, _
    intro c hc
    rw [String.toList_ofList] at hc
    rcases hchars : s.toList with _ | ⟨d, chars⟩
    · rw [hchars] at hc
      exact absurd hc List.not_mem_nil
    · rw [hchars] at hs hc
      rcases List.mem_cons.mp hc with rfl | hc
      · have hlower := (isWordChar_toUpper_toLower (hs d List.mem_cons_self)).2
        exact (isWordChar_toUpper_toLower hlower).1
      · obtain ⟨e, he, rfl⟩ := List.mem_map.mp hc
        exact (isWordChar_toUpper_toLower (hs e (List.mem_cons_of_mem _ he))).2
  upper s hs := by
    rw [List.all_eq_true] at hs ⊢
    change ∀ c ∈ (String.ofList (s.toList.map Char.toUpper)).toList, _
    intro c hc
    rw [String.toList_ofList] at hc
    obtain ⟨d, hd, rfl⟩ := List.mem_map.mp hc
    exact (isWordChar_toUpper_toLower (hs d hd)).1

end RovSdk.SourceNames
