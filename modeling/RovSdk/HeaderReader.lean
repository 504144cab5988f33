import RovSdk.HeaderText
import RovSdk.SourceTokens

namespace RovSdk.HeaderReader

open RovSdk.PythonValues
open RovSdk.CodeGenerator
open RovSdk.SourceTokens
open RovSdk.HeaderText

section Reader

structure MemberDecl where
  type : List Char
  name : List Char
  count : Option (List Char)
  deriving DecidableEq

inductive Line where
  | constant (name : List Char) (value : List Token)
  | opens (name : List Char)
  | member (m : MemberDecl)
  | closes (name : List Char)
  | asserts (struct : List Char) (size : List Token)
  | other
  deriving DecidableEq

/-- The end of a member, with or without an initialiser. -/
def endsMember (rest : List Token) : Bool :=
  rest == [.sign ';'] || rest == [.sign '{', .sign '}', .sign ';']

def readMember (type : List Char) : List Token → Line
  | .word name :: .sign '[' :: .word count :: .sign ']' :: rest =>
      if endsMember rest ∧ IsIdentifier name then .member ⟨type, name, some count⟩ else .other
  | .word name :: rest =>
      if endsMember rest ∧ IsIdentifier name then .member ⟨type, name, none⟩ else .other
  | _ => .other

def readConstexpr : List Token → Line
  | .word _ :: .word _ :: .word name :: .sign '=' :: rest =>
      .constant name (rest.takeWhile (· != .sign ';'))
  | _ => .other

def readAssert : List Token → Line
  | .sign '(' :: .word _ :: .sign '(' :: .word struct :: .sign ')' :: .sign '=' :: .sign '=' ::
      rest => .asserts struct (rest.takeWhile (· != .sign ','))
  | _ => .other

def readOpening : List Token → Line
  | [.word name, .sign '{'] => .opens name
  | _ => .other

/-- The start of a packed struct, from `struct` to the brace. -/
def packedStruct : List Token :=
  [.word "struct".toList, .word "__attribute__".toList, .sign '(', .sign '(',
    .word "packed".toList, .sign ')', .sign ')', .sign '{']

def readTypedef (rest : List Token) : Line := if rest = packedStruct then .opens [] else .other

def readDeclaration (first : List Char) (rest : List Token) : Line :=
  if first = "inline".toList then readConstexpr rest
  else if first = "struct".toList then readOpening rest
  else if first = "typedef".toList then readTypedef rest
  else if first = "_Static_assert".toList then readAssert rest
  else readMember first rest

def readDirective : List Token → Line
  | .word directive :: .word name :: value =>
      if directive = "define".toList ∧ value ≠ [] then .constant name value else .other
  | _ => .other

def readClosing : List Token → Line
  | [.sign ';'] => .closes []
  | [.word name, .sign ';'] => .closes name
  | _ => .other

def readLine : List Token → Line
  | .sign '#' :: rest => readDirective rest
  | .sign '}' :: rest => readClosing rest
  | .word first :: rest => readDeclaration first rest
  | _ => .other

theorem readLine_inline (rest : List Token) :
    readLine (.word "inline".toList :: rest) = readConstexpr rest := by
  rw [readLine, readDeclaration, if_pos rfl]

theorem readLine_define {name : List Char} {value : List Token} (h : value ≠ []) :
    readLine (.sign '#' :: .word "define".toList :: .word name :: value) =
      .constant name value := by
  rw [readLine, readDirective, if_pos ⟨rfl, h⟩]

theorem readLine_assert (rest : List Token) :
    readLine (.word "_Static_assert".toList :: rest) = readAssert rest := by
  rw [readLine, readDeclaration, if_neg (by decide +kernel), if_neg (by decide +kernel),
    if_neg (by decide +kernel), if_pos rfl]

theorem readLine_member {type : List Char} (h : type ∈ ["uint8_t".toList, "float".toList])
    (rest : List Token) : readLine (.word type :: rest) = readMember type rest := by
  simp only [List.mem_cons, List.not_mem_nil, or_false] at h
  rcases h with rfl | rfl <;>
    rw [readLine, readDeclaration, if_neg (by decide +kernel), if_neg (by decide +kernel),
      if_neg (by decide +kernel), if_neg (by decide +kernel)]

/-- The declarations read so far, with the struct that is open. -/
structure Reading where
  constants : List (List Char × List Token) := []
  structs : List (List Char × List MemberDecl) := []
  sizes : List (List Char × List Token) := []
  opened : List Char := []
  members : List MemberDecl := []
  deriving DecidableEq

def Reading.add (r : Reading) : Line → Reading
  | .constant name value => { r with constants := r.constants ++ [(name, value)] }
  | .opens name => { r with opened := name, members := [] }
  | .member m => { r with members := r.members ++ [m] }
  | .closes name =>
      { r with
        structs := r.structs ++ [(r.opened ++ name, r.members)]
        opened := []
        members := [] }
  | .asserts struct size => { r with sizes := r.sizes ++ [(struct, size)] }
  | .other => r

/-- What a header declares as it stands; macros are not expanded. -/
def readHeader (text : List Char) : Reading :=
  ((tokenLines text).map readLine).foldl Reading.add {}

end Reader

section Lines

def Declares (line : List Char) (l : Line) : Prop := ∃ ts, Spells line ts ∧ readLine ts = l

/-- The lines lead the reader from one state to another. -/
def Adds (lines : List (List Char)) (r r' : Reading) : Prop :=
  ∃ ls, List.Forall₂ Declares lines ls ∧ ls.foldl Reading.add r = r'

theorem Adds.append {lines lines' : List (List Char)} {r r' r'' : Reading}
    (h : Adds lines r r') (h' : Adds lines' r' r'') : Adds (lines ++ lines') r r'' := by
  obtain ⟨ls, hls, rfl⟩ := h
  obtain ⟨ls', hls', rfl⟩ := h'
  exact ⟨ls ++ ls', List.rel_append hls hls', List.foldl_append⟩

/-- Lines of fixed text, of which these declare something. -/
def declareOnly (lines : List (List Char)) (ls : List Line) : Bool :=
  lines.all (fun line => decide (Spells line (lineTokens line))) &&
    (lines.map fun line => readLine (lineTokens line)).filter (· != .other) == ls

theorem adds_fixed {lines : List (List Char)} (ls : List Line) (h : declareOnly lines ls = true)
    (r : Reading) : Adds lines r (ls.foldl Reading.add r) := by
  rw [declareOnly, Bool.and_eq_true, beq_iff_eq] at h
  obtain ⟨hall, rfl⟩ := h
  refine ⟨lines.map fun line => readLine (lineTokens line), ?_, ?_⟩
  · rw [List.forall₂_map_right_iff, List.forall₂_same]
    intro line hline
    exact ⟨lineTokens line, of_decide_eq_true (List.all_eq_true.mp hall line hline), rfl⟩
  · generalize lines.map (fun line => readLine (lineTokens line)) = ls
    induction ls generalizing r with
    | nil => rfl
    | cons l ls ih =>
        rcases eq_or_ne l .other with rfl | hl
        · exact ih r
        · rw [List.filter_cons_of_pos (by simpa using hl), List.foldl_cons, List.foldl_cons, ih]

theorem adds_constants {α : Type} {items : List α} {line : α → List Char}
    (decl : α → List Char × List Token)
    (h : ∀ a ∈ items, Declares (line a) (.constant (decl a).1 (decl a).2)) (r : Reading) :
    Adds (items.map line) r { r with constants := r.constants ++ items.map decl } := by
  induction items generalizing r with
  | nil => exact ⟨[], .nil, by simp⟩
  | cons a items ih =>
      obtain ⟨ha, hitems⟩ := List.forall_mem_cons.mp h
      obtain ⟨ls, hls, hfold⟩ := ih hitems (r.add (.constant (decl a).1 (decl a).2))
      refine ⟨_ :: ls, .cons ha hls, ?_⟩
      rw [List.foldl_cons, hfold]
      simp [Reading.add]

theorem adds_members {members : List Member} {line : Member → List Char}
    {decl : Member → MemberDecl} (h : ∀ m ∈ members, Declares (line m) (.member (decl m)))
    (r : Reading) :
    Adds (members.map line) r { r with members := r.members ++ members.map decl } := by
  induction members generalizing r with
  | nil => exact ⟨[], .nil, by simp⟩
  | cons m members ih =>
      obtain ⟨hm, hmembers⟩ := List.forall_mem_cons.mp h
      obtain ⟨ls, hls, hfold⟩ := ih hmembers (r.add (.member (decl m)))
      refine ⟨_ :: ls, .cons hm hls, ?_⟩
      rw [List.foldl_cons, hfold]
      simp [Reading.add]

theorem readHeader_rendered {lines : List (List Char)} {r : Reading} (h : Adds lines {} r)
    (hne : lines ≠ []) : readHeader (rendered lines) = r := by
  obtain ⟨ls, hls, rfl⟩ := h
  have hspells : ∃ ts, List.Forall₂ Spells lines ts ∧ ts.map readLine = ls := by
    clear hne
    induction hls with
    | nil => exact ⟨[], .nil, rfl⟩
    | cons hline _ ih =>
        obtain ⟨t, hspells, rfl⟩ := hline
        obtain ⟨ts, hts, rfl⟩ := ih
        exact ⟨t :: ts, .cons hspells hts, rfl⟩
  obtain ⟨ts, hts, rfl⟩ := hspells
  have htext : rendered lines ++ ['\n'] = lines.flatMap (· ++ ['\n']) := by
    obtain rfl | ⟨first, last, rfl⟩ := List.eq_nil_or_concat lines
    · exact absurd rfl hne
    · rw [rendered, List.concat_eq_append, List.flatMap_append, List.flatMap_singleton,
        ← List.append_assoc, List.dropLast_concat]
  rw [readHeader, tokenLines_of_spells hts htext, List.map_append, List.foldl_append]
  rfl

theorem Adds.oneLine {lines : List (List Char)} {r r' : Reading} (h : Adds lines r r') :
    ∀ line ∈ lines, OneLine line := by
  obtain ⟨ls, hls, -⟩ := h
  clear r'
  induction hls with
  | nil => exact fun _ hmem => absurd hmem List.not_mem_nil
  | cons hline _ ih =>
      obtain ⟨ts, hspells, -⟩ := hline
      exact List.forall_mem_cons.mpr ⟨hspells.oneLine, ih⟩

theorem cr_not_mem_rendered {lines : List (List Char)} (h : ∀ line ∈ lines, OneLine line) :
    '\r' ∉ rendered lines := by
  intro hmem
  obtain ⟨line, hline, hcr⟩ := List.mem_flatMap.mp (List.dropLast_subset _ hmem)
  rcases List.mem_append.mp hcr with hcr | hcr
  · exact (h line hline).2 hcr
  · exact absurd hcr (by decide)

/-- A text that can stand as a value: words and signs, the `;` left out. -/
structure IsValue (value : List Char) : Prop where
  nonempty : value ≠ []
  solid : IsSolid value
  oneLine : OneLine value
  stops : ∀ c ∈ [';', ',', '\\'], c ∉ value

theorem IsValue.reads {value : List Char} (h : IsValue value) :
    ∃ ts word, Reads (.code []) value ts (.code word) ∧ tokensOf value = ts ++ endWord word ∧
      tokensOf value ≠ [] ∧ ∀ c ∈ [';', ','], Token.sign c ∉ tokensOf value := by
  obtain ⟨ts, word, hread, hsigns, hne⟩ := reads_solid h.solid []
  have htokens := tokensOf_eq hread
  refine ⟨ts, word, hread, htokens, ?_, ?_⟩
  · rw [htokens]
    exact hne h.nonempty
  · intro c hc hmem
    rw [htokens] at hmem
    refine h.stops c ?_ (hsigns c hmem)
    revert hc
    simp only [List.mem_cons, List.not_mem_nil, or_false]
    exact fun hc => hc.elim .inl fun hc => .inr (.inl hc)

theorem takeWhile_until {ts : List Token} {c : Char} (h : Token.sign c ∉ ts)
    (rest : List Token) : (ts ++ .sign c :: rest).takeWhile (· != .sign c) = ts := by
  rw [List.takeWhile_append_of_pos fun t ht => bne_iff_ne.mpr (ne_of_mem_of_not_mem ht h),
    List.takeWhile_cons_of_neg (by simp), List.append_nil]

theorem declares_cppConstant {type name : String} {value comment : List Char}
    (htype : IsWord type.toList) (hname : IsWord name.toList) (hvalue : IsValue value)
    (hcomment : Spells comment []) (hne : comment.all isBlank = false) :
    Declares (cppConstantLine type name value comment)
      (.constant name.toList (tokensOf value)) := by
  obtain ⟨ts, word, hread, htokens, -, hstops⟩ := hvalue.reads
  have hstart : Reads (.code []) "inline constexpr ".toList
      [.word "inline".toList, .word "constexpr".toList] (.code []) := by decide +kernel
  have hsign : Reads (.code []) " = ".toList [.sign '='] (.code []) := by decide +kernel
  have hassign := hsign.behindWord (by decide +kernel) name.toList
  have hend : Reads (.code word) ";".toList (endWord word ++ [.sign ';']) (.code []) :=
    reads_sign (by decide) word
  have hcode := (((((hstart.append (reads_word htype)).append (reads_blank _)).append
    (reads_word hname)).append hassign).append hread).append hend
  have hline : OneLine ("inline constexpr ".toList ++ type.toList ++ " ".toList ++ name.toList ++
      " = ".toList ++ value ++ ";".toList) := by
    simp only [oneLine_append]
    exact ⟨⟨⟨⟨⟨⟨by decide, htype.oneLine⟩, by decide⟩, hname.oneLine⟩, by decide⟩, hvalue.oneLine⟩,
      by decide⟩
  refine ⟨_, hcomment.behind hcode hline hne, ?_⟩
  have hts : [.word "inline".toList, .word "constexpr".toList] ++ [] ++ endWord type.toList ++ [] ++
      (endWord name.toList ++ [.sign '=']) ++ ts ++ (endWord word ++ [.sign ';']) ++ [] =
      .word "inline".toList :: .word "constexpr".toList :: .word type.toList ::
        .word name.toList :: .sign '=' :: (tokensOf value ++ [.sign ';']) := by
    simp only [htokens, endWord_of_ne_nil htype.1, endWord_of_ne_nil hname.1, List.append_nil,
      List.append_assoc, List.cons_append, List.nil_append]
  have hvalueTokens := takeWhile_until (hstops ';' (by decide)) []
  exact (congrArg readLine hts).trans
    ((readLine_inline _).trans (congrArg (Line.constant name.toList) hvalueTokens))

theorem declares_cConstant {name : String} {value : List Char} (hname : IsWord name.toList)
    (hvalue : IsValue value) :
    Declares (cConstantLine name value) (.constant name.toList (tokensOf value)) := by
  obtain ⟨ts, word, hread, htokens, hne, -⟩ := hvalue.reads
  have hstart : Reads (.code []) "#define ".toList [.sign '#', .word "define".toList]
      (.code []) := by decide +kernel
  have hcode := ((hstart.append (reads_word hname)).append (reads_blank _)).append hread
  have hline : OneLine ("#define ".toList ++ name.toList ++ " ".toList ++ value) := by
    simp only [oneLine_append]
    exact ⟨⟨⟨by decide, hname.oneLine⟩, by decide⟩, hvalue.oneLine⟩
  have hended : continued ("#define ".toList ++ name.toList ++ " ".toList ++ value) = false := by
    refine continued_of_not_mem ?_
    simp only [List.mem_append, not_or]
    exact ⟨⟨⟨by decide, not_mem_of_isWord hname rfl⟩, by decide⟩, hvalue.stops '\\' (by decide)⟩
  refine ⟨_, spells_code hcode hline hended, ?_⟩
  have hts : [.sign '#', .word "define".toList] ++ [] ++ endWord name.toList ++ ts ++
      endWord word = .sign '#' :: .word "define".toList :: .word name.toList :: tokensOf value := by
    simp only [htokens, endWord_of_ne_nil hname.1, List.append_nil, List.cons_append,
      List.nil_append]
  exact (congrArg readLine hts).trans (readLine_define hne)

theorem isValue_of_mem {value : List Char} (hne : value ≠ [])
    (h : ∀ c ∈ value, c = '-' ∨ isWordChar c = true) : IsValue value := by
  have hnot : ∀ c ∈ [';', ',', '\\', '\n', '\r'], c ∉ value := by
    intro c hc hmem
    rcases h c hmem with rfl | hword
    · revert hc
      decide
    · simp only [List.mem_cons, List.not_mem_nil, or_false] at hc
      rcases hc with rfl | rfl | rfl | rfl | rfl <;> exact absurd hword (by decide)
  refine ⟨hne, ?_, ⟨hnot '\n' (by decide), hnot '\r' (by decide)⟩, ?_⟩
  · intro c hc
    rcases h c hc with rfl | hword
    · exact .inr (by decide)
    · exact .inl hword
  · intro c hc
    refine hnot c ?_
    simp only [List.mem_cons, List.not_mem_nil, or_false] at hc ⊢
    rcases hc with rfl | rfl | rfl <;> simp

theorem isWordChar_of_isDigit {c : Char} (h : c.isDigit = true) : isWordChar c = true := by
  rw [isWordChar, Char.isAlphanum, h, Bool.or_true, Bool.true_or]

theorem isWord_toDigits (n : Nat) : IsWord (Nat.toDigits 10 n) := by
  refine ⟨Nat.toDigits_ne_nil, List.all_eq_true.mpr fun c hc => ?_⟩
  exact isWordChar_of_isDigit (Nat.isDigit_of_mem_toDigits (by decide) (by decide) hc)

theorem isValue_intText (n : Int) : IsValue (intText n) := by
  refine isValue_of_mem (List.append_ne_nil_of_right_ne_nil _ Nat.toDigits_ne_nil) ?_
  intro c hc
  rw [intText, List.mem_append] at hc
  rcases hc with hc | hc
  · split_ifs at hc
    · exact .inl (List.mem_singleton.mp hc)
    · exact absurd hc List.not_mem_nil
  · exact .inr (List.all_eq_true.mp (isWord_toDigits n.natAbs).2 c hc)

theorem declares_assertion {packet value message : List Char} (hpacket : IsWord packet)
    (hmessage : Spells (" \"".toList ++ packet ++ " size mismatch\");".toList)
      [.text message, .sign ')', .sign ';']) (hvalue : IsValue value) :
    Declares ("_Static_assert(sizeof(".toList ++ packet ++ ") == ".toList ++ value ++ ",".toList ++
      (" \"".toList ++ packet ++ " size mismatch\");".toList))
      (.asserts packet (tokensOf value)) := by
  obtain ⟨ts, word, hread, htokens, -, hstops⟩ := hvalue.reads
  have hstart : Reads (.code []) "_Static_assert(sizeof(".toList
      [.word "_Static_assert".toList, .sign '(', .word "sizeof".toList, .sign '(']
      (.code []) := by decide +kernel
  have hsigns : Reads (.code []) ") == ".toList [.sign ')', .sign '=', .sign '='] (.code []) := by
    decide +kernel
  have hequal := hsigns.behindWord (by decide +kernel) packet
  have hcomma : Reads (.code word) ",".toList (endWord word ++ [.sign ',']) (.code []) :=
    reads_sign (by decide) word
  have hcode := (((hstart.append (reads_word hpacket)).append hequal).append hread).append hcomma
  have hline : OneLine ("_Static_assert(sizeof(".toList ++ packet ++ ") == ".toList ++
      value ++ ",".toList) := by
    simp only [oneLine_append]
    exact ⟨⟨⟨⟨by decide, hpacket.oneLine⟩, by decide⟩, hvalue.oneLine⟩, by decide⟩
  have hbehind : (" \"".toList ++ packet ++ " size mismatch\");".toList).all isBlank = false := by
    rw [List.all_append, List.all_append]
    exact Bool.and_eq_false_imp.mpr fun _ => by decide
  refine ⟨_, hmessage.behind hcode hline hbehind, ?_⟩
  have hts : [.word "_Static_assert".toList, .sign '(', .word "sizeof".toList, .sign '('] ++ [] ++
      (endWord packet ++ [.sign ')', .sign '=', .sign '=']) ++ ts ++
      (endWord word ++ [.sign ',']) ++ [.text message, .sign ')', .sign ';'] =
      .word "_Static_assert".toList :: .sign '(' :: .word "sizeof".toList :: .sign '(' ::
        .word packet :: .sign ')' :: .sign '=' :: .sign '=' ::
        (tokensOf value ++ .sign ',' :: [.text message, .sign ')', .sign ';']) := by
    simp only [htokens, endWord_of_ne_nil hpacket.1, List.append_nil, List.append_assoc,
      List.cons_append, List.nil_append]
  have hvalueTokens := takeWhile_until (hstops ',' (by decide))
    [.text message, .sign ')', .sign ';']
  exact (congrArg readLine hts).trans
    ((readLine_assert _).trans (congrArg (Line.asserts packet) hvalueTokens))

theorem declares_cAssert {packet : String} (message : List Char) (hpacket : IsWord packet.toList)
    (hmessage : Spells (" \"".toList ++ packet.toList ++ " size mismatch\");".toList)
      [.text message, .sign ')', .sign ';']) (size : Int) :
    Declares (cAssertLine packet size) (.asserts packet.toList (tokensOf (intText size))) := by
  have hline := declares_assertion hpacket hmessage (isValue_intText size)
  have hquote : ", \"".toList = ",".toList ++ " \"".toList := rfl
  unfold cAssertLine
  generalize intText size = value at hline ⊢
  rw [hquote]
  simpa only [List.append_assoc] using hline

/-- A member whose name is free, and whose notes stay in their comment. -/
structure PlainMember (str : PyVal → List Char) (m : Member) : Prop where
  type : m.type ≠ none
  name : IsIdentifier (str m.name)
  count : ∀ n, m.count = some n → 0 ≤ n
  oneLine : OneLine (str m.notes)
  star : ¬['*', '/'] <:+: str m.notes
  ended : continued (str m.notes) = false

def memberDecl (str : PyVal → List Char) (m : Member) : MemberDecl :=
  ⟨cType m.type, str m.name, m.count.map intText⟩

def declTokens (d : MemberDecl) : List Token :=
  .word d.type :: .word d.name ::
    match d.count with
    | some count => [.sign '[', .word count, .sign ']']
    | none => []

variable {str : PyVal → List Char} {m : Member}

theorem isWord_cType {type : Option ElemType} (h : type ≠ none) : IsWord (cType type) := by
  cases type with
  | none => exact absurd rfl h
  | some t => cases t <;> decide +kernel

theorem intText_of_nonneg {n : Int} (h : 0 ≤ n) : intText n = Nat.toDigits 10 n.natAbs := by
  rw [intText, if_neg (by omega), List.nil_append]

theorem isWord_intText {n : Int} (h : 0 ≤ n) : IsWord (intText n) := by
  rw [intText_of_nonneg h]
  exact isWord_toDigits n.natAbs

theorem declarator_eq (str : PyVal → List Char) (m : Member) :
    declarator str m =
      "    ".toList ++ cType m.type ++ " ".toList ++ str m.name ++ arraySize m.count := rfl

theorem reads_declarator (h : PlainMember str m) : ∃ ts word,
    Reads (.code []) (declarator str m) ts (.code word) ∧
      ts ++ endWord word = declTokens (memberDecl str m) := by
  have hindent : Reads (.code []) "    ".toList [] (.code []) := by decide +kernel
  have htype := isWord_cType h.type
  have hname := ((hindent.append (reads_word htype)).append (reads_blank _)).append
    (reads_word h.name.isWord)
  rw [List.append_nil, endWord_of_ne_nil htype.1] at hname
  rw [declarator_eq]
  rcases hcount : m.count with _ | n
  · refine ⟨[.word (cType m.type)], str m.name, ?_, ?_⟩
    · exact hname.append (rfl : Reads _ [] [] _)
    · simp [memberDecl, declTokens, hcount, endWord_of_ne_nil h.name.isWord.1]
  · have hsize := isWord_intText (h.count n hcount)
    have hopen : Reads (.code (str m.name)) "[".toList (endWord (str m.name) ++ [.sign '['])
        (.code []) := reads_sign (by decide) _
    have hclose : Reads (.code (intText n)) "]".toList (endWord (intText n) ++ [.sign ']'])
        (.code []) := reads_sign (by decide) _
    have harray := hname.append ((hopen.append (reads_word hsize)).append hclose)
    rw [endWord_of_ne_nil h.name.isWord.1, endWord_of_ne_nil hsize.1] at harray
    refine ⟨declTokens (memberDecl str m), [], ?_, List.append_nil _⟩
    simp only [hcount, memberDecl]
    exact harray

theorem readLine_declTokens (h : m.type ≠ none) (hname : IsIdentifier (str m.name))
    {rest : List Token} (hrest : endsMember rest = true) :
    readLine (declTokens (memberDecl str m) ++ rest) = .member (memberDecl str m) := by
  have hmember : readMember (cType m.type) ((declTokens (memberDecl str m)).tail ++ rest) =
      .member (memberDecl str m) := by
    rcases hcount : m.count with _ | n
    · have htail : ∀ count rest', rest ≠ .sign '[' :: .word count :: .sign ']' :: rest' := by
        rintro count rest' rfl
        cases hrest
      simp only [memberDecl, declTokens, hcount, Option.map_none, List.tail_cons,
        List.cons_append, List.nil_append]
      rw [readMember.eq_2 _ _ _ htail, if_pos ⟨hrest, hname⟩]
    · simp only [memberDecl, declTokens, hcount, Option.map_some, List.tail_cons,
        List.cons_append, List.nil_append]
      rw [readMember.eq_1, if_pos ⟨hrest, hname⟩]
  have htype : cType m.type ∈ ["uint8_t".toList, "float".toList] := by
    rcases htype : m.type with _ | t
    · exact absurd htype h
    · cases t with
      | u8 => exact List.mem_cons_self
      | f32 => exact List.mem_cons_of_mem _ List.mem_cons_self
  rw [← hmember]
  exact readLine_member htype _

theorem oneLine_declarator (h : PlainMember str m) : OneLine (declarator str m) := by
  have hsize : OneLine (arraySize m.count) := by
    rcases m.count with _ | n
    · exact ⟨List.not_mem_nil, List.not_mem_nil⟩
    · rw [arraySize, oneLine_append, oneLine_append]
      exact ⟨⟨by decide, (isValue_intText n).oneLine⟩, by decide⟩
  rw [declarator_eq]
  simp only [oneLine_append]
  exact ⟨⟨⟨⟨by decide, (isWord_cType h.type).oneLine⟩, by decide⟩, h.name.isWord.oneLine⟩, hsize⟩

theorem oneLine_blank : OneLine [' '] := by decide

/-- A line that starts with a declarator, and ends the member behind it. -/
theorem declares_member (h : PlainMember str m) {line : List Char} {rest : List Token}
    (hrest : endsMember rest = true)
    (hspells : ∀ ts word, Reads (.code []) (declarator str m) ts (.code word) →
      Spells line (ts ++ (endWord word ++ rest))) :
    Declares line (.member (memberDecl str m)) := by
  obtain ⟨ts, word, hread, htokens⟩ := reads_declarator h
  refine ⟨_, hspells ts word hread, ?_⟩
  rw [← List.append_assoc, htokens]
  exact readLine_declTokens h.type h.name hrest

theorem declares_cppMember (h : PlainMember str m) :
    Declares (cppMemberLine str m) (.member (memberDecl str m)) := by
  have hbraces : Reads (.code []) "\x7b\x7d; ".toList [.sign '{', .sign '}', .sign ';']
      (.code []) := by decide +kernel
  have hline : OneLine (declarator str m ++ "\x7b\x7d; ".toList) :=
    (oneLine_declarator h).append (by decide)
  have hcomment := oneLine_blank.append h.oneLine
  have htext : cppMemberLine str m =
      declarator str m ++ "\x7b\x7d; ".toList ++ '/' :: '/' :: ' ' :: str m.notes := by
    have hslashes : "\x7b\x7d; // ".toList = "\x7b\x7d; ".toList ++ ['/', '/', ' '] := rfl
    rw [cppMemberLine, hslashes]
    simp only [List.append_assoc, List.cons_append, List.nil_append]
  rw [htext]
  have hrest : endsMember [.sign '{', .sign '}', .sign ';'] = true := rfl
  refine declares_member h hrest fun ts word hread => ?_
  have hend := hread.append (hbraces.behindWord (by decide +kernel) word)
  have hspells := spells_lineComment hend hline hcomment h.ended
  rwa [endWord, List.append_nil] at hspells

theorem declares_cMember (h : PlainMember str m) :
    Declares (cMemberLine str m) (.member (memberDecl str m)) := by
  have hsemicolon : Reads (.code []) "; ".toList [.sign ';'] (.code []) := by decide +kernel
  have hline : OneLine (declarator str m ++ "; ".toList) :=
    (oneLine_declarator h).append (by decide)
  have htext : cMemberLine str m = declarator str m ++ "; ".toList ++
      '/' :: '*' :: ' ' :: (str m.notes ++ [' ', '*', '/']) := by
    have hopen : "; /* ".toList = "; ".toList ++ ['/', '*', ' '] := rfl
    have hclose : " */".toList = [' ', '*', '/'] := rfl
    rw [cMemberLine, hopen, hclose]
    simp only [List.append_assoc, List.cons_append, List.nil_append]
  rw [htext]
  have hrest : endsMember [.sign ';'] = true := rfl
  refine declares_member h hrest fun ts word hread => ?_
  have hend := hread.append (hsemicolon.behindWord (by decide +kernel) word)
  have hspells := spells_blockComment hend hline h.oneLine h.star
  rwa [endWord, List.append_nil] at hspells

theorem declares_cppOffset {o : String × Int} (hm : IsWord (str m.name))
    (ho : IsWord o.1.toList) :
    Declares (cppOffsetLine str m o) (.constant o.1.toList (tokensOf (intText o.2))) := by
  have hblank : Reads (.code []) [' '] [] (.code []) := rfl
  have hname := oneLine_blank.append hm.oneLine
  have hended : continued (str m.name) = false :=
    continued_of_not_mem (not_mem_of_isWord hm rfl)
  have hcomment : Spells (" // ".toList ++ str m.name) [] :=
    spells_lineComment hblank (by decide) hname hended
  have hslashes : (" // ".toList ++ str m.name).all isBlank = false := by
    rw [List.all_append]
    exact Bool.and_eq_false_iff.mpr (.inl (by decide))
  exact declares_cppConstant (by decide) ho (isValue_intText o.2) hcomment hslashes

structure PlainCpp (str : PyVal → List Char) (h : CppHeader) : Prop where
  values : ∀ v ∈ [h.kStx0, h.kStx1, h.kProtocolVersion, h.kTypeCmd, h.kTypeTele], IsValue v
  members : ∀ m ∈ h.cmdPacket ++ h.telemetryPacket, PlainMember str m
  offsets : ∀ o ∈ h.offsets, IsWord o.1.toList
  length : h.offsets.length = (h.cmdPacket ++ h.telemetryPacket).length

structure PlainC (str : PyVal → List Char) (h : CHeader) : Prop where
  values : ∀ v ∈ [h.ouStx0, h.ouStx1, h.ouProtocolVersion, h.ouTypeCmd, h.ouTypeTele], IsValue v
  members : ∀ m ∈ h.cmdPacket ++ h.telemetryPacket, PlainMember str m
  offsets : ∀ o ∈ h.offsets, IsWord o.1.toList

def offsetConstant (o : String × Int) : List Char × List Token :=
  (o.1.toList, tokensOf (intText o.2))

def cppConstants (h : CppHeader) : List (List Char × List Token) :=
  [("kStx0".toList, tokensOf h.kStx0), ("kStx1".toList, tokensOf h.kStx1),
    ("kProtocolVersion".toList, tokensOf h.kProtocolVersion),
    ("kTypeCmd".toList, tokensOf h.kTypeCmd), ("kTypeTele".toList, tokensOf h.kTypeTele),
    ("kNumThrusters".toList, tokensOf (intText h.kNumThrusters)),
    ("kFrameOverhead".toList, tokensOf (intText h.kFrameOverhead)),
    ("kCmdPayloadSize".toList, tokensOf (intText h.kCmdPayloadSize)),
    ("kTelePayloadSize".toList, tokensOf (intText h.kTelePayloadSize))]

def structsOf (str : PyVal → List Char) (cmd tele : List Member) :
    List (List Char × List MemberDecl) :=
  [("CmdPacket".toList, cmd.map (memberDecl str)),
    ("TelemetryPacket".toList, tele.map (memberDecl str))]

theorem adds_cppConstants {h : CppHeader} (hplain : PlainCpp str h) (r : Reading) :
    Adds (cppConstantLines h) r { r with constants := r.constants ++ cppConstants h } := by
  have hvalues := hplain.values
  simp only [List.forall_mem_cons] at hvalues
  obtain ⟨hstx0, hstx1, hversion, hcmd, htele, -⟩ := hvalues
  refine ⟨(cppConstants h).map fun c => .constant c.1 c.2, ?_, ?_⟩
  · refine .cons (declares_cppConstant ?_ ?_ hstx0 ?_ ?_) <|
      .cons (declares_cppConstant ?_ ?_ hstx1 ?_ ?_) <|
      .cons (declares_cppConstant ?_ ?_ hversion ?_ ?_) <|
      .cons (declares_cppConstant ?_ ?_ hcmd ?_ ?_) <|
      .cons (declares_cppConstant ?_ ?_ htele ?_ ?_) <|
      .cons (declares_cppConstant ?_ ?_ (isValue_intText _) ?_ ?_) <|
      .cons (declares_cppConstant ?_ ?_ (isValue_intText _) ?_ ?_) <|
      .cons (declares_cppConstant ?_ ?_ (isValue_intText _) ?_ ?_) <|
      .cons (declares_cppConstant ?_ ?_ (isValue_intText _) ?_ ?_) .nil
    all_goals decide +kernel
  · simp [cppConstants, Reading.add]

def cppReading (str : PyVal → List Char) (h : CppHeader) : Reading where
  constants := cppConstants h ++ h.offsets.map offsetConstant
  structs := structsOf str h.cmdPacket h.telemetryPacket

theorem adds_cppLines {h : CppHeader} (hplain : PlainCpp str h) :
    Adds (cppLines str h) {} (cppReading str h) := by
  have hmembers := hplain.members
  rw [List.forall_mem_append] at hmembers
  have hoffsets : ∀ r : Reading, Adds (List.zipWith (cppOffsetLine str)
      (h.cmdPacket ++ h.telemetryPacket) h.offsets) r
        { r with constants := r.constants ++ h.offsets.map offsetConstant } := by
    intro r
    have hzip : h.offsets.map offsetConstant =
        ((h.cmdPacket ++ h.telemetryPacket).zip h.offsets).map (offsetConstant ∘ Prod.snd) := by
      rw [← List.map_map, List.map_snd_zip (le_of_eq hplain.length)]
    rw [hzip, ← List.map_uncurry_zip_eq_zipWith]
    refine adds_constants _ ?_ r
    rintro ⟨m, o⟩ hmem
    obtain ⟨hm, ho⟩ := List.of_mem_zip hmem
    exact declares_cppOffset (hplain.members m hm).name.isWord (hplain.offsets o ho)
  have hcmd := adds_members fun m hm => declares_cppMember (hmembers.1 m hm)
  have htele := adds_members fun m hm => declares_cppMember (hmembers.2 m hm)
  exact ((((((((adds_fixed [] (by decide +kernel) _).append (adds_cppConstants hplain _)).append
    (adds_fixed [.opens "CmdPacket".toList] (by decide +kernel) _)).append (hcmd _)).append
    (adds_fixed [.closes [], .opens "TelemetryPacket".toList] (by decide +kernel) _)).append
    (htele _)).append (adds_fixed [.closes []] (by decide +kernel) _)).append (hoffsets _)).append
    (adds_fixed [] (by decide +kernel) _)

theorem readHeader_cppText {h : CppHeader} (hplain : PlainCpp str h) :
    readHeader (cppText str h) = cppReading str h :=
  readHeader_rendered (adds_cppLines hplain)
    (List.append_ne_nil_of_right_ne_nil _ (List.cons_ne_nil _ _))

theorem cr_not_mem_cppText {h : CppHeader} (hplain : PlainCpp str h) : '\r' ∉ cppText str h :=
  cr_not_mem_rendered (adds_cppLines hplain).oneLine

def cConstants (h : CHeader) : List (List Char × List Token) :=
  [("OU_STX0".toList, tokensOf h.ouStx0), ("OU_STX1".toList, tokensOf h.ouStx1),
    ("OU_PROTOCOL_VERSION".toList, tokensOf h.ouProtocolVersion),
    ("OU_TYPE_CMD".toList, tokensOf h.ouTypeCmd), ("OU_TYPE_TELE".toList, tokensOf h.ouTypeTele),
    ("OU_NUM_THRUSTERS".toList, tokensOf (intText h.ouNumThrusters)),
    ("OU_FRAME_OVERHEAD".toList, tokensOf (intText h.ouFrameOverhead)),
    ("OU_CMD_PAYLOAD_SIZE".toList, tokensOf (intText h.ouCmdPayloadSize)),
    ("OU_TELE_PAYLOAD_SIZE".toList, tokensOf (intText h.ouTelePayloadSize))]

def assertedSizes (h : CHeader) : List (List Char × List Token) :=
  [("CmdPacket".toList, tokensOf (intText h.assertedCmdSize)),
    ("TelemetryPacket".toList, tokensOf (intText h.assertedTeleSize))]

theorem adds_cConstants {h : CHeader} (hplain : PlainC str h) (r : Reading) :
    Adds (cConstantLines h) r { r with constants := r.constants ++ cConstants h } := by
  have hvalues := hplain.values
  simp only [List.forall_mem_cons] at hvalues
  obtain ⟨hstx0, hstx1, hversion, hcmd, htele, -⟩ := hvalues
  refine ⟨(cConstants h).map fun c => .constant c.1 c.2, ?_, ?_⟩
  · refine .cons (declares_cConstant ?_ hstx0) <| .cons (declares_cConstant ?_ hstx1) <|
      .cons (declares_cConstant ?_ hversion) <| .cons (declares_cConstant ?_ hcmd) <|
      .cons (declares_cConstant ?_ htele) <|
      .cons (declares_cConstant ?_ (isValue_intText _)) <|
      .cons (declares_cConstant ?_ (isValue_intText _)) <|
      .cons (declares_cConstant ?_ (isValue_intText _)) <|
      .cons (declares_cConstant ?_ (isValue_intText _)) .nil
    all_goals decide +kernel
  · simp [cConstants, Reading.add]

theorem adds_cAsserts (h : CHeader) (r : Reading) :
    Adds [cAssertLine "CmdPacket" h.assertedCmdSize,
      cAssertLine "TelemetryPacket" h.assertedTeleSize] r
        { r with sizes := r.sizes ++ assertedSizes h } := by
  have hcmd : Declares (cAssertLine "CmdPacket" h.assertedCmdSize) _ :=
    declares_cAssert "CmdPacket size mismatch".toList (by decide) (by decide +kernel) _
  have htele : Declares (cAssertLine "TelemetryPacket" h.assertedTeleSize) _ :=
    declares_cAssert "TelemetryPacket size mismatch".toList (by decide)
      (by decide +kernel) _
  refine ⟨_, .cons hcmd (.cons htele .nil), ?_⟩
  simp [assertedSizes, Reading.add]

def cReading (str : PyVal → List Char) (h : CHeader) : Reading where
  constants := cConstants h ++ h.offsets.map offsetConstant
  structs := structsOf str h.cmdPacket h.telemetryPacket
  sizes := assertedSizes h

theorem adds_cLines {h : CHeader} (hplain : PlainC str h) :
    Adds (cLines str h) {} (cReading str h) := by
  have hmembers := hplain.members
  rw [List.forall_mem_append] at hmembers
  have hoffsets := adds_constants offsetConstant fun o ho =>
    declares_cConstant (hplain.offsets o ho) (isValue_intText o.2)
  have hcmd := adds_members fun m hm => declares_cMember (hmembers.1 m hm)
  have htele := adds_members fun m hm => declares_cMember (hmembers.2 m hm)
  exact ((((((((adds_fixed [] (by decide +kernel) _).append (adds_cConstants hplain _)).append
    (adds_fixed [] (by decide +kernel) _)).append (hoffsets _)).append
    (adds_fixed [.opens []] (by decide +kernel) _)).append (hcmd _)).append
    (adds_fixed [.closes "CmdPacket".toList, .opens []] (by decide +kernel) _)).append
    (htele _)).append (adds_fixed [.closes "TelemetryPacket".toList] (by decide +kernel) _)
    |>.append (adds_cAsserts h _) |>.append (adds_fixed [] (by decide +kernel) _)

theorem readHeader_cText {h : CHeader} (hplain : PlainC str h) :
    readHeader (cText str h) = cReading str h :=
  readHeader_rendered (adds_cLines hplain)
    (List.append_ne_nil_of_right_ne_nil _ (List.cons_ne_nil _ _))

theorem cr_not_mem_cText {h : CHeader} (hplain : PlainC str h) : '\r' ∉ cText str h :=
  cr_not_mem_rendered (adds_cLines hplain).oneLine

end Lines

end RovSdk.HeaderReader
