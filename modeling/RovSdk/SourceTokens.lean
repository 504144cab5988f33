import Mathlib.Data.List.Basic
import Mathlib.Data.List.Infix

/-!
Tokens of source text in the C family: words, strings and single signs, with the line ends
that directives need.  A comment counts as a blank, and a backslash at the end of a line
joins it to the next.  Texts are read piece by piece: what a piece adds depends only on
where the reader stands before it.
-/

namespace RovSdk.SourceTokens

section Machine

variable {σ α β : Type*} (step : σ → α → σ × List β)

def run : σ → List α → σ × List β
  | s, [] => (s, [])
  | s, a :: rest =>
      ((run (step s a).1 rest).1, (step s a).2 ++ (run (step s a).1 rest).2)

theorem run_append (s : σ) (first rest : List α) :
    run step s (first ++ rest) =
      ((run step (run step s first).1 rest).1,
        (run step s first).2 ++ (run step (run step s first).1 rest).2) := by
  induction first generalizing s with
  | nil => rfl
  | cons a first ih =>
      rw [List.cons_append, run, run, ih, List.append_assoc]

/-- Letters that keep the machine where it is and emit nothing. -/
theorem run_of_quiet {s : σ} {text : List α} (h : ∀ a ∈ text, step s a = (s, [])) :
    run step s text = (s, []) := by
  induction text with
  | nil => rfl
  | cons a text ih =>
      obtain ⟨ha, htext⟩ := List.forall_mem_cons.mp h
      rw [run, ha, ih htext]
      rfl

/-- From one place the text leads to another and emits this. -/
def Runs (s : σ) (text : List α) (out : List β) (s' : σ) : Prop := run step s text = (s', out)

instance [DecidableEq σ] [DecidableEq β] (s : σ) (text : List α) (out : List β) (s' : σ) :
    Decidable (Runs step s text out s') := inferInstanceAs (Decidable (_ = _))

variable {step} {s s' s'' : σ} {text text' : List α} {out out' : List β}

theorem Runs.append (h : Runs step s text out s') (h' : Runs step s' text' out' s'') :
    Runs step s (text ++ text') (out ++ out') s'' := by
  rw [Runs, run_append, h, h']

theorem Runs.cons {a : α} (h : step s a = (s', out)) (h' : Runs step s' text out' s'') :
    Runs step s (a :: text) (out ++ out') s'' := by
  rw [Runs, run, h, h']

end Machine

/-- Lines that each end in a separator are split at it, with nothing behind the last. -/
theorem splitOn_terminated {α : Type*} [BEq α] [LawfulBEq α] {sep : α} {lines : List (List α)}
    (h : ∀ line ∈ lines, sep ∉ line) :
    (lines.flatMap (· ++ [sep])).splitOn sep = lines ++ [[]] := by
  induction lines with
  | nil => rfl
  | cons line lines ih =>
      obtain ⟨hline, hlines⟩ := List.forall_mem_cons.mp h
      rw [List.flatMap_cons, List.append_assoc, List.singleton_append,
        List.splitOn_append_cons_self_of_not_mem hline, ih hlines]
      rfl

inductive Token where
  | word (chars : List Char)
  | text (chars : List Char)
  | sign (c : Char)
  | newline
  deriving DecidableEq, Repr

/-- Where the reader stands: in code behind the letters of a word, behind a slash that may
start a comment, in a comment of either kind, or in a string. -/
inductive Mode where
  | code (word : List Char)
  | slash (word : List Char)
  | line
  | block
  | star
  | quoted (chars : List Char)
  | escaped (chars : List Char)
  deriving DecidableEq, Repr

def isWordChar (c : Char) : Bool := c.isAlphanum || c == '_'

def endWord : List Char → List Token
  | [] => []
  | word => [.word word]

def codeStep (word : List Char) (c : Char) : Mode × List Token :=
  if isWordChar c then (.code (word ++ [c]), [])
  else if c = '/' then (.slash word, [])
  else if c = '\"' then (.quoted [], endWord word)
  else if c = '\n' then (.code [], endWord word ++ [.newline])
  else if c = ' ' ∨ c = '\t' then (.code [], endWord word)
  else (.code [], endWord word ++ [.sign c])

def step : Mode → Char → Mode × List Token
  | .code word, c => codeStep word c
  | .slash word, c =>
      if c = '/' then (.line, endWord word)
      else if c = '*' then (.block, endWord word)
      else ((codeStep [] c).1, endWord word ++ .sign '/' :: (codeStep [] c).2)
  | .line, c => if c = '\n' then (.code [], [.newline]) else (.line, [])
  | .block, c => if c = '*' then (.star, []) else (.block, [])
  | .star, c =>
      if c = '/' then (.code [], []) else if c = '*' then (.star, []) else (.block, [])
  | .quoted chars, c =>
      if c = '\"' then (.code [], [.text chars])
      else if c = '\\' then (.escaped chars, [])
      else if c = '\n' then (.code [], [.newline])
      else (.quoted (chars ++ [c]), [])
  | .escaped chars, c => (.quoted (chars ++ ['\\', c]), [])

def isBlank (c : Char) : Bool := c ∈ [' ', '\t', '\x0b', '\x0c', '\x00']

/-- A backslash at the end of a line, with blanks behind it or not, joins it to the next. -/
def continued : List Char → Bool
  | [] => false
  | c :: line => c == '\\' && line.all isBlank || continued line

/-- The text with its continued lines joined; the letters from such a backslash to the line
end are dropped. -/
def splice (dropping : Bool) : List Char → List Char
  | [] => []
  | c :: text =>
      if dropping then splice (c != '\n') text
      else if c = '\\' ∧ (text.dropWhile isBlank).head? = some '\n' then splice true text
      else c :: splice false text

/-- The tokens of each line, the last line being read as if it ended. -/
def tokenLines (text : List Char) : List (List Token) :=
  (run step (.code []) (splice false (text ++ ['\n']))).2.splitOn .newline

/-- From one place the text leads to another and adds these tokens. -/
abbrev Reads : Mode → List Char → List Token → Mode → Prop := Runs step

theorem codeStep_eq {c : Char} (hword : isWordChar c = false) (hslash : c ≠ '/')
    (word : List Char) :
    codeStep word c = ((codeStep [] c).1, endWord word ++ (codeStep [] c).2) := by
  simp only [codeStep, hword, hslash, Bool.false_eq_true, if_false]
  split_ifs <;> simp [endWord]

/-- Code that starts with no letter ends the word before it. -/
def endsWord (text : List Char) : Bool :=
  text.head?.any fun c => !isWordChar c && c != '/'

theorem Reads.behindWord {text : List Char} {ts : List Token} {m : Mode}
    (h : Reads (.code []) text ts m) (htext : endsWord text = true) (word : List Char) :
    Reads (.code word) text (endWord word ++ ts) m := by
  cases text with
  | nil => cases htext
  | cons c text =>
      simp only [endsWord, List.head?_cons, Option.any_some, Bool.and_eq_true, Bool.not_eq_true',
        bne_iff_ne] at htext
      have hstep : step (.code word) c =
          ((codeStep [] c).1, endWord word ++ (codeStep [] c).2) :=
        codeStep_eq htext.1 htext.2 word
      obtain ⟨rfl, rfl⟩ := Prod.mk.inj h
      rw [Reads, Runs, run, hstep, List.append_assoc]
      rfl

def IsWord (chars : List Char) : Prop := chars ≠ [] ∧ chars.all isWordChar = true

instance (chars : List Char) : Decidable (IsWord chars) := inferInstanceAs (Decidable (_ ∧ _))

theorem not_mem_of_isWord {chars : List Char} (h : IsWord chars) {c : Char}
    (hc : isWordChar c = false) : c ∉ chars := by
  intro hmem
  rw [List.all_eq_true.mp h.2 c hmem] at hc
  cases hc

/-- The words in small letters that are not free in C and C++: keywords, the signs spelt out,
the types a header needs and predefined macros. -/
def reservedWords : List String :=
  ["alignas", "alignof", "and", "and_eq", "asm", "auto", "bitand", "bitor", "bool", "break",
    "case", "catch", "char", "char8_t", "char16_t", "char32_t", "class", "compl", "concept",
    "const", "consteval", "constexpr", "constinit", "const_cast", "continue", "co_await",
    "co_return", "co_yield", "decltype", "default", "delete", "do", "double", "dynamic_cast",
    "else", "enum", "explicit", "export", "extern", "false", "float", "for", "friend", "goto",
    "if", "inline", "int", "long", "mutable", "namespace", "new", "noexcept", "not", "not_eq",
    "nullptr", "operator", "or", "or_eq", "private", "protected", "public", "register",
    "reinterpret_cast", "requires", "restrict", "return", "short", "signed", "sizeof", "static",
    "static_assert", "static_cast", "struct", "switch", "template", "this", "thread_local",
    "throw", "true", "try", "typedef", "typeid", "typename", "typeof", "typeof_unqual", "union",
    "unsigned", "using", "virtual", "void", "volatile", "wchar_t", "while", "xor", "xor_eq",
    "size_t", "uint8_t", "errno", "i386", "linux", "unix"]

/-- A name that a declaration in C or C++ can take.  Names that start with a capital or an
underscore are left to macros. -/
def IsIdentifier (chars : List Char) : Prop :=
  chars.head?.any Char.isLower = true ∧ chars.all isWordChar = true ∧
    chars ∉ reservedWords.map String.toList

instance (chars : List Char) : Decidable (IsIdentifier chars) :=
  inferInstanceAs (Decidable (_ ∧ _ ∧ _))

theorem IsIdentifier.isWord {chars : List Char} (h : IsIdentifier chars) : IsWord chars := by
  refine ⟨?_, h.2.1⟩
  rintro rfl
  exact absurd h.1 Bool.false_ne_true

def OneLine (text : List Char) : Prop := '\n' ∉ text ∧ '\r' ∉ text

instance (text : List Char) : Decidable (OneLine text) := inferInstanceAs (Decidable (_ ∧ _))

theorem oneLine_append {first last : List Char} :
    OneLine (first ++ last) ↔ OneLine first ∧ OneLine last := by
  simp only [OneLine, List.mem_append, not_or]
  exact and_and_and_comm

theorem OneLine.append {first last : List Char} (h : OneLine first) (h' : OneLine last) :
    OneLine (first ++ last) :=
  oneLine_append.mpr ⟨h, h'⟩

theorem IsWord.oneLine {chars : List Char} (h : IsWord chars) : OneLine chars :=
  ⟨not_mem_of_isWord h rfl, not_mem_of_isWord h rfl⟩

theorem endWord_of_ne_nil {word : List Char} (h : word ≠ []) : endWord word = [.word word] := by
  cases word with
  | nil => exact absurd rfl h
  | cons c word => rfl

theorem reads_letters {letters : List Char} (h : ∀ c ∈ letters, isWordChar c = true)
    (word : List Char) : Reads (.code word) letters [] (.code (word ++ letters)) := by
  induction letters generalizing word with
  | nil => rw [List.append_nil]; rfl
  | cons c letters ih =>
      obtain ⟨hc, hletters⟩ := List.forall_mem_cons.mp h
      have hstep : step (.code word) c = (.code (word ++ [c]), []) := if_pos hc
      have hrest := Runs.cons hstep (ih hletters (word ++ [c]))
      rwa [List.append_assoc] at hrest

theorem reads_word {chars : List Char} (h : IsWord chars) :
    Reads (.code []) chars [] (.code chars) :=
  reads_letters (List.all_eq_true.mp h.2) []

/-- Signs stand for themselves. -/
def IsSign (c : Char) : Prop :=
  isWordChar c = false ∧ c ∉ ['/', '\"', '\n', ' ', '\t']

instance (c : Char) : Decidable (IsSign c) := inferInstanceAs (Decidable (_ ∧ _))

theorem reads_sign {c : Char} (h : IsSign c) (word : List Char) :
    Reads (.code word) [c] (endWord word ++ [.sign c]) (.code []) := by
  obtain ⟨hword, hmem⟩ := h
  simp only [List.mem_cons, List.not_mem_nil, or_false, not_or] at hmem
  obtain ⟨hslash, hquote, hnewline, hblank, htab⟩ := hmem
  have hstep : step (.code []) c = (.code [], [.sign c]) := by
    rw [step, codeStep, if_neg (by rw [hword]; decide), if_neg hslash, if_neg hquote,
      if_neg hnewline, if_neg (not_or.mpr ⟨hblank, htab⟩)]
    rfl
  have hread : Reads (.code []) [c] [.sign c] (.code []) := by
    rw [Reads, Runs, run, hstep, run, List.append_nil]
  refine hread.behindWord ?_ word
  rw [endsWord, List.head?_cons, Option.any_some, hword, bne_iff_ne.mpr hslash]
  rfl

theorem reads_blank (word : List Char) : Reads (.code word) [' '] (endWord word) (.code []) := by
  have hread : Reads (.code []) [' '] [] (.code []) := rfl
  have hbehind := hread.behindWord rfl word
  rwa [List.append_nil] at hbehind

theorem reads_newline (word : List Char) :
    Reads (.code word) ['\n'] (endWord word ++ [.newline]) (.code []) := by
  have hread : Reads (.code []) ['\n'] [.newline] (.code []) := rfl
  exact hread.behindWord rfl word

/-- The tokens of a text by itself. -/
def tokensOf (text : List Char) : List Token :=
  match run step (.code []) text with
  | (.code word, ts) => ts ++ endWord word
  | (_, ts) => ts

theorem tokensOf_eq {text word : List Char} {ts : List Token}
    (h : Reads (.code []) text ts (.code word)) : tokensOf text = ts ++ endWord word := by
  rw [tokensOf, h]

/-- A text without blanks, comments and strings. -/
def IsSolid (text : List Char) : Prop := ∀ c ∈ text, isWordChar c = true ∨ IsSign c

/-- A solid text adds tokens, and of signs only its own. -/
theorem reads_solid {text : List Char} (h : IsSolid text) (word : List Char) :
    ∃ ts word', Reads (.code word) text ts (.code word') ∧
      (∀ c, Token.sign c ∈ ts ++ endWord word' → c ∈ text) ∧
      (word ++ text ≠ [] → ts ++ endWord word' ≠ []) := by
  induction text generalizing word with
  | nil =>
      refine ⟨[], word, rfl, ?_, ?_⟩
      · intro c hc
        cases word with
        | nil => exact absurd hc List.not_mem_nil
        | cons d word => simp [endWord] at hc
      · intro hne
        rw [List.append_nil] at hne
        rw [List.nil_append, endWord_of_ne_nil hne]
        exact List.cons_ne_nil _ _
  | cons c text ih =>
      obtain ⟨hc, htext⟩ := List.forall_mem_cons.mp h
      rcases hc with hc | hc
      · obtain ⟨ts, word', hread, hsigns, hne⟩ := ih htext (word ++ [c])
        refine ⟨ts, word', (reads_letters (List.forall_mem_singleton.mpr hc) word).append hread,
          ?_, ?_⟩
        · exact fun d hd => List.mem_cons_of_mem c (hsigns d hd)
        · exact fun _ => hne (by simp)
      · obtain ⟨ts, word', hread, hsigns, -⟩ := ih htext []
        refine ⟨endWord word ++ [Token.sign c] ++ ts, word', ?_, ?_, ?_⟩
        · exact (reads_sign hc word).append hread
        · intro d hd
          rw [List.append_assoc, List.append_assoc, List.mem_append, List.mem_append] at hd
          rcases hd with hd | hd | hd
          · cases word with
            | nil => exact absurd hd List.not_mem_nil
            | cons e word => simp [endWord] at hd
          · obtain rfl := Token.sign.inj (List.mem_singleton.mp hd)
            exact List.mem_cons_self
          · exact List.mem_cons_of_mem c (hsigns d hd)
        · intro _
          simp

theorem reads_lineComment {text : List Char} (h : '\n' ∉ text) (word : List Char) :
    Reads (.code word) ('/' :: '/' :: (text ++ ['\n'])) (endWord word ++ [.newline])
      (.code []) := by
  have htext : Reads .line text [] .line := by
    apply run_of_quiet
    intro c hc
    have hne : c ≠ '\n' := ne_of_mem_of_not_mem hc h
    exact if_neg hne
  have hend : Reads .line ['\n'] [.newline] (.code []) := rfl
  have hopen : step (.slash word) '/' = (.line, endWord word) := rfl
  have hslash : step (.code word) '/' = (.slash word, []) := rfl
  have hread := Runs.cons hslash (Runs.cons hopen (htext.append hend))
  exact hread

/-- In a block comment nothing is read before a star and a slash come together. -/
theorem reads_inBlock {text : List Char} (h : ¬['*', '/'] <:+: text) :
    (∃ m, (m = .block ∨ m = .star) ∧ Reads .block text [] m) ∧
      (text.head? ≠ some '/' → ∃ m, (m = .block ∨ m = .star) ∧ Reads .star text [] m) := by
  induction text with
  | nil => exact ⟨⟨.block, .inl rfl, rfl⟩, fun _ => ⟨.star, .inr rfl, rfl⟩⟩
  | cons c text ih =>
      have htext : ¬['*', '/'] <:+: text := fun hends =>
        h (hends.trans (List.suffix_cons c text).isInfix)
      obtain ⟨⟨m, hm, hblock⟩, hstar⟩ := ih htext
      have hafter : c = '*' → ∃ m, (m = .block ∨ m = .star) ∧ Reads .star text [] m := by
        rintro rfl
        refine hstar fun hhead => h ?_
        obtain ⟨rest, rfl⟩ : ∃ rest, text = '/' :: rest := List.head?_eq_some_iff.mp hhead
        exact ⟨[], rest, rfl⟩
      constructor
      · rcases eq_or_ne c '*' with hc | hc
        · obtain ⟨m', hm', hread⟩ := hafter hc
          have hstep : step .block c = (.star, []) := if_pos hc
          exact ⟨m', hm', Runs.cons hstep hread⟩
        · have hstep : step .block c = (.block, []) := if_neg hc
          exact ⟨m, hm, Runs.cons hstep hblock⟩
      · intro hhead
        have hslash : c ≠ '/' := fun heq => hhead (congrArg some heq)
        rcases eq_or_ne c '*' with hc | hc
        · obtain ⟨m', hm', hread⟩ := hafter hc
          have hstep : step .star c = (.star, []) := (if_neg hslash).trans (if_pos hc)
          exact ⟨m', hm', Runs.cons hstep hread⟩
        · have hstep : step .star c = (.block, []) := (if_neg hslash).trans (if_neg hc)
          exact ⟨m, hm, Runs.cons hstep hblock⟩

theorem reads_blockComment {text : List Char} (h : ¬['*', '/'] <:+: text) (word : List Char) :
    Reads (.code word) ('/' :: '*' :: ' ' :: (text ++ [' ', '*', '/'])) (endWord word)
      (.code []) := by
  obtain ⟨⟨m, hm, hread⟩, -⟩ := reads_inBlock h
  have hend : Reads m [' ', '*', '/'] [] (.code []) := by
    rcases hm with rfl | rfl
    · rfl
    · rfl
  have hblank : step .block ' ' = (.block, []) := rfl
  have hopen : step (.slash word) '*' = (.block, endWord word) := rfl
  have hslash : step (.code word) '/' = (.slash word, []) := rfl
  have hcomment := Runs.cons hslash (Runs.cons hopen (Runs.cons hblank (hread.append hend)))
  rwa [List.nil_append, List.nil_append, List.nil_append, List.append_nil] at hcomment

theorem newline_not_mem_endWord (word : List Char) : Token.newline ∉ endWord word := by
  cases word with
  | nil => exact List.not_mem_nil
  | cons c word => simp [endWord]

theorem newline_not_mem_step {c : Char} (h : c ≠ '\n') (m : Mode) :
    Token.newline ∉ (step m c).2 := by
  have hcode : ∀ word, Token.newline ∉ (codeStep word c).2 := by
    intro word
    rw [codeStep]
    split_ifs <;> simp [newline_not_mem_endWord]
  cases m with
  | code word => exact hcode word
  | slash word =>
      rw [step]
      split_ifs
      · exact newline_not_mem_endWord word
      · exact newline_not_mem_endWord word
      · simp [newline_not_mem_endWord, hcode]
  | line => simp [step, h]
  | block =>
      rw [step]
      split_ifs <;> simp
  | star =>
      rw [step]
      split_ifs <;> simp
  | quoted chars =>
      rw [step]
      split_ifs <;> simp
  | escaped chars => simp [step]

theorem Reads.newline_not_mem {m m' : Mode} {text : List Char} {ts : List Token}
    (h : Reads m text ts m') (htext : '\n' ∉ text) : Token.newline ∉ ts := by
  induction text generalizing m ts with
  | nil =>
      obtain ⟨-, rfl⟩ := Prod.mk.inj h
      exact List.not_mem_nil
  | cons c text ih =>
      rw [List.mem_cons, not_or] at htext
      obtain ⟨hm, rfl⟩ := Prod.mk.inj h
      rw [List.mem_append, not_or]
      exact ⟨newline_not_mem_step (Ne.symm htext.1) m, ih (Prod.ext hm rfl) htext.2⟩

theorem Reads.newline_not_mem_code {m : Mode} {text word : List Char} {ts : List Token}
    (h : Reads m text ts (.code word)) (htext : '\n' ∉ text) :
    Token.newline ∉ ts ++ endWord word := by
  rw [List.mem_append, not_or]
  exact ⟨h.newline_not_mem htext, newline_not_mem_endWord word⟩

section Lines

theorem continued_append (first last : List Char) :
    continued (first ++ last) = (continued first && last.all isBlank || continued last) := by
  induction first with
  | nil => rfl
  | cons c first ih =>
      rw [List.cons_append, continued, continued, ih, List.all_append, Bool.and_or_distrib_right,
        Bool.and_assoc, Bool.or_assoc]

theorem continued_of_not_mem {line : List Char} (h : '\\' ∉ line) : continued line = false := by
  induction line with
  | nil => rfl
  | cons c line ih =>
      rw [List.mem_cons, not_or] at h
      rw [continued, beq_false_of_ne (Ne.symm h.1), Bool.false_and, Bool.false_or, ih h.2]

/-- Where not all letters are blank, one of them is the first that is not. -/
theorem mem_of_head?_dropWhile {line rest : List Char} {c : Char}
    (h : line.all isBlank = false) (hhead : ((line ++ rest).dropWhile isBlank).head? = some c) :
    c ∈ line := by
  induction line with
  | nil => cases h
  | cons d line ih =>
      rw [List.cons_append, List.dropWhile_cons] at hhead
      split_ifs at hhead with hblank
      · rw [List.all_cons, hblank, Bool.true_and] at h
        exact List.mem_cons_of_mem d (ih h hhead)
      · obtain rfl := Option.some.inj hhead
        exact List.mem_cons_self

structure Spells (line : List Char) (ts : List Token) : Prop where
  reads : Reads (.code []) (line ++ ['\n']) (ts ++ [.newline]) (.code [])
  oneLine : OneLine line
  ended : continued line = false
  tokens : .newline ∉ ts

theorem spells_iff {line : List Char} {ts : List Token} :
    Spells line ts ↔ Reads (.code []) (line ++ ['\n']) (ts ++ [.newline]) (.code []) ∧
      OneLine line ∧ continued line = false ∧ .newline ∉ ts :=
  ⟨fun h => ⟨h.reads, h.oneLine, h.ended, h.tokens⟩, fun h => ⟨h.1, h.2.1, h.2.2.1, h.2.2.2⟩⟩

instance (line : List Char) (ts : List Token) : Decidable (Spells line ts) :=
  decidable_of_iff _ spells_iff.symm

def lineTokens (line : List Char) : List Token :=
  (run step (.code []) (line ++ ['\n'])).2.dropLast

theorem spells_code {line : List Char} {ts : List Token} {word : List Char}
    (h : Reads (.code []) line ts (.code word)) (hline : OneLine line)
    (hended : continued line = false) : Spells line (ts ++ endWord word) where
  reads := by
    rw [List.append_assoc]
    exact h.append (reads_newline word)
  oneLine := hline
  ended := hended
  tokens := h.newline_not_mem_code hline.1

theorem spells_lineComment {code comment : List Char} {ts : List Token} {word : List Char}
    (h : Reads (.code []) code ts (.code word)) (hcode : OneLine code)
    (hcomment : OneLine comment) (hended : continued comment = false) :
    Spells (code ++ '/' :: '/' :: comment) (ts ++ endWord word) where
  reads := by
    rw [List.append_assoc, List.append_assoc]
    exact h.append (reads_lineComment hcomment.1 word)
  oneLine := by
    have hslashes : OneLine ['/', '/'] := by decide
    exact hcode.append (hslashes.append hcomment)
  ended := by
    have hslash : isBlank '/' = false := by decide
    rw [continued_append, List.all_cons, hslash, Bool.false_and, Bool.and_false, Bool.false_or]
    exact hended
  tokens := h.newline_not_mem_code hcode.1

theorem spells_blockComment {code comment : List Char} {ts : List Token} {word : List Char}
    (h : Reads (.code []) code ts (.code word)) (hcode : OneLine code)
    (hcomment : OneLine comment) (hinside : ¬['*', '/'] <:+: comment) :
    Spells (code ++ '/' :: '*' :: ' ' :: (comment ++ [' ', '*', '/'])) (ts ++ endWord word) where
  reads := by
    exact (h.append (reads_blockComment hinside word)).append (reads_newline [])
  oneLine := by
    have hopen : OneLine ['/', '*', ' '] := by decide
    exact hcode.append (hopen.append (hcomment.append (by decide)))
  ended := by
    have hclose : [' ', '*', '/'].all isBlank = false := by decide
    rw [← List.cons_append, ← List.cons_append, ← List.cons_append, ← List.append_assoc,
      continued_append, hclose, Bool.and_false]
    rfl
  tokens := h.newline_not_mem_code hcode.1

theorem Spells.behind {code rest : List Char} {ts ts' : List Token} (h' : Spells rest ts')
    (h : Reads (.code []) code ts (.code [])) (hcode : OneLine code)
    (hrest : rest.all isBlank = false) : Spells (code ++ rest) (ts ++ ts') where
  reads := by
    rw [List.append_assoc, List.append_assoc]
    exact h.append h'.reads
  oneLine := hcode.append h'.oneLine
  ended := by
    rw [continued_append, hrest, Bool.and_false, Bool.false_or]
    exact h'.ended
  tokens := by
    rw [List.mem_append, not_or]
    exact ⟨h.newline_not_mem hcode.1, h'.tokens⟩

theorem splice_line {line : List Char} (hline : '\n' ∉ line) (hended : continued line = false)
    (rest : List Char) :
    splice false (line ++ '\n' :: rest) = line ++ '\n' :: splice false rest := by
  induction line with
  | nil => rfl
  | cons c line ih =>
      rw [List.mem_cons, not_or] at hline
      rw [continued, Bool.or_eq_false_iff] at hended
      have hstays : ¬(c = '\\' ∧
          ((line ++ '\n' :: rest).dropWhile isBlank).head? = some '\n') := by
        rintro ⟨rfl, hhead⟩
        rw [beq_self_eq_true, Bool.true_and] at hended
        exact hline.2 (mem_of_head?_dropWhile hended.1 hhead)
      rw [List.cons_append, splice, if_neg Bool.false_ne_true, if_neg hstays,
        ih hline.2 hended.2]
      rfl

variable {lines : List (List Char)} {ts : List (List Token)}

theorem splice_lines (h : List.Forall₂ Spells lines ts) :
    splice false (lines.flatMap (· ++ ['\n'])) = lines.flatMap (· ++ ['\n']) := by
  induction h with
  | nil => rfl
  | cons hline _ ih =>
      rw [List.flatMap_cons, List.append_assoc, List.singleton_append,
        splice_line hline.oneLine.1 hline.ended, ih]

theorem reads_lines (h : List.Forall₂ Spells lines ts) :
    Reads (.code []) (lines.flatMap (· ++ ['\n'])) (ts.flatMap (· ++ [.newline])) (.code []) := by
  induction h with
  | nil => rfl
  | cons hline _ ih => exact hline.reads.append ih

theorem tokenLines_of_spells {text : List Char} (h : List.Forall₂ Spells lines ts)
    (htext : text ++ ['\n'] = lines.flatMap (· ++ ['\n'])) : tokenLines text = ts ++ [[]] := by
  have hnewline : ∀ line ∈ ts, Token.newline ∉ line := by
    clear htext
    induction h with
    | nil => exact fun _ hmem => absurd hmem List.not_mem_nil
    | cons hline _ ih => exact List.forall_mem_cons.mpr ⟨hline.tokens, ih⟩
  rw [tokenLines, htext, splice_lines h, reads_lines h, splitOn_terminated hnewline]

end Lines

end RovSdk.SourceTokens
