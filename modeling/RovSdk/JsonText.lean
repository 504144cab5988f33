import RovSdk.SourceTokens

namespace RovSdk.JsonText

open RovSdk.SourceTokens

def isAtomChar (c : Char) : Bool := c.isAlphanum || c ∈ ['-', '+', '.']

/-- The literal of a number, or `null`, `true` or `false`. -/
structure Atom where
  text : List Char
  nonempty : text ≠ []
  chars : text.all isAtomChar = true
  deriving DecidableEq

inductive Json where
  | atom (a : Atom)
  | str (chars : List Char)
  | list (items : List Json)
  | obj (members : List (List Char × Json))

section Printing

/-- The escapes of a text; characters beyond ASCII stand for themselves. -/
def escape (c : Char) : List Char :=
  if c = '\"' then ['\\', '\"']
  else if c = '\\' then ['\\', '\\']
  else if c = '\n' then ['\\', 'n']
  else if c = '\r' then ['\\', 'r']
  else if c = '\t' then ['\\', 't']
  else if c = '\x08' then ['\\', 'b']
  else if c = '\x0c' then ['\\', 'f']
  else if c.toNat < 32 then
    ['\\', 'u', '0', '0', (c.toNat / 16).digitChar, (c.toNat % 16).digitChar]
  else [c]

def quote (chars : List Char) : List Char := '\"' :: (chars.flatMap escape ++ ['\"'])

def newline (level : Nat) : List Char := '\n' :: List.replicate (2 * level) ' '

mutual

def dump (level : Nat) : Json → List Char
  | .atom a => a.text
  | .str chars => quote chars
  | .list [] => ['[', ']']
  | .list (item :: items) =>
      '[' :: (newline (level + 1) ++ dump (level + 1) item ++ dumpItems (level + 1) items ++
        newline level ++ [']'])
  | .obj [] => ['{', '}']
  | .obj ((key, value) :: members) =>
      '{' :: (newline (level + 1) ++ quote key ++ [':', ' '] ++ dump (level + 1) value ++
        dumpMembers (level + 1) members ++ newline level ++ ['}'])

def dumpItems (level : Nat) : List Json → List Char
  | [] => []
  | item :: items => ',' :: (newline level ++ dump level item ++ dumpItems level items)

def dumpMembers (level : Nat) : List (List Char × Json) → List Char
  | [] => []
  | (key, value) :: members =>
      ',' :: (newline level ++ quote key ++ [':', ' '] ++ dump level value ++
        dumpMembers level members)

end

def dumps (value : Json) : List Char := dump 0 value

end Printing

section Reading

inductive Token where
  | atom (a : Atom)
  | text (chars : List Char)
  | sign (c : Char)
  deriving DecidableEq

/-- Where the reader stands: behind the letters of an atom, or in a text. -/
inductive Mode where
  | code (letters : List Char)
  | quoted (chars : List Char)
  | escaped (chars : List Char)
  | hex (chars digits : List Char)
  deriving DecidableEq

def endAtom (letters : List Char) : List Token :=
  if h : letters ≠ [] ∧ letters.all isAtomChar = true then [.atom ⟨letters, h.1, h.2⟩] else []

def unescape : Char → Char
  | 'n' => '\n'
  | 'r' => '\r'
  | 't' => '\t'
  | 'b' => '\x08'
  | 'f' => '\x0c'
  | c => c

def hexValue (c : Char) : Nat :=
  if c.isDigit then c.toNat - '0'.toNat
  else if 'a' ≤ c ∧ c ≤ 'f' then c.toNat - 'a'.toNat + 10
  else if 'A' ≤ c ∧ c ≤ 'F' then c.toNat - 'A'.toNat + 10
  else 0

/-- The character of four digits, read as one of the first plane. -/
def hexChar (digits : List Char) : Char :=
  Char.ofNat (digits.foldl (fun n c => 16 * n + hexValue c) 0)

def step : Mode → Char → Mode × List Token
  | .code letters, c =>
      if isAtomChar c then (.code (letters ++ [c]), [])
      else if c = '\"' then (.quoted [], endAtom letters)
      else if c ∈ [' ', '\n', '\r', '\t'] then (.code [], endAtom letters)
      else (.code [], endAtom letters ++ [.sign c])
  | .quoted chars, c =>
      if c = '\"' then (.code [], [.text chars])
      else if c = '\\' then (.escaped chars, [])
      else (.quoted (chars ++ [c]), [])
  | .escaped chars, c =>
      if c = 'u' then (.hex chars [], []) else (.quoted (chars ++ [unescape c]), [])
  | .hex chars digits, c =>
      if digits.length < 3 then (.hex chars (digits ++ [c]), [])
      else (.quoted (chars ++ [hexChar (digits ++ [c])]), [])

/-- The tokens of a text, which is read as if a line end followed. -/
def tokens (text : List Char) : List Token := (run step (.code []) (text ++ ['\n'])).2

/-- A container that is not closed yet; an object with the key read last. -/
inductive Open where
  | list (items : List Json)
  | obj (members : List (List Char × Json)) (key : List Char)

inductive Due where
  | value
  | firstValue
  | key
  | firstKey
  | colon
  | separator

inductive Reader where
  | reading (stack : List Open) (due : Due)
  | done (value : Json)
  | failed

/-- A value that is complete goes into the container that is open. -/
def put (value : Json) : List Open → Reader
  | [] => .done value
  | .list items :: stack => .reading (.list (items ++ [value]) :: stack) .separator
  | .obj members key :: stack => .reading (.obj (members ++ [(key, value)]) key :: stack) .separator

def takeValue (stack : List Open) : Token → Reader
  | .atom a => put (.atom a) stack
  | .text chars => put (.str chars) stack
  | .sign c =>
      if c = '[' then .reading (.list [] :: stack) .firstValue
      else if c = '{' then .reading (.obj [] [] :: stack) .firstKey
      else .failed

def takeKey : List Open → Token → Reader
  | .obj members _ :: stack, .text key => .reading (.obj members key :: stack) .colon
  | _, _ => .failed

/-- A bracket closes the container on top, if it is one of its kind. -/
def close (c : Char) : List Open → Reader
  | .list items :: stack => if c = ']' then put (.list items) stack else .failed
  | .obj members _ :: stack => if c = '}' then put (.obj members) stack else .failed
  | [] => .failed

def next : List Open → Reader
  | .list items :: stack => .reading (.list items :: stack) .value
  | .obj members key :: stack => .reading (.obj members key :: stack) .key
  | [] => .failed

def take : Reader → Token → Reader
  | .reading stack .value, t => takeValue stack t
  | .reading stack .firstValue, t =>
      if t = .sign ']' then close ']' stack else takeValue stack t
  | .reading stack .key, t => takeKey stack t
  | .reading stack .firstKey, t => if t = .sign '}' then close '}' stack else takeKey stack t
  | .reading stack .colon, t => if t = .sign ':' then .reading stack .value else .failed
  -- a comma asks for the next item or member
  | .reading stack .separator, .sign c => if c = ',' then next stack else close c stack
  | _, _ => .failed

def parse (text : List Char) : Option Json :=
  match (tokens text).foldl take (.reading [] .value) with
  | .done value => some value
  | _ => none

end Reading

section Letters

theorem reads_escape (c : Char) (chars : List Char) :
    Runs step (.quoted chars) (escape c) [] (.quoted (chars ++ [c])) := by
  have hshort : ∀ letter, letter ≠ 'u' → unescape letter = c →
      Runs step (.quoted chars) ['\\', letter] [] (.quoted (chars ++ [c])) := by
    rintro letter hletter rfl
    have hslash : step (.quoted chars) '\\' = (.escaped chars, []) := rfl
    have hstep : step (.escaped chars) letter = (.quoted (chars ++ [unescape letter]), []) :=
      if_neg hletter
    exact Runs.cons hslash (Runs.cons hstep rfl)
  rw [escape]
  split_ifs with hquote hslash hline hreturn htab hback hfeed hcontrol
  · exact hshort _ (by decide) hquote.symm
  · exact hshort _ (by decide) hslash.symm
  · exact hshort _ (by decide) hline.symm
  · exact hshort _ (by decide) hreturn.symm
  · exact hshort _ (by decide) htab.symm
  · exact hshort _ (by decide) hback.symm
  · exact hshort _ (by decide) hfeed.symm
  · have hall : ∀ n < 32, hexChar ['0', '0', (n / 16).digitChar, (n % 16).digitChar] =
        Char.ofNat n := by decide
    have hchar := hall c.toNat hcontrol
    have hread : ∀ d e, Runs step (.quoted chars) ['\\', 'u', '0', '0', d, e] []
        (.quoted (chars ++ [hexChar ['0', '0', d, e]])) := fun _ _ => rfl
    have hdigits := hread (c.toNat / 16).digitChar (c.toNat % 16).digitChar
    rwa [hchar, Char.ofNat_toNat] at hdigits
  · have hstep : step (.quoted chars) c = (.quoted (chars ++ [c]), []) :=
      (if_neg hquote).trans (if_neg hslash)
    exact Runs.cons hstep rfl

theorem reads_escapes (text chars : List Char) :
    Runs step (.quoted chars) (text.flatMap escape) [] (.quoted (chars ++ text)) := by
  induction text generalizing chars with
  | nil =>
      rw [List.append_nil]
      rfl
  | cons c text ih =>
      have hrest := (reads_escape c chars).append (ih (chars ++ [c]))
      rwa [List.append_assoc] at hrest

theorem reads_quote (text letters : List Char) :
    Runs step (.code letters) (quote text) (endAtom letters ++ [.text text]) (.code []) := by
  have hopen : step (.code letters) '\"' = (.quoted [], endAtom letters) := rfl
  have hclose : Runs step (.quoted text) ['\"'] [.text text] (.code []) := rfl
  exact Runs.cons hopen ((reads_escapes text []).append hclose)

theorem reads_letters {text : List Char} (h : text.all isAtomChar = true) (letters : List Char) :
    Runs step (.code letters) text [] (.code (letters ++ text)) := by
  rw [List.all_eq_true] at h
  induction text generalizing letters with
  | nil =>
      rw [List.append_nil]
      rfl
  | cons c text ih =>
      obtain ⟨hc, htext⟩ := List.forall_mem_cons.mp h
      have hstep : step (.code letters) c = (.code (letters ++ [c]), []) := if_pos hc
      have hrest := Runs.cons hstep (ih htext (letters ++ [c]))
      rwa [List.append_assoc] at hrest

theorem endAtom_text (a : Atom) : endAtom a.text = [.atom a] := by
  rw [endAtom, dif_pos ⟨a.nonempty, a.chars⟩]

theorem reads_newline (level : Nat) (letters : List Char) :
    Runs step (.code letters) (newline level) (endAtom letters) (.code []) := by
  have hline : step (.code letters) '\n' = (.code [], endAtom letters) := rfl
  have hblanks : Runs step (.code []) (List.replicate (2 * level) ' ') [] (.code []) := by
    refine run_of_quiet step fun c hc => ?_
    rw [List.eq_of_mem_replicate hc]
    rfl
  have hboth := Runs.cons hline hblanks
  rwa [List.append_nil] at hboth

end Letters

mutual

def toks : Json → List Token
  | .atom a => [.atom a]
  | .str chars => [.text chars]
  | .list [] => [.sign '[', .sign ']']
  | .list (item :: items) => .sign '[' :: (toks item ++ itemToks items ++ [.sign ']'])
  | .obj [] => [.sign '{', .sign '}']
  | .obj ((key, value) :: members) =>
      .sign '{' :: (.text key :: .sign ':' :: (toks value ++ memberToks members) ++ [.sign '}'])

def itemToks : List Json → List Token
  | [] => []
  | item :: items => .sign ',' :: (toks item ++ itemToks items)

def memberToks : List (List Char × Json) → List Token
  | [] => []
  | (key, value) :: members =>
      .sign ',' :: .text key :: .sign ':' :: (toks value ++ memberToks members)

end

section Tokens

/-- From code the text leads to code, where the atoms at its end count as read. -/
def Emits (letters text : List Char) (ts : List Token) : Prop :=
  ∃ out letters', Runs step (.code letters) text out (.code letters') ∧
    out ++ endAtom letters' = endAtom letters ++ ts

/-- A text that ends the atom before it, and none of its own is open behind it. -/
def Ends (text : List Char) (ts : List Token) : Prop :=
  ∀ letters, Runs step (.code letters) text (endAtom letters ++ ts) (.code [])

theorem Ends.append {text text' : List Char} {ts ts' : List Token} (h : Ends text ts)
    (h' : Ends text' ts') : Ends (text ++ text') (ts ++ ts') := by
  intro letters
  have hboth := (h letters).append (h' [])
  rwa [List.append_assoc] at hboth

theorem ends_newline (level : Nat) : Ends (newline level) [] := by
  intro letters
  rw [List.append_nil]
  exact reads_newline level letters

theorem ends_quote (text : List Char) : Ends (quote text) [.text text] := reads_quote text

theorem ends_sign {c : Char} (h : c ∈ ['[', ']', '{', '}', ',', ':']) : Ends [c] [.sign c] := by
  intro letters
  rw [Runs, run, run, List.append_nil]
  simp only [List.mem_cons, List.not_mem_nil, or_false] at h
  rcases h with rfl | rfl | rfl | rfl | rfl | rfl <;> rfl

theorem Ends.emits {text : List Char} {ts : List Token} (h : Ends text ts)
    (letters : List Char) : Emits letters text ts :=
  ⟨endAtom letters ++ ts, [], h letters, List.append_nil _⟩

theorem Ends.append_emits {text text' : List Char} {ts ts' : List Token} (h : Ends text ts)
    (h' : Emits [] text' ts') (letters : List Char) :
    Emits letters (text ++ text') (ts ++ ts') := by
  obtain ⟨out, letters', hrun, hout⟩ := h'
  refine ⟨_, letters', (h letters).append hrun, ?_⟩
  rw [List.append_assoc, hout, List.append_assoc]
  rfl

theorem Emits.append {letters text text' : List Char} {ts ts' : List Token}
    (h : Emits letters text ts) (h' : ∀ letters, Emits letters text' ts') :
    Emits letters (text ++ text') (ts ++ ts') := by
  obtain ⟨out, letters', hrun, hout⟩ := h
  obtain ⟨out', letters'', hrun', hout'⟩ := h' letters'
  refine ⟨_, letters'', hrun.append hrun', ?_⟩
  rw [List.append_assoc, hout', ← List.append_assoc, hout, List.append_assoc]

theorem ends_brackets {first last : Char} (h : first ∈ ['[', ']', '{', '}', ',', ':'])
    (h' : last ∈ ['[', ']', '{', '}', ',', ':']) :
    Ends [first, last] [.sign first, .sign last] :=
  (ends_sign h).append (ends_sign h')

theorem ends_key (level : Nat) (key : List Char) :
    Ends (newline level ++ quote key ++ [':', ' ']) [.text key, .sign ':'] := by
  have hblank : Ends [' '] [] := by
    intro letters
    rw [Runs, run, run, List.append_nil, List.append_nil]
    rfl
  have hcolon : Ends [':', ' '] [.sign ':'] := (ends_sign (by decide)).append hblank
  exact ((ends_newline level).append (ends_quote key)).append hcolon

mutual

theorem emits_dump (level : Nat) : ∀ value, Emits [] (dump level value) (toks value)
  | .atom a => ⟨[], a.text, reads_letters a.chars [], by rw [endAtom_text]; rfl⟩
  | .str chars => (ends_quote chars).emits []
  | .list [] => (ends_brackets (by decide) (by decide)).emits []
  | .list (item :: items) => by
      have hopen := (ends_sign (c := '[') (by decide)).append (ends_newline (level + 1))
      have hclose := (ends_newline level).append (ends_sign (c := ']') (by decide))
      have hitem := hopen.append_emits (emits_dump (level + 1) item) []
      have hitems := hitem.append (emits_dumpItems (level + 1) items)
      have hlist := hitems.append hclose.emits
      simpa [dump, toks] using hlist
  | .obj [] => (ends_brackets (by decide) (by decide)).emits []
  | .obj ((key, value) :: members) => by
      have hopen := (ends_sign (c := '{') (by decide)).append (ends_key (level + 1) key)
      have hclose := (ends_newline level).append (ends_sign (c := '}') (by decide))
      have hvalue := hopen.append_emits (emits_dump (level + 1) value) []
      have hmembers := hvalue.append (emits_dumpMembers (level + 1) members)
      have hobj := hmembers.append hclose.emits
      simpa [dump, toks] using hobj

theorem emits_dumpItems (level : Nat) :
    ∀ items letters, Emits letters (dumpItems level items) (itemToks items)
  | [], letters => ⟨[], letters, rfl, (List.append_nil _).symm⟩
  | item :: items, letters => by
      have hcomma := (ends_sign (c := ',') (by decide)).append (ends_newline level)
      have hitem := hcomma.append_emits (emits_dump level item) letters
      have hitems := hitem.append (emits_dumpItems level items)
      simpa [dumpItems, itemToks] using hitems

theorem emits_dumpMembers (level : Nat) :
    ∀ members letters, Emits letters (dumpMembers level members) (memberToks members)
  | [], letters => ⟨[], letters, rfl, (List.append_nil _).symm⟩
  | (key, value) :: members, letters => by
      have hcomma := (ends_sign (c := ',') (by decide)).append (ends_key level key)
      have hvalue := hcomma.append_emits (emits_dump level value) letters
      have hmembers := hvalue.append (emits_dumpMembers level members)
      simpa [dumpMembers, memberToks] using hmembers

end

end Tokens

section Parsing

variable {due : Due}

theorem take_opening (hdue : due = .value ∨ due = .firstValue) (stack : List Open) :
    take (.reading stack due) (.sign '[') = .reading (.list [] :: stack) .firstValue ∧
      take (.reading stack due) (.sign '{') = .reading (.obj [] [] :: stack) .firstKey := by
  rcases hdue with rfl | rfl <;> exact ⟨rfl, rfl⟩

theorem foldl_key (hdue : due = .key ∨ due = .firstKey) (members : List (List Char × Json))
    (key key' : List Char) (stack : List Open) (ts : List Token) :
    (.text key :: .sign ':' :: ts).foldl take (.reading (.obj members key' :: stack) due) =
      ts.foldl take (.reading (.obj members key :: stack) .value) := by
  rcases hdue with rfl | rfl <;> rfl

mutual

/-- Where a value is due, its tokens put it into the container that is open. -/
theorem foldl_toks : ∀ value {due} (stack : List Open), due = .value ∨ due = .firstValue →
    (toks value).foldl take (.reading stack due) = put value stack
  | .atom a, due, stack, hdue => by
      rcases hdue with rfl | rfl <;> rfl
  | .str chars, due, stack, hdue => by
      rcases hdue with rfl | rfl <;> rfl
  | .list [], due, stack, hdue => by
      rcases hdue with rfl | rfl <;> rfl
  | .list (item :: items), due, stack, hdue => by
      rw [toks, List.foldl_cons, (take_opening hdue stack).1, List.foldl_append,
        List.foldl_append, foldl_toks item _ (.inr rfl), put, foldl_itemToks items]
      rfl
  | .obj [], due, stack, hdue => by
      rcases hdue with rfl | rfl <;> rfl
  | .obj ((key, value) :: members), due, stack, hdue => by
      rw [toks, List.foldl_cons, (take_opening hdue stack).2, List.foldl_append,
        foldl_key (.inr rfl), List.foldl_append, foldl_toks value _ (.inl rfl), put]
      obtain ⟨key', hmembers⟩ := foldl_memberToks members ([] ++ [(key, value)]) key stack
      rw [hmembers]
      rfl

theorem foldl_itemToks : ∀ items read stack,
    (itemToks items).foldl take (.reading (.list read :: stack) .separator) =
      .reading (.list (read ++ items) :: stack) .separator
  | [], read, stack => by
      rw [List.append_nil]
      rfl
  | item :: items, read, stack => by
      have hcomma : take (.reading (.list read :: stack) .separator) (.sign ',') =
        .reading (.list read :: stack) .value := rfl
      rw [itemToks, List.foldl_cons, hcomma, List.foldl_append, foldl_toks item _ (.inl rfl), put,
        foldl_itemToks items, List.append_assoc]
      rfl

theorem foldl_memberToks : ∀ members read key stack, ∃ key',
    (memberToks members).foldl take (.reading (.obj read key :: stack) .separator) =
      .reading (.obj (read ++ members) key' :: stack) .separator
  | [], read, key, stack => by
      refine ⟨key, ?_⟩
      rw [List.append_nil]
      rfl
  | (key, value) :: members, read, key', stack => by
      have hcomma : take (.reading (.obj read key' :: stack) .separator) (.sign ',') =
        .reading (.obj read key' :: stack) .key := rfl
      obtain ⟨last, hmembers⟩ := foldl_memberToks members (read ++ [(key, value)]) key stack
      refine ⟨last, ?_⟩
      rw [memberToks, List.foldl_cons, hcomma, foldl_key (.inl rfl), List.foldl_append,
        foldl_toks value _ (.inl rfl), put, hmembers, List.append_assoc]
      rfl

end

/-- A printed value reads back as it was, also with line ends behind it. -/
theorem parse_dumps (value : Json) (lines : Nat) :
    parse (dumps value ++ List.replicate lines '\n') = some value := by
  obtain ⟨out, letters, hrun, hout⟩ := emits_dump 0 value
  -- the first line end behind the value ends an atom, the others are blanks
  have hlines : ∀ lines letters, Runs step (.code letters)
      (List.replicate (lines + 1) '\n') (endAtom letters) (.code []) := by
    intro lines
    induction lines with
    | zero => exact fun letters => reads_newline 0 letters
    | succ lines ih =>
        intro letters
        have hline : step (.code letters) '\n' = (.code [], endAtom letters) := rfl
        have hboth := Runs.cons hline (ih [])
        rwa [show endAtom [] = [] from rfl, List.append_nil] at hboth
  have htokens : tokens (dumps value ++ List.replicate lines '\n') = toks value := by
    have hall := hrun.append (hlines lines letters)
    rw [List.replicate_succ', ← List.append_assoc] at hall
    rw [tokens, dumps, hall, hout]
    rfl
  rw [parse, htokens, foldl_toks value [] (.inl rfl)]
  rfl

end Parsing

section Returns

theorem cr_not_mem_escape (c : Char) : '\r' ∉ escape c := by
  have hcontrol : ∀ n < 32, '\r' ∉ ['\\', 'u', '0', '0', (n / 16).digitChar, (n % 16).digitChar] :=
    by decide
  rw [escape]
  split_ifs with hquote hslash hline hreturn htab hback hfeed hlow
  · decide
  · decide
  · decide
  · decide
  · decide
  · decide
  · decide
  · exact hcontrol c.toNat hlow
  · rw [List.mem_singleton]
    exact fun h => hreturn h.symm

theorem cr_not_mem_quote (chars : List Char) : '\r' ∉ quote chars := by
  simp only [quote, List.mem_cons, List.mem_append, List.mem_flatMap, List.not_mem_nil]
  rintro (h | ⟨c, -, h⟩ | h | h)
  · cases h
  · exact cr_not_mem_escape c h
  · cases h
  · exact h

theorem cr_not_mem_newline (level : Nat) : '\r' ∉ newline level := by
  simp [newline]

mutual

/-- A printed value has line ends of one kind only. -/
theorem cr_not_mem_dump (level : Nat) : ∀ value, '\r' ∉ dump level value
  | .atom a => fun h => by
      have hchar := List.all_eq_true.mp a.chars _ h
      revert hchar
      decide
  | .str chars => cr_not_mem_quote chars
  | .list [] => by
      rw [dump]
      decide
  | .list (item :: items) => by
      have hitem := cr_not_mem_dump (level + 1) item
      have hitems := cr_not_mem_dumpItems (level + 1) items
      simp [dump, hitem, hitems, cr_not_mem_newline]
  | .obj [] => by
      rw [dump]
      decide
  | .obj ((key, value) :: members) => by
      have hvalue := cr_not_mem_dump (level + 1) value
      have hmembers := cr_not_mem_dumpMembers (level + 1) members
      simp [dump, hvalue, hmembers, cr_not_mem_newline, cr_not_mem_quote]

theorem cr_not_mem_dumpItems (level : Nat) : ∀ items, '\r' ∉ dumpItems level items
  | [] => List.not_mem_nil
  | item :: items => by
      have hitem := cr_not_mem_dump level item
      have hitems := cr_not_mem_dumpItems level items
      simp [dumpItems, hitem, hitems, cr_not_mem_newline]

theorem cr_not_mem_dumpMembers (level : Nat) : ∀ members, '\r' ∉ dumpMembers level members
  | [] => List.not_mem_nil
  | (key, value) :: members => by
      have hvalue := cr_not_mem_dump level value
      have hmembers := cr_not_mem_dumpMembers level members
      simp [dumpMembers, hvalue, hmembers, cr_not_mem_newline, cr_not_mem_quote]

end

end Returns

end RovSdk.JsonText
