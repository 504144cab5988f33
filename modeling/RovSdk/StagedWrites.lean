import Mathlib.Data.List.Pairwise
import Mathlib.Logic.Function.Basic

/-!
Programs that write files in a fixed order, each only where its text has changed, and stop
at the first file that cannot be rendered, read or written.  A run gets through a prefix of
its stages, so over many runs no file is from a later run than a file before it.
-/

namespace RovSdk.StagedWrites

/-- How text is kept in files.  What a text reads as need not be that text, but what has
been read is read again. -/
structure TextStore (Raw Text Error : Type) where
  write : Text → Raw
  read : Raw → Except Error Text
  norm : Text → Text
  read_write (text : Text) : read (write text) = .ok (norm text)
  norm_of_read {raw : Raw} {text : Text} (h : read raw = .ok text) : norm text = text

/-- How a write of a file ends: with the text in it, or with an error and whatever is then
left of the file. -/
inductive WriteOutcome (Raw Error : Type) where
  | done
  | failed (left : Option Raw) (e : Error)

/-- What comes of one file: it cannot be read, or its write fails, or it is got through, with
a write or without. -/
inductive FileResult (Path Raw Error : Type) where
  | unread (e : Error)
  | spoilt (files : Path → Option Raw) (e : Error)
  | through (files : Path → Option Raw) (writes : List Path)

structure Ran (Path Raw Error : Type) where
  files : Path → Option Raw
  writes : List Path
  error : Option Error

section

variable {Path Raw Text Error : Type} [DecidableEq Path] [DecidableEq Text]
  (store : TextStore Raw Text Error) (disk : Path → WriteOutcome Raw Error)

def changed (files : Path → Option Raw) (path : Path) (content : Text) : Except Error Bool :=
  match files path with
  | none => .ok true
  | some raw => (store.read raw).map fun text => decide (text ≠ content)

def writeIfChanged (files : Path → Option Raw) (path : Path) (content : Text) :
    FileResult Path Raw Error :=
  match changed store files path content with
  | .error e => .unread e
  | .ok false => .through files []
  | .ok true =>
      match disk path with
      | .done => .through (Function.update files path (some (store.write content))) [path]
      | .failed left e => .spoilt (Function.update files path left) e

def run (files : Path → Option Raw) : List (Path × Except Error Text) → Ran Path Raw Error
  | [] => ⟨files, [], none⟩
  | (_, .error e) :: _ => ⟨files, [], some e⟩
  | (path, .ok content) :: stages =>
      match writeIfChanged store disk files path content with
      | .unread e => ⟨files, [], some e⟩
      | .spoilt files' e => ⟨files', [], some e⟩
      | .through files' writes =>
          let rest := run files' stages
          ⟨rest.files, writes ++ rest.writes, rest.error⟩

def passed (files : Path → Option Raw) :
    List (Path × Except Error Text) → List (Path × Text)
  | [] => []
  | (_, .error _) :: _ => []
  | (path, .ok content) :: stages =>
      match writeIfChanged store disk files path content with
      | .through files' _ => (path, content) :: passed files' stages
      | _ => []

/-- The paths of these stages, and behind them that of a write that fails. -/
def touched (files : Path → Option Raw) : List (Path × Except Error Text) → List Path
  | [] => []
  | (_, .error _) :: _ => []
  | (path, .ok content) :: stages =>
      match writeIfChanged store disk files path content with
      | .unread _ => []
      | .spoilt _ _ => [path]
      | .through files' _ => path :: touched files' stages

def Readable (files : Path → Option Raw) (path : Path) : Prop :=
  ∀ raw, files path = some raw → ∃ text, store.read raw = .ok text

/-- The file reads as the text does. -/
def Holds (files : Path → Option Raw) (path : Path) (content : Text) : Prop :=
  ∃ raw, files path = some raw ∧ store.read raw = .ok (store.norm content)

variable {store disk} {files files' : Path → Option Raw} {path : Path} {content : Text}
  {writes : List Path} {e : Error} {stages : List (Path × Except Error Text)}

omit [DecidableEq Path] [DecidableEq Text] in
theorem Holds.readable (h : Holds store files path content) : Readable store files path := by
  obtain ⟨raw, hraw, hread⟩ := h
  intro raw' hraw'
  obtain rfl := Option.some.inj (hraw.symm.trans hraw')
  exact ⟨_, hread⟩

omit [DecidableEq Path] in
theorem changed_eq_false : changed store files path content = .ok false ↔
    ∃ raw, files path = some raw ∧ store.read raw = .ok content := by
  rw [changed]
  split
  next hnone => simp [hnone]
  next raw hraw =>
    rcases hread : store.read raw with e | text
    · simp [hraw, hread, Except.map]
    · simp [hraw, hread, Except.map]

omit [DecidableEq Path] in
theorem changed_ne_error (h : Readable store files path) (e : Error) :
    changed store files path content ≠ .error e := by
  rw [changed]
  split
  next hnone => simp
  next raw hraw =>
    obtain ⟨text, hread⟩ := h raw hraw
    simp [hread, Except.map]

/-- A file that is got through needs nothing where it reads as the text already, else a
write. -/
theorem writeIfChanged_cases
    (h : writeIfChanged store disk files path content = .through files' writes) :
    (files' = files ∧ writes = [] ∧ ∃ raw, files path = some raw ∧ store.read raw = .ok content) ∨
      (files' = Function.update files path (some (store.write content)) ∧ writes = [path]) := by
  rw [writeIfChanged] at h
  rcases hchanged : changed store files path content with e | _ | _
  · rw [hchanged] at h
    cases h
  · rw [hchanged] at h
    cases h
    exact .inl ⟨rfl, rfl, changed_eq_false.mp hchanged⟩
  · rw [hchanged] at h
    rcases hdisk : disk path with _ | ⟨left, e⟩
    · rw [hdisk] at h
      cases h
      exact .inr ⟨rfl, rfl⟩
    · rw [hdisk] at h
      cases h

theorem failed_of_spoilt (h : writeIfChanged store disk files path content = .spoilt files' e) :
    ∃ left, disk path = .failed left e ∧ files' = Function.update files path left := by
  rw [writeIfChanged] at h
  rcases hchanged : changed store files path content with e | _ | _
  · rw [hchanged] at h
    cases h
  · rw [hchanged] at h
    cases h
  · rw [hchanged] at h
    rcases hdisk : disk path with _ | ⟨left, e⟩
    · rw [hdisk] at h
      cases h
    · rw [hdisk] at h
      cases h
      exact ⟨left, rfl, rfl⟩

theorem unread_iff : writeIfChanged store disk files path content = .unread e ↔
    changed store files path content = .error e := by
  rw [writeIfChanged]
  rcases changed store files path content with e' | _ | _
  · simp
  · simp
  · cases disk path with
    | done => simp
    | failed left e' => simp

theorem not_readable_of_unread (h : writeIfChanged store disk files path content = .unread e) :
    ¬Readable store files path :=
  fun hreadable => changed_ne_error hreadable e (unread_iff.mp h)

theorem holds_of_writeIfChanged
    (h : writeIfChanged store disk files path content = .through files' writes) :
    Holds store files' path content := by
  rcases writeIfChanged_cases h with ⟨rfl, -, raw, hraw, hread⟩ | ⟨rfl, -⟩
  · exact ⟨raw, hraw, by rw [store.norm_of_read hread, hread]⟩
  · exact ⟨_, Function.update_self .., store.read_write content⟩

theorem frame_of_writeIfChanged
    (h : writeIfChanged store disk files path content = .through files' writes) {other : Path}
    (hother : other ≠ path) : files' other = files other := by
  rcases writeIfChanged_cases h with ⟨rfl, -, -⟩ | ⟨rfl, -⟩
  · rfl
  · exact Function.update_of_ne hother _ _

theorem run_cons_unread (h : writeIfChanged store disk files path content = .unread e) :
    run store disk files ((path, .ok content) :: stages) = ⟨files, [], some e⟩ ∧
      passed store disk files ((path, .ok content) :: stages) = [] ∧
      touched store disk files ((path, .ok content) :: stages) = [] := by
  simp only [run, passed, touched, h, and_self]

theorem run_cons_spoilt (h : writeIfChanged store disk files path content = .spoilt files' e) :
    run store disk files ((path, .ok content) :: stages) = ⟨files', [], some e⟩ ∧
      passed store disk files ((path, .ok content) :: stages) = [] ∧
      touched store disk files ((path, .ok content) :: stages) = [path] := by
  simp only [run, passed, touched, h, and_self]

theorem run_cons_through
    (h : writeIfChanged store disk files path content = .through files' writes) :
    run store disk files ((path, .ok content) :: stages) =
        ⟨(run store disk files' stages).files, writes ++ (run store disk files' stages).writes,
          (run store disk files' stages).error⟩ ∧
      passed store disk files ((path, .ok content) :: stages) =
        (path, content) :: passed store disk files' stages ∧
      touched store disk files ((path, .ok content) :: stages) =
        path :: touched store disk files' stages := by
  simp only [run, passed, touched, h, and_self]

theorem passed_isInitial (files : Path → Option Raw) (stages : List (Path × Except Error Text)) :
    (passed store disk files stages).map (fun s => (s.1, .ok s.2)) <+: stages := by
  induction stages generalizing files with
  | nil => exact List.nil_prefix
  | cons stage stages ih =>
      obtain ⟨path, e | content⟩ := stage
      · exact List.nil_prefix
      · rcases hwrite : writeIfChanged store disk files path content with
          e | ⟨files', e⟩ | ⟨files', writes⟩
        · rw [(run_cons_unread hwrite).2.1]
          exact List.nil_prefix
        · rw [(run_cons_spoilt hwrite).2.1]
          exact List.nil_prefix
        · rw [(run_cons_through hwrite).2.1, List.map_cons]
          exact List.cons_prefix_cons.mpr ⟨rfl, ih files'⟩

/-- The last file touched may be one whose write has failed. -/
theorem touched_cases (files : Path → Option Raw) (stages : List (Path × Except Error Text)) :
    touched store disk files stages = (passed store disk files stages).map Prod.fst ∨
      ∃ path content left e, (path, .ok content) ∈ stages ∧ disk path = .failed left e ∧
        (run store disk files stages).files path = left ∧
        touched store disk files stages =
          (passed store disk files stages).map Prod.fst ++ [path] := by
  induction stages generalizing files with
  | nil => exact .inl rfl
  | cons stage stages ih =>
      obtain ⟨path, e | content⟩ := stage
      · exact .inl rfl
      · rcases hwrite : writeIfChanged store disk files path content with
          e | ⟨files', e⟩ | ⟨files', writes⟩
        · rw [(run_cons_unread hwrite).2.1, (run_cons_unread hwrite).2.2]
          exact .inl rfl
        · obtain ⟨left, hdisk, rfl⟩ := failed_of_spoilt hwrite
          rw [(run_cons_spoilt hwrite).1, (run_cons_spoilt hwrite).2.1,
            (run_cons_spoilt hwrite).2.2]
          exact .inr ⟨path, content, left, e, List.mem_cons_self, hdisk,
            Function.update_self .., rfl⟩
        · rw [(run_cons_through hwrite).1, (run_cons_through hwrite).2.1,
            (run_cons_through hwrite).2.2, List.map_cons]
          rcases ih files' with hpassed | ⟨last, text, left, e, hmem, hdisk, hleft, htouched⟩
          · exact .inl (congrArg _ hpassed)
          · exact .inr ⟨last, text, left, e, List.mem_cons_of_mem _ hmem, hdisk, hleft,
              congrArg _ htouched⟩

theorem touched_isInitial (files : Path → Option Raw) (stages : List (Path × Except Error Text)) :
    touched store disk files stages <+: stages.map Prod.fst := by
  induction stages generalizing files with
  | nil => exact List.nil_prefix
  | cons stage stages ih =>
      obtain ⟨path, e | content⟩ := stage
      · exact List.nil_prefix
      · rcases hwrite : writeIfChanged store disk files path content with
          e | ⟨files', e⟩ | ⟨files', writes⟩
        · rw [(run_cons_unread hwrite).2.2]
          exact List.nil_prefix
        · rw [(run_cons_spoilt hwrite).2.2, List.map_cons]
          exact List.cons_prefix_cons.mpr ⟨rfl, List.nil_prefix⟩
        · rw [(run_cons_through hwrite).2.2, List.map_cons]
          exact List.cons_prefix_cons.mpr ⟨rfl, ih files'⟩

theorem run_frame {other : Path} (hother : other ∉ touched store disk files stages) :
    (run store disk files stages).files other = files other := by
  induction stages generalizing files with
  | nil => rfl
  | cons stage stages ih =>
      obtain ⟨path, e | content⟩ := stage
      · rfl
      · rcases hwrite : writeIfChanged store disk files path content with
          e | ⟨files', e⟩ | ⟨files', writes⟩
        · rw [(run_cons_unread hwrite).1]
        · obtain ⟨left, -, rfl⟩ := failed_of_spoilt hwrite
          rw [(run_cons_spoilt hwrite).2.2, List.mem_singleton] at hother
          rw [(run_cons_spoilt hwrite).1]
          exact Function.update_of_ne hother _ _
        · rw [(run_cons_through hwrite).2.2, List.mem_cons, not_or] at hother
          rw [(run_cons_through hwrite).1]
          calc (run store disk files' stages).files other
              = files' other := ih hother.2
            _ = files other := frame_of_writeIfChanged hwrite hother.1

theorem mem_of_passed (h : (path, content) ∈ passed store disk files stages) :
    (path, .ok content) ∈ stages :=
  (passed_isInitial files stages).subset
    (List.mem_map_of_mem (f := fun s : Path × Text => (s.1, (.ok s.2 : Except Error Text))) h)

theorem fst_mem_of_passed (h : path ∈ (passed store disk files stages).map Prod.fst) :
    path ∈ stages.map Prod.fst := by
  obtain ⟨⟨path, content⟩, hmem, rfl⟩ := List.mem_map.mp h
  exact List.mem_map_of_mem (f := Prod.fst) (mem_of_passed hmem)

theorem mem_of_touched (h : path ∈ touched store disk files stages) :
    path ∈ stages.map Prod.fst := (touched_isInitial files stages).subset h

theorem run_frame_of_not_mem (h : path ∉ stages.map Prod.fst) :
    (run store disk files stages).files path = files path :=
  run_frame fun hmem => h (mem_of_touched hmem)

/-- Where its write would not fail, a file that is touched is got through. -/
theorem mem_touched_iff (hdisk : disk path = .done) :
    path ∈ touched store disk files stages ↔
      path ∈ (passed store disk files stages).map Prod.fst := by
  have hcases : touched store disk files stages = _ ∨ _ := touched_cases files stages
  rcases hcases with hpassed | ⟨last, -, left, e, -, hfailed, -, htouched⟩
  · rw [hpassed]
  · have hne : path ≠ last := by
      rintro rfl
      rw [hdisk] at hfailed
      cases hfailed
    rw [htouched, List.mem_append, List.mem_singleton, or_iff_left hne]

theorem holds_of_passed (hnodup : (stages.map Prod.fst).Nodup)
    (h : (path, content) ∈ passed store disk files stages) :
    Holds store (run store disk files stages).files path content := by
  induction stages generalizing files with
  | nil => cases h
  | cons stage stages ih =>
      obtain ⟨first, e | text⟩ := stage
      · cases h
      · rw [List.map_cons, List.nodup_cons] at hnodup
        rcases hwrite : writeIfChanged store disk files first text with
          e | ⟨files', e⟩ | ⟨files', writes⟩
        · rw [(run_cons_unread hwrite).2.1] at h
          cases h
        · rw [(run_cons_spoilt hwrite).2.1] at h
          cases h
        · rw [(run_cons_through hwrite).2.1, List.mem_cons] at h
          rw [(run_cons_through hwrite).1]
          rcases h with heq | hmem
          · obtain ⟨rfl, rfl⟩ := Prod.mk.inj heq
            have hframe : (run store disk files' stages).files path = files' path :=
              run_frame_of_not_mem hnodup.1
            obtain ⟨raw, hraw, hread⟩ := holds_of_writeIfChanged hwrite
            exact ⟨raw, hframe.trans hraw, hread⟩
          · exact ih hnodup.2 hmem

/-- The file reads as the text, or is what a failed write has left of it. -/
def Origin (store : TextStore Raw Text Error) (disk : Path → WriteOutcome Raw Error)
    (files : Path → Option Raw) (path : Path) (content : Text) : Prop :=
  Holds store files path content ∨ ∃ left e, disk path = .failed left e ∧ files path = left

theorem origin_of_touched (hnodup : (stages.map Prod.fst).Nodup)
    (h : path ∈ touched store disk files stages) : ∃ content, (path, .ok content) ∈ stages ∧
      Origin store disk (run store disk files stages).files path content := by
  have hthrough : path ∈ (passed store disk files stages).map Prod.fst →
      ∃ content, (path, .ok content) ∈ stages ∧
        Origin store disk (run store disk files stages).files path content := by
    intro hmem
    obtain ⟨⟨path, content⟩, hpassed, rfl⟩ := List.mem_map.mp hmem
    exact ⟨content, mem_of_passed hpassed, .inl (holds_of_passed hnodup hpassed)⟩
  have hcases : touched store disk files stages = _ ∨ _ := touched_cases files stages
  rcases hcases with hpassed | ⟨last, content, left, e, hcontent, hfailed, hleft, htouched⟩
  · exact hthrough (hpassed ▸ h)
  · rw [htouched, List.mem_append, List.mem_singleton] at h
    rcases h with hmem | rfl
    · exact hthrough hmem
    · exact ⟨content, hcontent, .inr ⟨left, e, hfailed, hleft⟩⟩

omit [DecidableEq Path] [DecidableEq Text] in
theorem Origin.holds (h : Origin store disk files path content) (hdisk : disk path = .done) :
    Holds store files path content := by
  rcases h with hholds | ⟨left, e, hfailed, -⟩
  · exact hholds
  · rw [hdisk] at hfailed
    cases hfailed

/-- The stage at which a run ends cannot be rendered, read or written. -/
theorem blocked_of_passed (hnodup : (stages.map Prod.fst).Nodup)
    {stage : Path × Except Error Text} {rest : List (Path × Except Error Text)}
    (h : stages =
      (passed store disk files stages).map (fun s => (s.1, .ok s.2)) ++ stage :: rest) :
    (∃ e, stage.2 = .error e) ∨ ¬Readable store files stage.1 ∨ disk stage.1 ≠ .done := by
  induction stages generalizing files with
  | nil => simp at h
  | cons head stages ih =>
      obtain ⟨first, e | text⟩ := head
      · rw [passed, List.map_nil, List.nil_append] at h
        obtain ⟨rfl, -⟩ := List.cons.inj h
        exact .inl ⟨e, rfl⟩
      · rw [List.map_cons, List.nodup_cons] at hnodup
        rcases hwrite : writeIfChanged store disk files first text with
          e | ⟨files', e⟩ | ⟨files', writes⟩
        · rw [(run_cons_unread hwrite).2.1, List.map_nil, List.nil_append] at h
          obtain ⟨rfl, -⟩ := List.cons.inj h
          exact .inr (.inl (not_readable_of_unread hwrite))
        · rw [(run_cons_spoilt hwrite).2.1, List.map_nil, List.nil_append] at h
          obtain ⟨rfl, -⟩ := List.cons.inj h
          obtain ⟨left, hdisk, -⟩ := failed_of_spoilt hwrite
          refine .inr (.inr ?_)
          rw [hdisk]
          simp
        · rw [(run_cons_through hwrite).2.1, List.map_cons, List.cons_append] at h
          have htail := (List.cons.inj h).2
          have hne : stage.1 ≠ first := by
            rintro rfl
            refine hnodup.1 ?_
            rw [htail, List.map_append, List.map_cons]
            exact List.mem_append_right _ List.mem_cons_self
          have hframe := frame_of_writeIfChanged hwrite hne
          rw [Readable, ← hframe]
          exact ih hnodup.2 htail

/-- Where the second stage renders with the first and its file can be read and written, a run
gets through both of them or through neither. -/
theorem mem_passed_pair {p q : Path} {first second : Except Error Text}
    (hnodup : (((p, first) :: (q, second) :: stages).map Prod.fst).Nodup)
    (hreadable : Readable store files q) (hdisk : disk q = .done)
    (hrender : (∃ text, first = .ok text) → ∃ text, second = .ok text) :
    p ∈ (passed store disk files ((p, first) :: (q, second) :: stages)).map Prod.fst ↔
      q ∈ (passed store disk files ((p, first) :: (q, second) :: stages)).map Prod.fst := by
  have hinitial : (passed store disk files ((p, first) :: (q, second) :: stages)).map _ <+: _ :=
    passed_isInitial files ((p, first) :: (q, second) :: stages)
  rcases hpassed : passed store disk files ((p, first) :: (q, second) :: stages) with
    _ | ⟨x, _ | ⟨y, done⟩⟩
  · exact iff_of_false List.not_mem_nil List.not_mem_nil
  · rw [hpassed, List.map_cons, List.map_nil, List.cons_prefix_cons, Prod.mk.injEq] at hinitial
    obtain ⟨⟨hp, hfirst⟩, -⟩ := hinitial
    have hsplit : (p, first) :: (q, second) :: stages =
        (passed store disk files ((p, first) :: (q, second) :: stages)).map
          (fun s => (s.1, .ok s.2)) ++ (q, second) :: stages := by
      rw [hpassed, List.map_cons, List.map_nil, hp, hfirst]
      rfl
    obtain ⟨text, hsecond⟩ := hrender ⟨x.2, hfirst.symm⟩
    rcases blocked_of_passed hnodup hsplit with ⟨e, he⟩ | hunreadable | hfails
    · rw [hsecond] at he
      cases he
    · exact absurd hreadable hunreadable
    · exact absurd hdisk hfails
  · rw [hpassed, List.map_cons, List.map_cons, List.cons_prefix_cons, List.cons_prefix_cons,
      Prod.mk.injEq, Prod.mk.injEq] at hinitial
    obtain ⟨⟨hp, -⟩, ⟨hq, -⟩, -⟩ := hinitial
    rw [List.map_cons, List.map_cons, hp, hq]
    exact iff_of_true List.mem_cons_self (List.mem_cons_of_mem _ List.mem_cons_self)

theorem writeIfChanged_again
    (h : writeIfChanged store disk files path content = .through files' writes)
    {final : Path → Option Raw} (hfinal : final path = files' path)
    {disk' : Path → WriteOutcome Raw Error} (hdisk : disk' path = .done) :
    writeIfChanged store disk' final path content =
      .through final (if store.norm content = content then [] else [path]) := by
  by_cases hnorm : store.norm content = content
  · obtain ⟨raw, hraw, hread⟩ := holds_of_writeIfChanged h
    rw [hnorm] at hread
    rw [writeIfChanged, changed_eq_false.mpr ⟨raw, hfinal.trans hraw, hread⟩, if_pos hnorm]
  · rcases writeIfChanged_cases h with ⟨-, -, raw, -, hread⟩ | ⟨rfl, -⟩
    · exact absurd (store.norm_of_read hread) hnorm
    · rw [Function.update_self] at hfinal
      have hchanged : changed store final path content = .ok true := by
        simp only [changed, hfinal, store.read_write, Except.map, hnorm, ne_eq, not_false_eq_true,
          decide_true]
      rw [writeIfChanged, hchanged, hdisk, if_neg hnorm]
      simp only
      rw [← hfinal, Function.update_eq_self]

/-- A second run, no write failing in either, ends as the first and changes no file; it
writes those alone whose text does not read as itself. -/
theorem run_again (hnodup : (stages.map Prod.fst).Nodup)
    (htouched : touched store disk files stages = (passed store disk files stages).map Prod.fst)
    {disk' : Path → WriteOutcome Raw Error} (hdisk : ∀ path, disk' path = .done) :
    run store disk' (run store disk files stages).files stages =
      ⟨(run store disk files stages).files,
        ((passed store disk files stages).filter fun s =>
          decide (store.norm s.2 ≠ s.2)).map Prod.fst,
        (run store disk files stages).error⟩ := by
  induction stages generalizing files with
  | nil => rfl
  | cons stage stages ih =>
      obtain ⟨first, e | text⟩ := stage
      · rfl
      · rw [List.map_cons, List.nodup_cons] at hnodup
        rcases hwrite : writeIfChanged store disk files first text with
          e | ⟨files', e⟩ | ⟨files', writes⟩
        · have hunread : writeIfChanged store disk' files first text = .unread e :=
            unread_iff.mpr (unread_iff.mp hwrite)
          rw [(run_cons_unread hwrite).1, (run_cons_unread hwrite).2.1,
            (run_cons_unread hunread).1]
          rfl
        · rw [(run_cons_spoilt hwrite).2.1, (run_cons_spoilt hwrite).2.2] at htouched
          cases htouched
        · rw [(run_cons_through hwrite).2.1, (run_cons_through hwrite).2.2, List.map_cons]
            at htouched
          have hframe : (run store disk files' stages).files first = files' first :=
            run_frame_of_not_mem hnodup.1
          have hagain := writeIfChanged_again hwrite hframe (hdisk first)
          rw [(run_cons_through hwrite).1, (run_cons_through hwrite).2.1,
            (run_cons_through hagain).1, ih hnodup.2 (List.cons.inj htouched).2, List.filter_cons]
          by_cases hnorm : store.norm text = text
          · simp [hnorm]
          · simp [hnorm]

theorem run_readable (h : Readable store files path) (hdisk : disk path = .done)
    (hnodup : (stages.map Prod.fst).Nodup) :
    Readable store (run store disk files stages).files path := by
  by_cases hmem : path ∈ touched store disk files stages
  · obtain ⟨content, -, horigin⟩ := origin_of_touched hnodup hmem
    exact (horigin.holds hdisk).readable
  · rw [Readable, run_frame hmem]
    exact h

end

section History

/-- A run in a sequence of runs: how its writes end, and its stages. -/
structure RunOf (Path Raw Text Error : Type) where
  disk : Path → WriteOutcome Raw Error
  stages : List (Path × Except Error Text)

variable {Path Raw Text Error : Type} [DecidableEq Path] [DecidableEq Text]
  (store : TextStore Raw Text Error)

def RunOf.after (r : RunOf Path Raw Text Error) (files : Path → Option Raw) :
    Path → Option Raw :=
  (run store r.disk files r.stages).files

def filesAfter (files : Path → Option Raw) (history : List (RunOf Path Raw Text Error)) :
    Path → Option Raw :=
  history.foldl (fun files r => r.after store files) files

/-- The number of the last run that touched a file, counted from one; zero where none did. -/
def age (files : Path → Option Raw) : List (RunOf Path Raw Text Error) → Path → Nat
  | [], _ => 0
  | r :: history, path =>
      let later := age (r.after store files) history path
      if later ≠ 0 then later + 1
      else if path ∈ touched store r.disk files r.stages then 1
      else 0

variable {store} {files : Path → Option Raw} {path : Path}
  {r : RunOf Path Raw Text Error} {history : List (RunOf Path Raw Text Error)}

theorem filesAfter_cons : filesAfter store files (r :: history) =
    filesAfter store (r.after store files) history := rfl

theorem age_cons_zero (h : age store (r.after store files) history path = 0) :
    age store files (r :: history) path =
      if path ∈ touched store r.disk files r.stages then 1 else 0 := by
  rw [age, h]
  rfl

theorem age_cons_succ {n : Nat} (h : age store (r.after store files) history path = n + 1) :
    age store files (r :: history) path = n + 2 := by
  rw [age, h]
  rfl

/-- A file reads as the run that its age names rendered it, or is what a failed write of that
run has left; one of age zero is untouched. -/
theorem origin_of_age (store : TextStore Raw Text Error) (files : Path → Option Raw)
    (path : Path) (hnodup : ∀ r ∈ history, (r.stages.map Prod.fst).Nodup) :
    match age store files history path with
    | 0 => filesAfter store files history path = files path
    | n + 1 => ∃ r content, history[n]? = some r ∧ (path, .ok content) ∈ r.stages ∧
        Origin store r.disk (filesAfter store files history) path content := by
  induction history generalizing files with
  | nil => rfl
  | cons r history ih =>
      rw [List.forall_mem_cons] at hnodup
      have hlater := ih (r.after store files) hnodup.2
      rw [filesAfter_cons]
      rcases hage : age store (r.after store files) history path with _ | n
      · rw [hage] at hlater
        by_cases hmem : path ∈ touched store r.disk files r.stages
        · rw [age_cons_zero hage, if_pos hmem]
          obtain ⟨content, hcontent, horigin⟩ := origin_of_touched hnodup.1 hmem
          refine ⟨r, content, rfl, hcontent, ?_⟩
          rcases horigin with ⟨raw, hraw, hread⟩ | ⟨left, e, hdisk, hleft⟩
          · exact .inl ⟨raw, hlater.trans hraw, hread⟩
          · exact .inr ⟨left, e, hdisk, hlater.trans hleft⟩
        · rw [age_cons_zero hage, if_neg hmem]
          exact hlater.trans (run_frame hmem)
      · rw [hage] at hlater
        rw [age_cons_succ hage]
        exact hlater

theorem pairwise_of_prefix {α : Type} {done all : List α} (h : done <+: all)
    (hnodup : all.Nodup) : all.Pairwise fun a b => b ∈ done → a ∈ done := by
  obtain ⟨rest, rfl⟩ := h
  refine List.pairwise_append.mpr ⟨?_, ?_, ?_⟩
  · exact List.pairwise_of_forall_mem_list fun a ha _ _ _ => ha
  · refine List.pairwise_of_forall_mem_list fun a _ b hb hdone => ?_
    exact absurd hb ((List.nodup_append.mp hnodup).2.2 b hdone b · rfl)
  · exact fun a ha _ _ _ => ha

/-- A file is never from a later run than one before it, in any sequence of runs that have
these files in this order or none of them. -/
theorem age_ordered {paths : List Path} (hnodup : paths.Nodup)
    (hruns : ∀ r ∈ history,
      r.stages.map Prod.fst = paths ∨ ∀ path ∈ paths, path ∉ r.stages.map Prod.fst) :
    paths.Pairwise fun p q => age store files history q ≤ age store files history p := by
  induction history generalizing files with
  | nil => exact List.pairwise_of_forall_mem_list fun _ _ _ _ => Nat.le_refl 0
  | cons r history ih =>
      rw [List.forall_mem_cons] at hruns
      have htouched : paths.Pairwise fun p q =>
          q ∈ touched store r.disk files r.stages → p ∈ touched store r.disk files r.stages := by
        rcases hruns.1 with rfl | hnone
        · exact pairwise_of_prefix (touched_isInitial files r.stages) hnodup
        · refine List.pairwise_of_forall_mem_list fun p _ q hq hmem => ?_
          exact absurd (mem_of_touched hmem) (hnone q hq)
      refine List.Pairwise.imp₂ ?_ (@ih (r.after store files) hruns.2) htouched
      intro p q hle hmem
      rcases hp : age store (r.after store files) history p with _ | n
      · rw [hp, Nat.le_zero] at hle
        rw [age_cons_zero hp, age_cons_zero hle]
        by_cases hqmem : q ∈ touched store r.disk files r.stages
        · simp only [if_pos hqmem, if_pos (hmem hqmem), Nat.le_refl]
        · rw [if_neg hqmem]
          exact Nat.zero_le _
      · rw [age_cons_succ hp]
        rcases hq : age store (r.after store files) history q with _ | m
        · rw [age_cons_zero hq]
          split
          · omega
          · omega
        · rw [age_cons_succ hq]
          omega

/-- Two files of a run whose writes do not fail: it gets through both of them or through
neither. -/
def Together (store : TextStore Raw Text Error) (p q : Path) (r : RunOf Path Raw Text Error) :
    Prop :=
  r.disk p = .done ∧ r.disk q = .done ∧
    ∀ files : Path → Option Raw, Readable store files q →
      (p ∈ (passed store r.disk files r.stages).map Prod.fst ↔
        q ∈ (passed store r.disk files r.stages).map Prod.fst)

theorem age_eq {p q : Path} (hreadable : Readable store files q)
    (hnodup : ∀ r ∈ history, (r.stages.map Prod.fst).Nodup)
    (htogether : ∀ r ∈ history, Together store p q r) :
    age store files history p = age store files history q := by
  induction history generalizing files with
  | nil => rfl
  | cons r history ih =>
      rw [List.forall_mem_cons] at hnodup htogether
      obtain ⟨⟨hp, hq, hboth⟩, hrest⟩ := htogether
      have hlater : age store (r.after store files) history p =
          age store (r.after store files) history q :=
        ih (run_readable hreadable hq hnodup.1) hnodup.2 hrest
      have hmem : p ∈ touched store r.disk files r.stages ↔
          q ∈ touched store r.disk files r.stages := by
        rw [mem_touched_iff hp, mem_touched_iff hq, hboth files hreadable]
      simp only [age, hlater, hmem]

/-- Two such files read as one of the runs rendered them, or both are untouched. -/
theorem origin_of_pair {p q : Path} (hreadable : Readable store files q)
    (hnodup : ∀ r ∈ history, (r.stages.map Prod.fst).Nodup)
    (htogether : ∀ r ∈ history, Together store p q r) :
    (∀ path ∈ [p, q], filesAfter store files history path = files path) ∨
    ∃ r ∈ history, ∃ first second, (p, .ok first) ∈ r.stages ∧ (q, .ok second) ∈ r.stages ∧
      Holds store (filesAfter store files history) p first ∧
      Holds store (filesAfter store files history) q second := by
  have hp := origin_of_age store files p hnodup
  have hq := origin_of_age store files q hnodup
  rw [age_eq hreadable hnodup htogether] at hp
  rcases hage : age store files history q with _ | n
  · rw [hage] at hp hq
    simp only [List.forall_mem_cons, List.not_mem_nil, false_implies, implies_true, and_true]
    exact .inl ⟨hp, hq⟩
  · rw [hage] at hp hq
    obtain ⟨r, first, hr, hfirst, hpOrigin⟩ := hp
    obtain ⟨r', second, hr', hsecond, hqOrigin⟩ := hq
    obtain rfl := Option.some.inj (hr.symm.trans hr')
    have hmem := List.mem_of_getElem? hr
    obtain ⟨hpDone, hqDone, -⟩ := htogether r hmem
    exact .inr ⟨r, hmem, first, second, hfirst, hsecond, hpOrigin.holds hpDone,
      hqOrigin.holds hqDone⟩

end History

end RovSdk.StagedWrites
