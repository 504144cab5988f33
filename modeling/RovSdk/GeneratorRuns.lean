import RovSdk.ArtifactAgreement
import RovSdk.GoldenHeader
import RovSdk.StagedWrites

namespace RovSdk.GeneratorRuns

open RovSdk.Results
open RovSdk.PythonValues
open RovSdk.SchemaValidator
open RovSdk.CodeGenerator
open RovSdk.GeneratorContext
open RovSdk.ProtocolSchema (protocolYaml)
open RovSdk.GoldenGenerator (GoldenCase)
open RovSdk.ArtifactAgreement (SameProtocol sameProtocol_of_render returns_headers)
open RovSdk.GoldenHeader
open RovSdk.StagedWrites

inductive SchemaFile where
  | missing
  | unparsable
  | parsed (data : PyVal)

inductive RunError where
  | schemaNotFound
  | yamlError
  | unicodeDecodeError
  | unicodeEncodeError
  | osError
  | gen (e : GenError)

def loadFile : SchemaFile → Except RunError PyVal
  | .missing => .error .schemaNotFound
  | .unparsable => .error .yamlError
  | .parsed data => (loadSchema data).mapError .gen

/-- What a file holds: text in UTF-8, or bytes that are not. -/
inductive FileData where
  | text (chars : List Char)
  | undecodable

/-- The line ends that reading in text mode makes of those in a file. -/
def newlines : List Char → List Char
  | '\r' :: '\n' :: text => '\n' :: newlines text
  | '\r' :: text => '\n' :: newlines text
  | c :: text => c :: newlines text
  | [] => []

theorem cr_not_mem_newlines (text : List Char) : '\r' ∉ newlines text := by
  induction text using newlines.induct with
  | case1 text ih =>
      rw [newlines, List.mem_cons, not_or]
      exact ⟨by decide, ih⟩
  | case2 text hnext ih =>
      rw [newlines.eq_2 _ hnext, List.mem_cons, not_or]
      exact ⟨by decide, ih⟩
  | case3 c text hpair hsingle ih =>
      rw [newlines.eq_3 _ _ hpair hsingle, List.mem_cons, not_or]
      exact ⟨fun h => hsingle h.symm, ih⟩
  | case4 => exact List.not_mem_nil

theorem newlines_of_cr_not_mem {text : List Char} (h : '\r' ∉ text) : newlines text = text := by
  induction text with
  | nil => rfl
  | cons c text ih =>
      rw [List.mem_cons, not_or] at h
      have hne : c ≠ '\r' := fun heq => h.1 heq.symm
      rw [newlines.eq_3 _ _ (fun _ heq _ => hne heq) hne, ih h.2]

theorem newlines_eq_self_iff {text : List Char} : newlines text = text ↔ '\r' ∉ text :=
  ⟨fun h => h ▸ cr_not_mem_newlines text, newlines_of_cr_not_mem⟩

def readText : FileData → Except RunError (List Char)
  | .text chars => .ok (newlines chars)
  | .undecodable => .error .unicodeDecodeError

/-- `read_text` and `write_text` in UTF-8. -/
def textStore : TextStore FileData (List Char) RunError where
  write := .text
  read := readText
  norm := newlines
  read_write _ := rfl
  norm_of_read := by
    intro raw text h
    cases raw with
    | text chars =>
        obtain rfl := Except.ok.inj h
        exact newlines_of_cr_not_mem (cr_not_mem_newlines chars)
    | undecodable => cases h

abbrev Path := List String

/-- The texts of the templates, and of `json.dumps`. -/
structure Templates where
  cpp : CppHeader → List Char
  c : CHeader → List Char
  md : Docs → List Char
  msg : MsgFile → List Char
  json : List GoldenCase → List Char

/-- The artifacts of `codegen.py`. -/
inductive Artifact where
  | protocolHpp
  | ouProtocolH
  | protocolMd
  | cmdMsg
  | telemetryMsg
  deriving DecidableEq, Repr

def Artifact.path (out : Path) : Artifact → Path
  | protocolHpp => out ++ ["ou", "protocol.hpp"]
  | ouProtocolH => out ++ ["ou_protocol.h"]
  | protocolMd => out ++ ["docs", "protocol.md"]
  | cmdMsg => out ++ ["msg", "Cmd.msg"]
  | telemetryMsg => out ++ ["msg", "Telemetry.msg"]

inductive Tool where
  | codegen
  | goldenGen
  deriving DecidableEq, Repr

/-- A run of a tool: its arguments, with what the schema's path leads to and how a write of
each file would end. -/
structure Invocation where
  tool : Tool
  schema : SchemaFile
  out : Path
  disk : Path → WriteOutcome FileData RunError := fun _ => .done

section Main

variable (templates : Templates) (py : TextRuntime)

def Artifact.render (schema : PyVal) (a : Artifact) : Except RunError (List Char) :=
  Except.mapError .gen <| match a with
    | protocolHpp => templates.cpp <$> renderCpp py schema
    | ouProtocolH => templates.c <$> renderC py schema
    | protocolMd => templates.md <$> renderMd py schema
    | cmdMsg => templates.msg <$> renderMsg py schema "CmdPacket"
    | telemetryMsg => templates.msg <$> renderMsg py schema "TelemetryPacket"

def artifacts : List Artifact :=
  [.protocolHpp, .ouProtocolH, .protocolMd, .cmdMsg, .telemetryMsg]

def codegenStages (out : Path) (schema : PyVal) :
    List (Path × Except RunError (List Char)) :=
  artifacts.map fun a => (a.path out, a.render templates py schema)

def goldenStages (out : Path) (cases : List GoldenCase) :
    List (Path × Except RunError (List Char)) :=
  [(out ++ ["golden.h"], .ok (renderH cases)), (out ++ ["golden.json"], .ok (templates.json cases))]

/-- What a run does before its first file. -/
def Invocation.plan (i : Invocation) :
    Except RunError (List (Path × Except RunError (List Char))) := do
  let schema ← loadFile i.schema
  match i.tool with
  | .codegen => return codegenStages templates py i.out schema
  | .goldenGen =>
      let cases ← (makeCases py.toRuntime schema).mapError fun e => .gen (.python e)
      return goldenStages templates i.out cases

def Invocation.main (i : Invocation) (files : Path → Option FileData) :
    Ran Path FileData RunError :=
  match i.plan templates py with
  | .ok stages => run textStore i.disk files stages
  | .error e => ⟨files, [], some e⟩

def after (files : Path → Option FileData) (history : List Invocation) :
    Path → Option FileData :=
  history.foldl (fun files i => (i.main templates py files).files) files

def Invocation.stages (i : Invocation) : List (Path × Except RunError (List Char)) :=
  match i.plan templates py with
  | .ok stages => stages
  | .error _ => []

def Invocation.runOf (i : Invocation) : RunOf Path FileData (List Char) RunError :=
  ⟨i.disk, i.stages templates py⟩

end Main

section Paths

def Artifact.fileName : Artifact → String
  | protocolHpp => "protocol.hpp"
  | ouProtocolH => "ou_protocol.h"
  | protocolMd => "protocol.md"
  | cmdMsg => "Cmd.msg"
  | telemetryMsg => "Telemetry.msg"

theorem getLast?_path (out : Path) (a : Artifact) :
    (a.path out).getLast? = some a.fileName := by
  cases a <;> simp [Artifact.path, Artifact.fileName]

theorem fileName_injective {a b : Artifact} (h : a.fileName = b.fileName) : a = b := by
  cases a <;> cases b <;> first
    | rfl
    | exact absurd h (by decide)

theorem path_injective {out out' : Path} {a b : Artifact} (h : a.path out = b.path out') :
    a = b ∧ out = out' := by
  have hname : some a.fileName = some b.fileName := by
    rw [← getLast?_path out, ← getLast?_path out', h]
  obtain rfl := fileName_injective (Option.some.inj hname)
  refine ⟨rfl, ?_⟩
  cases a with
  | protocolHpp => exact List.append_cancel_right h
  | ouProtocolH => exact List.append_cancel_right h
  | protocolMd => exact List.append_cancel_right h
  | cmdMsg => exact List.append_cancel_right h
  | telemetryMsg => exact List.append_cancel_right h

theorem path_ne_golden (out out' : Path) (a : Artifact) {name : String}
    (hname : name ∈ ["golden.h", "golden.json"]) : a.path out ≠ out' ++ [name] := by
  intro h
  have hlast : some a.fileName = some name := by
    rw [← getLast?_path out, h, List.getLast?_concat]
  obtain rfl := Option.some.inj hlast
  revert hname
  cases a <;> decide

end Paths

section Runs

variable {templates : Templates} {py : TextRuntime} {i : Invocation} {out : Path}
  {schema : PyVal} {files : Path → Option FileData}

theorem main_files (i : Invocation) (files : Path → Option FileData) :
    (i.main templates py files).files =
      (i.runOf templates py).after textStore files := by
  rw [Invocation.main, RunOf.after, Invocation.runOf, Invocation.stages]
  rcases i.plan templates py with e | stages
  · rfl
  · rfl

theorem after_eq (files : Path → Option FileData) (history : List Invocation) :
    after templates py files history =
      filesAfter textStore files (history.map (Invocation.runOf templates py)) := by
  rw [after, filesAfter, List.foldl_map]
  congr 1
  funext files i
  exact main_files i files

theorem stages_cases (templates : Templates) (py : TextRuntime) (i : Invocation) :
    i.stages templates py = [] ∨
    (i.tool = .codegen ∧ ∃ schema, loadFile i.schema = .ok schema ∧
      i.stages templates py = codegenStages templates py i.out schema) ∨
    i.tool = .goldenGen ∧ ∃ schema cases, loadFile i.schema = .ok schema ∧
      makeCases py.toRuntime schema = .ok cases ∧
      i.stages templates py = goldenStages templates i.out cases := by
  rw [Invocation.stages]
  rcases hplan : i.plan templates py with e | stages
  · exact .inl rfl
  · right
    rw [Invocation.plan, bind_eq_ok] at hplan
    obtain ⟨schema, hschema, hplan⟩ := hplan
    rcases htool : i.tool with _ | _
    · rw [htool] at hplan
      exact .inl ⟨rfl, schema, hschema, (pure_eq_ok.mp hplan).symm⟩
    · rw [htool] at hplan
      obtain ⟨cases, hcases, hplan⟩ := bind_eq_ok.mp hplan
      refine .inr ⟨rfl, schema, cases, hschema, ?_, (pure_eq_ok.mp hplan).symm⟩
      rcases hmake : makeCases py.toRuntime schema with e | made
      · rw [hmake] at hcases
        cases hcases
      · rw [hmake] at hcases
        exact congrArg Except.ok (Except.ok.inj hcases)

theorem map_fst_codegenStages (out : Path) (schema : PyVal) :
    (codegenStages templates py out schema).map Prod.fst = artifacts.map (Artifact.path out) := by
  rw [codegenStages, List.map_map]
  rfl

theorem nodup_paths (out : Path) : (artifacts.map (Artifact.path out)).Nodup :=
  List.Nodup.map (fun _ _ h => (path_injective h).1) (by decide)

theorem nodup_stages (templates : Templates) (py : TextRuntime) (i : Invocation) :
    ((i.stages templates py).map Prod.fst).Nodup := by
  rcases stages_cases templates py i with h | ⟨-, schema, -, h⟩ | ⟨-, -, cases, -, -, h⟩
  · rw [h]
    exact List.nodup_nil
  · rw [h, map_fst_codegenStages]
    exact nodup_paths i.out
  · rw [h]
    refine List.nodup_cons.mpr ⟨?_, List.nodup_singleton _⟩
    intro hmem
    have hlast := List.append_cancel_left (List.mem_singleton.mp hmem)
    revert hlast
    decide

/-- A run has the artifacts of a directory in their order, or none of them. -/
theorem stages_targets (i : Invocation) (out : Path) :
    (i.stages templates py).map Prod.fst = artifacts.map (Artifact.path out) ∨
      ∀ path ∈ artifacts.map (Artifact.path out), path ∉ (i.stages templates py).map Prod.fst := by
  rcases stages_cases templates py i with h | ⟨-, schema, -, h⟩ | ⟨-, -, cases, -, -, h⟩
  · rw [h]
    exact .inr fun _ _ => List.not_mem_nil
  · rw [h, map_fst_codegenStages]
    by_cases hout : i.out = out
    · rw [hout]
      exact .inl rfl
    · right
      intro path hpath hmem
      obtain ⟨a, -, rfl⟩ := List.mem_map.mp hpath
      obtain ⟨b, -, hb⟩ := List.mem_map.mp hmem
      exact hout (path_injective hb).2
  · right
    rw [h]
    intro path hpath hmem
    obtain ⟨a, -, rfl⟩ := List.mem_map.mp hpath
    simp only [goldenStages, List.map_cons, List.map_nil, List.mem_cons, List.not_mem_nil,
      or_false] at hmem
    rcases hmem with hmem | hmem
    · exact path_ne_golden out i.out a (by decide) hmem
    · exact path_ne_golden out i.out a (by decide) hmem

/-- The stage of an artifact belongs to a run of the code generator on its directory. -/
theorem render_of_mem_stages {a : Artifact} {text : List Char}
    (h : (a.path out, .ok text) ∈ i.stages templates py) :
    i.tool = .codegen ∧ i.out = out ∧ ∃ schema, loadFile i.schema = .ok schema ∧
      a.render templates py schema = .ok text := by
  rcases stages_cases templates py i with
    hstages | ⟨htool, schema, hschema, hstages⟩ | ⟨-, -, cases, -, -, hstages⟩
  · rw [hstages] at h
    cases h
  · rw [hstages] at h
    obtain ⟨b, -, hb⟩ := List.mem_map.mp h
    obtain ⟨hpath, hrender⟩ := Prod.mk.inj hb
    obtain ⟨rfl, hout⟩ := path_injective hpath
    exact ⟨htool, hout, schema, hschema, hrender⟩
  · rw [hstages] at h
    simp only [goldenStages, List.mem_cons, List.not_mem_nil, or_false, Prod.mk.injEq] at h
    rcases h with ⟨h, -⟩ | ⟨h, -⟩
    · exact absurd h (path_ne_golden out i.out a (by decide))
    · exact absurd h (path_ne_golden out i.out a (by decide))

theorem mapError_map_eq_ok {α β ε ε' : Type} {x : Except ε α} {f : α → β} {g : ε → ε'} {b : β} :
    (f <$> x).mapError g = .ok b ↔ ∃ a, x = .ok a ∧ f a = b := by
  rcases x with e | a
  · simp [Except.mapError]
  · simp [Except.mapError]

theorem render_cpp_eq_ok {text : List Char} :
    Artifact.protocolHpp.render templates py schema = .ok text ↔
      ∃ cpp, renderCpp py schema = .ok cpp ∧ templates.cpp cpp = text := mapError_map_eq_ok

theorem render_c_eq_ok {text : List Char} :
    Artifact.ouProtocolH.render templates py schema = .ok text ↔
      ∃ c, renderC py schema = .ok c ∧ templates.c c = text := mapError_map_eq_ok

theorem render_headers (templates : Templates) (py : TextRuntime) (schema : PyVal) :
    (∃ text, Artifact.protocolHpp.render templates py schema = .ok text) →
      ∃ text, Artifact.ouProtocolH.render templates py schema = .ok text := by
  rintro ⟨text, h⟩
  obtain ⟨cpp, hcpp, -⟩ := render_cpp_eq_ok.mp h
  obtain ⟨c, hc⟩ := (returns_headers py schema).mp ⟨cpp, hcpp⟩
  exact ⟨templates.c c, render_c_eq_ok.mpr ⟨c, hc, rfl⟩⟩

/-- A run whose writes of the headers of a directory do not fail writes both or neither. -/
theorem headers_together (i : Invocation) (out : Path)
    (hdisk : ∀ a ∈ [Artifact.protocolHpp, .ouProtocolH], i.disk (a.path out) = .done) :
    Together textStore (Artifact.protocolHpp.path out) (Artifact.ouProtocolH.path out)
      (i.runOf templates py) := by
  have hcDone := hdisk .ouProtocolH (by decide)
  refine ⟨hdisk .protocolHpp (by decide), hcDone, fun files hreadable => ?_⟩
  simp only [Invocation.runOf]
  rcases stages_targets i out with htargets | hnone
  · rcases stages_cases templates py i with
      hstages | ⟨-, schema, -, hstages⟩ | ⟨-, -, cases, -, -, hstages⟩
    · rw [hstages] at htargets
      cases htargets
    · rw [hstages, map_fst_codegenStages] at htargets
      have hhead : Artifact.protocolHpp.path i.out = Artifact.protocolHpp.path out :=
        (List.cons.inj htargets).1
      obtain ⟨-, rfl⟩ := path_injective hhead
      have hnodup := nodup_stages templates py i
      rw [hstages] at hnodup ⊢
      exact mem_passed_pair hnodup hreadable hcDone (render_headers templates py schema)
    · have hlength := congrArg List.length htargets
      rw [hstages] at hlength
      cases hlength
  · refine iff_of_false (fun h => ?_) fun h => ?_
    · exact hnone _ (List.mem_map_of_mem (by decide)) (fst_mem_of_passed h)
    · exact hnone _ (List.mem_map_of_mem (by decide)) (fst_mem_of_passed h)

theorem map_runOf_nodup (templates : Templates) (py : TextRuntime) (history : List Invocation) :
    ∀ r ∈ history.map (Invocation.runOf templates py), (r.stages.map Prod.fst).Nodup := by
  intro r hr
  obtain ⟨i, -, rfl⟩ := List.mem_map.mp hr
  exact nodup_stages templates py i

/-- The run that last touched an artifact of a directory rendered this text for it, and the
artifact reads as that text, or is what a failed write in this run has left of it. -/
def Source (templates : Templates) (py : TextRuntime) (history : List Invocation) (out : Path)
    (n : Nat) (a : Artifact) (files : Path → Option FileData) : Prop :=
  ∃ i schema text, history[n]? = some i ∧ i.tool = .codegen ∧ i.out = out ∧
    loadFile i.schema = .ok schema ∧ a.render templates py schema = .ok text ∧
    Origin textStore i.disk files (a.path out) text

theorem source_of_age (templates : Templates) (py : TextRuntime) (files : Path → Option FileData)
    (history : List Invocation) (out : Path) (a : Artifact) :
    match age textStore files (history.map (Invocation.runOf templates py)) (a.path out) with
    | 0 => after templates py files history (a.path out) = files (a.path out)
    | n + 1 => Source templates py history out n a (after templates py files history) := by
  have horigin := origin_of_age textStore files (a.path out)
    (map_runOf_nodup templates py history)
  rw [after_eq]
  rcases hage : age textStore files (history.map (Invocation.runOf templates py)) (a.path out)
    with _ | n
  · rw [hage] at horigin
    exact horigin
  · rw [hage] at horigin
    obtain ⟨r, text, hr, hmem, htext⟩ := horigin
    rw [List.getElem?_map, Option.map_eq_some_iff] at hr
    obtain ⟨i, hi, rfl⟩ := hr
    obtain ⟨htool, hout, schema, hschema, hrender⟩ := render_of_mem_stages hmem
    exact ⟨i, schema, text, hi, htool, hout, hschema, hrender, htext⟩

/-- After any runs of the two generators, with any schemas and output directories and any
writes failing, each artifact of a directory is untouched, or the rendering of a schema
that one of the runs read or what a failed write of that has left, and none is from a
later run than an artifact written before it. -/
theorem artifacts_in_order (templates : Templates) (py : TextRuntime)
    (files : Path → Option FileData) (history : List Invocation) (out : Path) :
    ∃ lastRun : Artifact → Nat,
      artifacts.Pairwise (fun a b => lastRun b ≤ lastRun a) ∧
        ∀ a, match lastRun a with
          | 0 => after templates py files history (a.path out) = files (a.path out)
          | n + 1 => Source templates py history out n a (after templates py files history) := by
  refine ⟨fun a => age textStore files (history.map (Invocation.runOf templates py))
    (a.path out), ?_, source_of_age templates py files history out⟩
  refine List.pairwise_map.mp (age_ordered (nodup_paths out) ?_)
  intro r hr
  obtain ⟨i, -, rfl⟩ := List.mem_map.mp hr
  exact stages_targets i out

def HeadersWritten (history : List Invocation) (out : Path) : Prop :=
  ∀ i ∈ history, ∀ a ∈ [Artifact.protocolHpp, .ouProtocolH], i.disk (a.path out) = .done

theorem headers_of_runs (templates : Templates) (py : TextRuntime)
    {files : Path → Option FileData} {out : Path}
    (hreadable : Readable textStore files (Artifact.ouProtocolH.path out))
    {history : List Invocation} (hdisk : HeadersWritten history out) :
    (∀ a ∈ [Artifact.protocolHpp, .ouProtocolH],
      after templates py files history (a.path out) = files (a.path out)) ∨
    ∃ i ∈ history, ∃ schema cpp c, i.tool = .codegen ∧ i.out = out ∧
      loadFile i.schema = .ok schema ∧ renderCpp py schema = .ok cpp ∧
      renderC py schema = .ok c ∧
      Holds textStore (after templates py files history) (Artifact.protocolHpp.path out)
        (templates.cpp cpp) ∧
      Holds textStore (after templates py files history) (Artifact.ouProtocolH.path out)
        (templates.c c) := by
  rw [after_eq]
  rcases origin_of_pair (p := Artifact.protocolHpp.path out) hreadable
    (map_runOf_nodup templates py history) (fun r hr => by
      obtain ⟨i, hi, rfl⟩ := List.mem_map.mp hr
      exact headers_together i out (hdisk i hi)) with
    huntouched | ⟨r, hr, cppText, cText, hcppText, hcText, hcppHolds, hcHolds⟩
  · left
    simp only [List.forall_mem_cons, List.not_mem_nil, false_implies, implies_true,
      and_true] at huntouched ⊢
    exact huntouched
  · obtain ⟨i, hi, rfl⟩ := List.mem_map.mp hr
    obtain ⟨htool, hout, schema, hschema, hcppText⟩ := render_of_mem_stages hcppText
    obtain ⟨-, -, schema', hschema', hcText⟩ := render_of_mem_stages hcText
    obtain rfl := Except.ok.inj (hschema.symm.trans hschema')
    obtain ⟨cpp, hcpp, rfl⟩ := render_cpp_eq_ok.mp hcppText
    obtain ⟨c, hc, rfl⟩ := render_c_eq_ok.mp hcText
    exact .inr ⟨i, hi, schema, cpp, c, htool, hout, hschema, hcpp, hc, hcppHolds, hcHolds⟩

def markTemplates : Templates where
  cpp header := header.kStx0 ++ header.kStx1
  c header := header.ouStx0 ++ header.ouStx1
  md docs := docs.knownAnswer
  msg file := Nat.toDigits 10 file.fields.length
  json cases := Nat.toDigits 10 cases.length

/-- A run on the checked-in schema, then one that finds no schema. -/
def twoRuns : List Invocation :=
  [{ tool := .codegen, schema := .parsed protocolYaml, out := ["generated"] },
    { tool := .codegen, schema := .missing, out := ["generated"] }]

theorem headersWritten_twoRuns (out : Path) : HeadersWritten twoRuns out := by
  intro i hi a _
  rcases List.mem_pair.mp hi with rfl | rfl
  · rfl
  · rfl

end Runs

end RovSdk.GeneratorRuns
