import RovSdk.GoldenJson
import RovSdk.PublishedHeaders

namespace RovSdk.PublishedGolden

open RovSdk.Results
open RovSdk.Packets (PacketType)
open RovSdk.PythonValues
open RovSdk.CodeGenerator
open RovSdk.GeneratorContext (packetName)
open RovSdk.ProtocolSchema (protocolYaml)
open RovSdk.GoldenGenerator (GoldenCase)
open RovSdk.FrameLink (checkDatagram)
open RovSdk.ValidatorAgreement (checkDatagram_eq_some_iff)
open RovSdk.GoldenHeader
open RovSdk.JsonText (Atom cr_not_mem_dump)
open RovSdk.GoldenJson
open RovSdk.GeneratorRuns
open RovSdk.PublishedHeaders (textAt textAt_of_holds readable_of_pair)
open RovSdk.StagedWrites

/-- Two texts of golden vectors that show the same frames: one for each packet, as a
datagram is checked. -/
def SameFrames (header json : List Char) : Prop :=
  ∃ entries, readCases json = some entries ∧
    entries.map CaseEntry.name = [PacketType.cmd, .tele].map (fun k => (packetName k).toList) ∧
    ∀ e ∈ entries, arrayBytes (declarations header) e.arrayName = some e.expectedFrame ∧
      e.expectedFrame.length = e.totalLength ∧
      checkDatagram e.expectedFrame = some e.expectedFrame

def headerPath (out : Path) : Path := out ++ ["golden.h"]

def jsonPath (out : Path) : Path := out ++ ["golden.json"]

/-- A directory without golden files, or with two that show the same frames. -/
def GoldenAgree (files : Path → Option FileData) (out : Path) : Prop :=
  (files (headerPath out) = none ∧ files (jsonPath out) = none) ∨
  ∃ header json, textAt files (headerPath out) header ∧ textAt files (jsonPath out) json ∧
    SameFrames header json

variable {templates : Templates} {py : TextRuntime} {floatText : UInt32 → Atom}
  {files : Path → Option FileData} {out : Path} {i : Invocation}

section Runs

/-- A run has the golden files of a directory as its stages, or neither of them. -/
theorem golden_stages_cases (templates : Templates) (py : TextRuntime) (i : Invocation)
    (out : Path) :
    (i.tool = .goldenGen ∧ ∃ schema cases, loadFile i.schema = .ok schema ∧
      makeCases py.toRuntime schema = .ok cases ∧
      i.stages templates py = goldenStages templates out cases) ∨
    ∀ path ∈ [headerPath out, jsonPath out], path ∉ (i.stages templates py).map Prod.fst := by
  rcases stages_cases templates py i with
    h | ⟨-, schema, -, h⟩ | ⟨htool, schema, cases, hschema, hcases, h⟩
  · rw [h]
    exact .inr fun _ _ => List.not_mem_nil
  · right
    rw [h, map_fst_codegenStages]
    intro path hpath hmem
    obtain ⟨a, -, rfl⟩ := List.mem_map.mp hmem
    rcases List.mem_pair.mp hpath with hpath | hpath
    · exact path_ne_golden i.out out a (by decide) hpath
    · exact path_ne_golden i.out out a (by decide) hpath
  · by_cases hout : i.out = out
    · subst hout
      exact .inl ⟨htool, schema, cases, hschema, hcases, h⟩
    · right
      rw [h]
      intro path hpath hmem
      have hdir : path.dropLast = out := by
        rcases List.mem_pair.mp hpath with rfl | rfl <;> exact List.dropLast_concat
      have hdir' : path.dropLast = i.out := by
        rcases List.mem_pair.mp hmem with rfl | rfl <;> exact List.dropLast_concat
      exact hout (hdir'.symm.trans hdir)

def GoldenWritten (history : List Invocation) (out : Path) : Prop :=
  ∀ i ∈ history, ∀ path ∈ [headerPath out, jsonPath out], i.disk path = .done

theorem golden_together (i : Invocation) (out : Path)
    (hdisk : ∀ path ∈ [headerPath out, jsonPath out], i.disk path = .done) :
    Together textStore (headerPath out) (jsonPath out) (i.runOf templates py) := by
  have hjsonDone := hdisk (jsonPath out) (by simp)
  refine ⟨hdisk (headerPath out) (by simp), hjsonDone, fun files hreadable => ?_⟩
  simp only [Invocation.runOf]
  rcases golden_stages_cases templates py i out with ⟨-, schema, cases, -, -, hstages⟩ | hnone
  · have hnodup := nodup_stages templates py i
    rw [hstages] at hnodup ⊢
    exact mem_passed_pair hnodup hreadable hjsonDone fun _ => ⟨_, rfl⟩
  · refine iff_of_false (fun h => ?_) fun h => ?_
    · exact hnone _ (by simp) (fst_mem_of_passed h)
    · exact hnone _ (by simp) (fst_mem_of_passed h)

theorem texts_of_goldenStages {cases : List GoldenCase} {header json : List Char}
    (hheader : (headerPath out, .ok header) ∈ goldenStages templates out cases)
    (hjson : (jsonPath out, .ok json) ∈ goldenStages templates out cases) :
    header = renderH cases ∧ json = templates.json cases := by
  have hne : headerPath out ≠ jsonPath out := fun h =>
    absurd (List.append_cancel_left h) (by decide)
  constructor
  · rcases List.mem_pair.mp hheader with h | h
    · exact Except.ok.inj (Prod.mk.inj h).2
    · exact absurd (Prod.mk.inj h).1 hne
  · rcases List.mem_pair.mp hjson with h | h
    · exact absurd (Prod.mk.inj h).1.symm hne
    · exact Except.ok.inj (Prod.mk.inj h).2

theorem golden_of_runs (templates : Templates) (py : TextRuntime)
    (hreadable : Readable textStore files (jsonPath out)) {history : List Invocation}
    (hdisk : GoldenWritten history out) :
    (∀ path ∈ [headerPath out, jsonPath out],
      after templates py files history path = files path) ∨
    ∃ i ∈ history, ∃ schema cases, loadFile i.schema = .ok schema ∧
      makeCases py.toRuntime schema = .ok cases ∧
      Holds textStore (after templates py files history) (headerPath out) (renderH cases) ∧
      Holds textStore (after templates py files history) (jsonPath out)
        (templates.json cases) := by
  rw [after_eq]
  rcases origin_of_pair (p := headerPath out) hreadable (map_runOf_nodup templates py history)
    (fun r hr => by
      obtain ⟨i, hi, rfl⟩ := List.mem_map.mp hr
      exact golden_together i out (hdisk i hi)) with
    huntouched | ⟨r, hr, header, json, hheader, hjson, hholds⟩
  · exact .inl huntouched
  · obtain ⟨i, hi, rfl⟩ := List.mem_map.mp hr
    simp only [Invocation.runOf] at hheader hjson
    rcases golden_stages_cases templates py i out with
      ⟨-, schema, cases, hschema, hcases, hgolden⟩ | hnone
    · rw [hgolden] at hheader hjson
      obtain ⟨rfl, rfl⟩ := texts_of_goldenStages hheader hjson
      exact .inr ⟨i, hi, schema, cases, hschema, hcases, hholds⟩
    · exact absurd (List.mem_map_of_mem hheader) (hnone _ (by simp))

end Runs

section Agreement

theorem exists_sameFrames {schema : PyVal} {cases : List GoldenCase}
    (floatText : UInt32 → Atom) (hcases : makeCases py.toRuntime schema = .ok cases) :
    ∃ text, renderJson floatText cases = .ok text ∧ SameFrames (renderH cases) text := by
  obtain ⟨entries, hprints, hagree⟩ := exists_entries floatText hcases
  obtain ⟨text, hrender, hread⟩ := readCases_renderJson hprints
  have hentry : ∀ k e, Agrees floatText py.toRuntime schema cases k e →
      arrayBytes (declarations (renderH cases)) e.arrayName = some e.expectedFrame ∧
        e.expectedFrame.length = e.totalLength ∧
        checkDatagram e.expectedFrame = some e.expectedFrame := by
    intro k e h
    obtain ⟨-, -, payload, -, -, -, -, hle, hexpected⟩ := h.frame
    exact ⟨h.array, h.totalLength,
      checkDatagram_eq_some_iff.mpr ⟨rfl, payload, e.frameType, hle, hexpected⟩⟩
  obtain _ | ⟨hcmd, _ | ⟨htele, _ | _⟩⟩ := hagree
  refine ⟨text, hrender, _, hread, ?_, ?_⟩
  · simp only [List.map_cons, List.map_nil, hcmd.name, htele.name]
  · simp only [List.forall_mem_cons, List.not_mem_nil, false_implies, implies_true, and_true]
    exact ⟨hentry _ _ hcmd, hentry _ _ htele⟩

theorem cr_not_mem_renderJson {cases : List GoldenCase} {text : List Char}
    (h : renderJson floatText cases = .ok text) : '\r' ∉ text := by
  rw [renderJson, bind_eq_ok] at h
  obtain ⟨value, -, h⟩ := h
  obtain rfl := pure_eq_ok.mp h
  rw [List.mem_append, not_or]
  exact ⟨cr_not_mem_dump 0 value, by decide⟩

def jsonTemplates : Templates :=
  { markTemplates with
    json cases := (renderJson plainFloat cases).toOption.getD [] }

def goldenRuns : List Invocation :=
  [{ tool := .goldenGen, schema := .parsed protocolYaml, out := ["golden"] },
    { tool := .goldenGen, schema := .missing, out := ["golden"] }]

end Agreement

end RovSdk.PublishedGolden
