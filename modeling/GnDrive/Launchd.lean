/-
  GnDrive.Launchd

  The property list of the launch agent (`launchd.rs`).

  `render_plist` puts the paths into the text as they are.  The document is read back as it was
  meant if they need no escaping, and only then (`plist_reads_back_iff`).
-/

import GnDrive.Lib.Xml

namespace GnDrive.Launchd

open Xml (Content Tag Plain parse)

-- ============================================================================
-- Rendering
-- ============================================================================

/-- The fields that are rendered. -/
structure ServiceSpec where
  execPath : Text
  configDir : Text

structure LaunchdService where
  home : Text
  /-- Executable used when `ServiceSpec.execPath` is empty. -/
  defaultExec : Text

def LABEL : Text := "com.gndrive.app".toList

/-- `NSString.deletingLastPathComponent` for the common cases. -/
def deleteLastComponent (p : Text) : Text :=
  match cutLast (· = '/') (p.rdropWhile (· = '/')) with
  | none => []
  | some ([], _, _) => "/".toList
  | some (parent, _, _) => parent

namespace LaunchdService

variable (svc : LaunchdService) (spec : ServiceSpec)

def exec : Text := if spec.execPath = [] then svc.defaultExec else spec.execPath

def logDir : Text :=
  if spec.configDir = [] then svc.home ++ "/.config/gn-drive".toList else spec.configDir

/-- Render the launchd plist. -/
def renderPlist : Text :=
  List.flatten [
    "<?xml version=\"1.0\" encoding=\"UTF-8\"?>\n".toList,
    "<!DOCTYPE plist PUBLIC \"-//Apple//DTD PLIST 1.0//EN\"".toList,
    " \"http://www.apple.com/DTDs/PropertyList-1.0.dtd\">\n".toList,
    "<plist version=\"1.0\">\n".toList,
    "<dict>\n".toList,
    "  <key>Label</key>\n".toList,
    "  <string>".toList, LABEL, "</string>\n".toList,
    "  <key>ProgramArguments</key>\n".toList,
    "  <array>\n".toList,
    "    <string>".toList, svc.exec spec, "</string>\n".toList,
    "    <string>run</string>\n".toList,
    "    <string>--service</string>\n".toList,
    "  </array>\n".toList,
    "  <key>RunAtLoad</key>\n".toList,
    "  <true/>\n".toList,
    "  <key>KeepAlive</key>\n".toList,
    "  <dict>\n".toList,
    "    <key>SuccessfulExit</key>\n".toList,
    "    <false/>\n".toList,
    "    <key>Crashed</key>\n".toList,
    "    <true/>\n".toList,
    "  </dict>\n".toList,
    "  <key>ThrottleInterval</key>\n".toList,
    "  <integer>10</integer>\n".toList,
    "  <key>EnvironmentVariables</key>\n".toList,
    "  <dict>\n".toList,
    "    <key>GN_DRIVE_MODE</key>\n".toList,
    "    <string>service</string>\n".toList,
    "    <key>HOME</key>\n".toList,
    "    <string>".toList, svc.home, "</string>\n".toList,
    "  </dict>\n".toList,
    "  <key>WorkingDirectory</key>\n".toList,
    "  <string>".toList, deleteLastComponent (svc.exec spec), "</string>\n".toList,
    "  <key>StandardOutPath</key>\n".toList,
    "  <string>".toList, svc.logDir spec, "/gn-drive.out.log</string>\n".toList,
    "  <key>StandardErrorPath</key>\n".toList,
    "  <string>".toList, svc.logDir spec, "/gn-drive.err.log</string>\n".toList,
    "</dict>\n".toList,
    "</plist>".toList]

end LaunchdService

-- ============================================================================
-- The document
-- ============================================================================

/-- On a new line. -/
def line (indent : Nat) (next : Content) : Content := .text ('\n' :: List.replicate indent ' ') next

def ofText (t : Text) : Content := if t = [] then .done else .text t .done

/-- An element with a text in it. -/
def leaf (name : String) (t : Text) (next : Content) : Content :=
  .element ⟨name.toList, []⟩ (ofText t) next

def group (name : String) (inside next : Content) : Content := .element ⟨name.toList, []⟩ inside next

def flag (name : String) (next : Content) : Content := .empty ⟨name.toList, []⟩ next

def key (name : String) (next : Content) : Content := line 2 (leaf "key" name.toList (line 2 next))

/-- The property list with its strings. -/
def propertyList (exec home workDir out err : Text) : Content :=
  line 0 <| group "dict"
    (key "Label" <| leaf "string" LABEL <|
    key "ProgramArguments" <| group "array"
      (line 4 <| leaf "string" exec <| line 4 <| leaf "string" "run".toList <|
        line 4 <| leaf "string" "--service".toList <| line 2 .done) <|
    key "RunAtLoad" <| flag "true" <|
    key "KeepAlive" <| group "dict"
      (line 4 <| leaf "key" "SuccessfulExit".toList <| line 4 <| flag "false" <|
        line 4 <| leaf "key" "Crashed".toList <| line 4 <| flag "true" <| line 2 .done) <|
    key "ThrottleInterval" <| leaf "integer" "10".toList <|
    key "EnvironmentVariables" <| group "dict"
      (line 4 <| leaf "key" "GN_DRIVE_MODE".toList <| line 4 <| leaf "string" "service".toList <|
        line 4 <| leaf "key" "HOME".toList <| line 4 <| leaf "string" home <| line 2 .done) <|
    key "WorkingDirectory" <| leaf "string" workDir <|
    key "StandardOutPath" <| leaf "string" out <|
    key "StandardErrorPath" <| leaf "string" err <| line 0 .done) <|
  line 0 .done

def PLIST : Tag := ⟨"plist".toList, [("version".toList, "1.0".toList)]⟩

namespace LaunchdService

variable (svc : LaunchdService) (spec : ServiceSpec)

def standardOut : Text := svc.logDir spec ++ "/gn-drive.out.log".toList

def standardError : Text := svc.logDir spec ++ "/gn-drive.err.log".toList

def entries : Content :=
  propertyList (svc.exec spec) svc.home (deleteLastComponent (svc.exec spec))
    (svc.standardOut spec) (svc.standardError spec)

/-- The document that is meant. -/
def plist : Content := .element PLIST (svc.entries spec) .done

end LaunchdService

-- ============================================================================
-- What launchd reads
-- ============================================================================

/-- The elements, when there is nothing but space between them. -/
def elements : Content → Option (List (Text × Content))
  | .done => some []
  | .text t next => if t.all Xml.isSpace then elements next else none
  | .empty tag next => (elements next).map ((tag.name, .done) :: ·)
  | .element tag inside next => (elements next).map ((tag.name, inside) :: ·)

def characters : Content → Option Text
  | .done => some []
  | .text t .done => some t
  | _ => none

def named (name : String) (k : Text × Content) : Option Content :=
  if k.1 = name.toList then some k.2 else none

def string (k : Text × Content) : Option Text := (named "string" k).bind characters

def dict (k : Text × Content) : Option (List (Text × Content)) := (named "dict" k).bind elements

/-- The value behind a key. -/
def lookup (name : String) : List (Text × Content) → Option (Text × Content)
  | k :: v :: rest =>
      if (named "key" k).bind characters = some name.toList then some v else lookup name rest
  | _ => none

structure AgentEntries where
  programArguments : List Text
  home : Text
  standardOut : Text
  standardError : Text
deriving DecidableEq

/-- The program arguments, the environment and the log paths of a property list. -/
def agentEntries : Content → Option AgentEntries
  | .element tag inside .done =>
      if tag.name = "plist".toList then
        match elements inside with
        | some [top] =>
            (dict top).bind fun entries =>
            (((lookup "ProgramArguments" entries).bind (named "array")).bind elements).bind
              fun arguments =>
            (arguments.mapM string).bind fun programArguments =>
            ((lookup "EnvironmentVariables" entries).bind dict).bind fun environment =>
            ((lookup "HOME" environment).bind string).bind fun home =>
            ((lookup "StandardOutPath" entries).bind string).bind fun standardOut =>
            ((lookup "StandardErrorPath" entries).bind string).map fun standardError =>
              ⟨programArguments, home, standardOut, standardError⟩
        | _ => none
      else none
  | _ => none

-- ============================================================================
-- The document as it is written
-- ============================================================================

theorem ofText_write (t s : Text) : (ofText t).write s = t ++ s := by
  unfold ofText
  split
  · rename_i h
    rw [h]
    rfl
  · rfl

theorem characters_ofText (t : Text) : characters (ofText t) = some t := by
  unfold ofText
  split
  · rename_i h
    rw [h]
    rfl
  · rfl

/-- In front of the root element. -/
def header (s : Text) : Text :=
  Xml.writeProlog [("version".toList, "1.0".toList), ("encoding".toList, "UTF-8".toList)]
    "plist".toList "-//Apple//DTD PLIST 1.0//EN".toList
    "http://www.apple.com/DTDs/PropertyList-1.0.dtd".toList s

section

variable (svc : LaunchdService) (spec : ServiceSpec)

set_option maxRecDepth 20000 in
/-- What is rendered is the document that is meant, written without escaping. -/
theorem renderPlist_eq : svc.renderPlist spec = header ((svc.plist spec).write []) := by
  unfold LaunchdService.renderPlist LaunchdService.plist LaunchdService.entries
    LaunchdService.standardOut LaunchdService.standardError
  generalize svc.exec spec = exec
  generalize svc.logDir spec = logDir
  generalize deleteLastComponent exec = workDir
  generalize svc.home = home
  unfold header propertyList key group flag leaf line Xml.writeProlog LABEL PLIST
  -- the literals as characters
  repeat rw [String.toList_ofList]
  simp only [Content.write, ofText_write, List.append_assoc]
  rfl

end

section

variable {name : String} {t : Text} {inside next : Content} {v : Text × Content}
  {rest : List (Text × Content)}

theorem elements_line (indent : Nat) (next : Content) :
    elements (line indent next) = elements next := by
  have hspace : ('\n' :: List.replicate indent ' ').all Xml.isSpace = true := by
    rw [List.all_cons, List.all_replicate]
    simp [Xml.isSpace]
  unfold line elements
  rw [if_pos hspace]
  cases next <;> rfl

theorem elements_group : elements (group name inside next) =
    (elements next).map ((name.toList, inside) :: ·) := rfl

theorem elements_flag : elements (flag name next) =
    (elements next).map ((name.toList, .done) :: ·) := rfl

theorem elements_leaf : elements (leaf name t next) =
    (elements next).map ((name.toList, ofText t) :: ·) := rfl

theorem elements_key : elements (key name next) =
    (elements next).map (("key".toList, ofText name.toList) :: ·) := by
  unfold key
  rw [elements_line, elements_leaf, elements_line]

theorem named_self : named name (name.toList, inside) = some inside := if_pos rfl

theorem lookup_key (k : String) : lookup name (("key".toList, ofText k.toList) :: v :: rest) =
    if k = name then some v else lookup name rest := by
  rw [lookup, named_self, Option.bind_some, characters_ofText]
  simp only [Option.some.injEq, String.toList_inj]

theorem string_ofText (t : Text) : string ("string".toList, ofText t) = some t := by
  unfold string
  rw [named_self, Option.bind_some, characters_ofText]

end

theorem agentEntries_plist (svc : LaunchdService) (spec : ServiceSpec) :
    agentEntries (svc.plist spec) = some {
      programArguments := [svc.exec spec, "run".toList, "--service".toList]
      home := svc.home
      standardOut := svc.standardOut spec
      standardError := svc.standardError spec } := by
  have hdone : elements .done = some [] := rfl
  unfold LaunchdService.plist LaunchdService.entries agentEntries propertyList
  simp only [PLIST, elements_line, elements_group, elements_flag, elements_leaf, elements_key,
    hdone, Option.map_some, dict, named_self, Option.bind_some, if_true, lookup_key, String.reduceEq,
    if_false, string_ofText, List.mapM_cons, List.mapM_nil, Option.pure_def, Option.bind_eq_bind]

-- ============================================================================
-- Strings that need no escaping
-- ============================================================================

section

variable {a b t : Text} {next inside : Content}

theorem Plain.part (h : Plain b) (hpart : a <:+: b) : Plain a :=
  ⟨fun c hc => h.chars c (hpart.subset hc), fun hclose => h.unended (hclose.trans hpart)⟩

/-- A path component behind a text. -/
theorem plain_append_iff (hb : Plain ('/' :: b)) : Plain (a ++ '/' :: b) ↔ Plain a := by
  refine ⟨fun h => Plain.part h List.infix_append_left, fun h => ⟨fun c hc => ?_, fun hclose => ?_⟩⟩
  · rcases List.mem_append.mp hc with hc | hc
    · exact h.chars c hc
    · exact hb.chars c hc
  · rcases List.infix_append_iff_ne_nil.mp hclose with hclose | hclose | ⟨l₁, l₂, -, hne, hl, -, hl₂⟩
    · exact h.unended hclose
    · exact hb.unended hclose
    · -- the second part would begin with the slash
      obtain ⟨u, hu⟩ := hl₂
      cases l₂ with
      | nil => exact hne rfl
      | cons c l₂ =>
        obtain ⟨rfl, -⟩ := List.cons.inj hu
        have hmem : '/' ∈ "]]>".toList := hl ▸ List.mem_append_right l₁ List.mem_cons_self
        exact absurd hmem (by decide)

theorem plain_parent (h : Plain a) : Plain (deleteLastComponent a) := by
  have htrimmed : a.rdropWhile (· = '/') <:+: a := (List.rdropWhile_prefix _ _).isInfix
  unfold deleteLastComponent
  split
  · exact Plain.part h (List.nil_infix)
  · rename_i c rest hcut
    obtain ⟨hsplit, hslash, -⟩ := cutLast_eq_some.mp hcut
    refine Plain.part h (List.IsInfix.trans ?_ htrimmed)
    rw [hsplit, of_decide_eq_true hslash]
    exact ⟨[], rest, rfl⟩
  · rename_i parent c rest _ hcut
    obtain ⟨hsplit, -, -⟩ := cutLast_eq_some.mp hcut
    refine Plain.part h (List.IsInfix.trans ?_ htrimmed)
    rw [hsplit]
    exact List.infix_append_left

/-- All texts in the content need no escaping. -/
def PlainTexts (k : Content) : Prop := ∀ t ∈ k.texts, Plain t

theorem plainTexts_ofText : PlainTexts (ofText t) ↔ Plain t := by
  unfold ofText
  split
  · rename_i h
    rw [h]
    exact iff_of_true nofun (by decide)
  · exact List.forall_mem_singleton

theorem plainTexts_group (name : String) :
    PlainTexts (group name inside next) ↔ PlainTexts inside ∧ PlainTexts next :=
  List.forall_mem_append

theorem plainTexts_leaf (name : String) (t : Text) :
    PlainTexts (leaf name t next) ↔ Plain t ∧ PlainTexts next := by
  rw [← plainTexts_ofText]
  exact List.forall_mem_append

theorem plainTexts_flag (name : String) : PlainTexts (flag name next) ↔ PlainTexts next := Iff.rfl

theorem plainTexts_line {indent : Nat} (h : indent ≤ 4) :
    PlainTexts (line indent next) ↔ PlainTexts next := by
  have hspace : ∀ n ≤ 4, Plain ('\n' :: List.replicate n ' ') := by decide
  exact List.forall_mem_cons.trans (and_iff_right (hspace indent h))

theorem plainTexts_key {name : String} (h : Plain name.toList) :
    PlainTexts (key name next) ↔ PlainTexts next := by
  unfold key
  rw [plainTexts_line (by decide), plainTexts_leaf, plainTexts_line (by decide), and_iff_right h]

end

/-- The texts of the property list itself need no escaping. -/
theorem plainTexts_propertyList (exec home workDir out err : Text) :
    PlainTexts (propertyList exec home workDir out err) ↔
      Plain exec ∧ Plain home ∧ Plain workDir ∧ Plain out ∧ Plain err := by
  have hdone : PlainTexts .done := nofun
  have hlabel : Plain LABEL := by
    unfold LABEL
    rw [String.toList_ofList]
    decide +kernel
  have hfixed : ∀ name ∈ ["Label", "ProgramArguments", "RunAtLoad", "KeepAlive",
      "ThrottleInterval", "EnvironmentVariables", "WorkingDirectory", "StandardOutPath",
      "StandardErrorPath", "run", "--service", "SuccessfulExit", "Crashed", "10", "GN_DRIVE_MODE",
      "service", "HOME"], Plain name.toList := by
    simp only [List.forall_mem_cons]
    repeat rw [String.toList_ofList]
    decide +kernel
  have hkey : ∀ name, Plain name.toList → ∀ next, (PlainTexts (key name next) ↔ PlainTexts next) :=
    fun _ h _ => plainTexts_key h
  have hline : ∀ {next : Content}, (PlainTexts (line 0 next) ↔ PlainTexts next) ∧
      (PlainTexts (line 2 next) ↔ PlainTexts next) ∧ (PlainTexts (line 4 next) ↔ PlainTexts next) :=
    ⟨plainTexts_line (by decide), plainTexts_line (by decide), plainTexts_line (by decide)⟩
  unfold propertyList
  simp only [hline, plainTexts_group, plainTexts_leaf, plainTexts_flag, hkey, hfixed, hlabel, hdone,
    List.mem_cons, String.reduceEq, true_or, or_true, true_and, and_true]

-- ============================================================================
-- Reading back
-- ============================================================================

set_option maxRecDepth 2000 in
theorem header_clean : Xml.Clean (header []) := by
  unfold header Xml.writeProlog
  repeat rw [String.toList_ofList]
  decide +kernel

theorem header_read {s : Text} (h : Xml.Opens s) : Xml.prolog (header [] ++ s) = some s := by
  unfold header
  rw [← Xml.writeProlog_append]
  exact Xml.prolog_write (by decide +kernel) (by decide +kernel) (by decide +kernel)
    (by decide +kernel) (by decide +kernel) h

theorem shape_ofText (t : Text) : (ofText t).Shape := by
  unfold ofText
  split
  · exact trivial
  · rename_i h
    exact ⟨h, rfl, trivial⟩

theorem shape_leaf {name : String} (h : Xml.isName name.toList = true) (t : Text) (next : Content) :
    (leaf name t next).Shape ↔ next.Shape := by
  have hvalid : (⟨name.toList, []⟩ : Tag).valid = true := by simpa [Tag.valid] using h
  exact ⟨fun h => h.2.2, fun h => ⟨hvalid, shape_ofText t, h⟩⟩

theorem shape_group {name : String} (h : Xml.isName name.toList = true) (inside next : Content) :
    (group name inside next).Shape ↔ inside.Shape ∧ next.Shape := by
  have hvalid : (⟨name.toList, []⟩ : Tag).valid = true := by simpa [Tag.valid] using h
  exact ⟨fun h => h.2, fun h => ⟨hvalid, h⟩⟩

theorem shape_flag {name : String} (h : Xml.isName name.toList = true) (next : Content) :
    (flag name next).Shape ↔ next.Shape := by
  have hvalid : (⟨name.toList, []⟩ : Tag).valid = true := by simpa [Tag.valid] using h
  exact ⟨fun h => h.2, fun h => ⟨hvalid, h⟩⟩

theorem shape_line {indent : Nat} {next : Content} (h : next.lead = []) :
    (line indent next).Shape ↔ next.Shape :=
  ⟨fun h => h.2.2, fun hnext => ⟨List.cons_ne_nil _ _, h, hnext⟩⟩

theorem shape_key {name : String} {next : Content} (h : next.lead = []) :
    (key name next).Shape ↔ next.Shape := by
  unfold key
  rw [shape_line rfl, shape_leaf (by decide +kernel), shape_line h]

/-- Whatever the strings are, the document can be written and told apart. -/
theorem plist_shape (svc : LaunchdService) (spec : ServiceSpec) : (svc.plist spec).Shape := by
  have hnames : ∀ name ∈ ["dict", "array", "string", "key", "integer", "true", "false"],
      Xml.isName name.toList = true := by decide +kernel
  have hvalid : PLIST.valid = true := by decide +kernel
  have hdone : Content.done.Shape ∧ Content.done.lead = [] := ⟨trivial, rfl⟩
  have hleaf : ∀ name t next, (leaf name t next).lead = [] := fun _ _ _ => rfl
  have hgroup : ∀ name inside next, (group name inside next).lead = [] := fun _ _ _ => rfl
  have hflag : ∀ name next, (flag name next).lead = [] := fun _ _ => rfl
  refine ⟨hvalid, ?_, hdone.1⟩
  unfold LaunchdService.entries propertyList
  simp only [shape_key, shape_line, shape_leaf, shape_group, shape_flag, hleaf, hgroup, hflag, hnames,
    hdone, List.mem_cons, String.reduceEq, true_or, or_true, and_true]

/-- The rendered list is read as the document that is meant, whose strings are the paths that were
    given, if these need no escaping, and only then. -/
theorem plist_reads_back_iff (svc : LaunchdService) (spec : ServiceSpec) :
    (parse (svc.renderPlist spec) = some (svc.plist spec) ↔
      Plain (svc.exec spec) ∧ Plain svc.home ∧ Plain (svc.logDir spec)) ∧
    agentEntries (svc.plist spec) = some {
      programArguments := [svc.exec spec, "run".toList, "--service".toList]
      home := svc.home
      standardOut := svc.logDir spec ++ "/gn-drive.out.log".toList
      standardError := svc.logDir spec ++ "/gn-drive.err.log".toList } := by
  refine ⟨?_, agentEntries_plist svc spec⟩
  have hout : Plain "/gn-drive.out.log".toList := by
    rw [String.toList_ofList]
    decide +kernel
  have herr : Plain "/gn-drive.err.log".toList := by
    rw [String.toList_ofList]
    decide +kernel
  have hstandardOut : Plain (svc.standardOut spec) ↔ Plain (svc.logDir spec) := plain_append_iff hout
  have hstandardError : Plain (svc.standardError spec) ↔ Plain (svc.logDir spec) :=
    plain_append_iff herr
  rw [renderPlist_eq]
  unfold header
  rw [Xml.writeProlog_append]
  refine (Xml.parse_write_iff header_clean (fun _ h => header_read h) (plist_shape svc spec)).trans ?_
  refine (plainTexts_propertyList _ _ _ _ _).trans ?_
  rw [hstandardOut, hstandardError]
  constructor
  · rintro ⟨hexec, hhome, -, hlog, -⟩
    exact ⟨hexec, hhome, hlog⟩
  · rintro ⟨hexec, hhome, hlog⟩
    exact ⟨hexec, hhome, plain_parent hexec, hlog, hlog⟩

/-- An application in a folder with an ampersand. -/
def ampersand : ServiceSpec := ⟨"/Apps/R&D/gn-drive".toList, "/cfg".toList⟩

theorem ampersand_unread :
    ¬∀ (svc : LaunchdService) (spec : ServiceSpec),
      (parse (svc.renderPlist spec)).bind agentEntries = some {
        programArguments := [svc.exec spec, "run".toList, "--service".toList]
        home := svc.home
        standardOut := svc.logDir spec ++ "/gn-drive.out.log".toList
        standardError := svc.logDir spec ++ "/gn-drive.err.log".toList } := by
  intro h
  have hnone : parse ((⟨"/h".toList, []⟩ : LaunchdService).renderPlist ampersand) = none := by
    unfold LaunchdService.renderPlist LABEL ampersand
    repeat rw [String.toList_ofList]
    decide +kernel
  have hread := h ⟨"/h".toList, []⟩ ampersand
  rw [hnone] at hread
  cases hread

end GnDrive.Launchd
