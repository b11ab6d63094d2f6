/-
  Reshape.Proofs.Refusals: what a command explains.

  A command that cannot do what it was asked for says so, in a message that starts with the spec of the
  converters or with the path of the file that is wrong. Of files that are read as JSON it explains all
  that can be wrong, if they can be looked for at all: a home directory that is not there and a name that
  is too long are not explained.
  - `loads_loadDocument`, `loads_loadInputs`: all that is wrong with such a file is explained.
  - `cites_of_compile`: so is all that is wrong with a document that JSON can hold.
  - `exists_write_summary`: the rules of a compiled document can be printed.
  - `ends_run`: how a command line ends.
  - `run_nameOf`, `a_long_name_is_not_explained`: without the condition on names it can end otherwise.
-/

import Reshape.Proofs.Faults
import Reshape.Proofs.JsonValues
import Reshape.Proofs.Applying

namespace Reshape

open Command (isExplained loadFailure compileFailure)

/-! ## Loading -/

/-- Relative, and the first part starts with a tilde: this stands for a home directory. -/
def Path.IsHomely (p : Path) : Prop := p.root = "" ∧ (p.parts.head?.bind fun part => part.toList.head?) = some '~'

instance (p : Path) : Decidable p.IsHomely := inferInstanceAs (Decidable (_ ∧ _))

namespace Workspace

variable {w : Workspace} {yaml : Yaml.Reader} {p : Path} {α β : Type} {P : α → Prop} {Q : β → Prop}
  {loaded : Except LoadFault α}

/-- A file that is read as JSON, if it is there. No name on the way to it is too long, nor is the path. -/
structure Seeks (w : Workspace) (p : Path) : Prop where
  plain : ¬ p.IsHomely
  short : w.locateResolved (w.resolve p) ≠ .error .nameTooLong
  json : (w.resolve p).format ∉ yamlSuffixes

theorem expandHome?_eq_some (h : ¬ p.IsHomely) : w.expandHome? p = some p := by
  unfold expandHome?
  split
  · rename_i part parts hroot hparts
    refine if_neg fun htilde => h ⟨hroot, ?_⟩
    rw [hparts]
    exact htilde
  · rfl

/-- What is loaded has the property, and what is wrong is explained. -/
structure Loads (P : α → Prop) (loaded : Except LoadFault α) : Prop where
  value : ∀ a, loaded = .ok a → P a
  fault : ∀ fault, loaded = .error fault → isExplained fault = true

theorem Loads.ok {a : α} (h : P a) : Loads P (.ok a) := by
  refine ⟨fun a' ha => ?_, nofun⟩
  cases ha
  exact h

theorem Loads.error {fault : LoadFault} (h : isExplained fault = true) : Loads P (.error fault) := by
  refine ⟨nofun, fun fault' hfault => ?_⟩
  cases hfault
  exact h

theorem Loads.bind {f : α → Except LoadFault β} (h : Loads P loaded) (hf : ∀ a, P a → Loads Q (f a)) :
    Loads Q (loaded >>= f) := by
  cases loaded with
  | error fault => exact .error (h.fault fault rfl)
  | ok a => exact hf a (h.value a rfl)

theorem loads_open? (h : w.Seeks p) : Loads (fun opened => opened.1.format ∉ yamlSuffixes) (w.open? p) := by
  unfold open?
  rw [expandHome?_eq_some h.plain]
  dsimp only
  by_cases hnull : (w.resolve p).hasNull = true
  · rw [if_pos hnull]
    exact .error rfl
  · rw [if_neg hnull]
    cases hplace : w.locateResolved (w.resolve p) with
    | error fault =>
      cases fault with
      | nameTooLong => exact absurd hplace h.short
      | _ => exact .error rfl
    | ok place =>
      cases place with
      | file _ => exact .ok h.json
      | _ => exact .error rfl

theorem loads_readJson (p : Path) (cs : List Char) : Loads Value.IsJson (readJson p cs) := by
  unfold readJson
  cases hread : Json.read cs with
  | ok v => exact .ok (Json.isJson_of_read hread)
  | error fault => cases fault <;> exact .error rfl

theorem loads_readStructured (hjson : p.format ∉ yamlSuffixes) (bytes : List UInt8) :
    Loads Value.IsJson (readStructured yaml p bytes) := by
  have hcontains : yamlSuffixes.contains p.format = false := by
    rw [List.contains_eq_mem]
    exact decide_eq_false hjson
  unfold readStructured
  cases Text.Utf8.decode bytes with
  | error fault => exact .error rfl
  | ok cs =>
    dsimp only
    rw [hcontains, if_neg Bool.false_ne_true]
    exact loads_readJson p _

/-- A document that is loaded is one that JSON can hold. -/
theorem loads_loadDocument (h : w.Seeks p) : Loads Value.IsJson (w.loadDocument yaml p) := by
  refine (loads_open? h).bind fun opened hjson => ?_
  refine (loads_readStructured hjson opened.2).bind fun document hdocument => ?_
  split
  · exact .ok hdocument
  · exact .error rfl

theorem loads_readLines (p : Path) (n : Nat) (lines : List (List Char)) :
    Loads (∀ v ∈ ·, v.IsJson) (readLines p n lines) := by
  induction lines generalizing n with
  | nil => exact .ok fun _ hv => absurd hv List.not_mem_nil
  | cons line lines ih =>
    rw [readLines]
    cases Text.strip line with
    | nil => exact ih (n + 1)
    | cons c cs =>
      dsimp only
      cases hread : Json.read (c :: cs) with
      | error fault => cases fault <;> exact .error rfl
      | ok v =>
        have hrest := ih (n + 1)
        cases hlines : readLines p (n + 1) lines with
        | error fault => exact .error (hrest.fault fault hlines)
        | ok vs => exact .ok (List.forall_mem_cons.mpr ⟨Json.isJson_of_read hread, hrest.value vs hlines⟩)

theorem loads_readLinesOf (p : Path) (bytes : List UInt8) : Loads (∀ v ∈ ·, v.IsJson) (readLinesOf p bytes) := by
  unfold readLinesOf
  cases Text.Utf8.decodeBlocks [] (blocks blockSize bytes.length bytes) with
  | mk cs fault? =>
    cases fault? with
    | none => exact loads_readLines p 1 _
    | some fault =>
      dsimp only
      cases hlines : readLines p 1 (endedLines cs) with
      | error fault' => exact .error ((loads_readLines p 1 _).fault fault' hlines)
      | ok _ => exact .error rfl

/-- Inputs that are loaded are ones that JSON can hold. -/
theorem loads_loadInputs (h : w.Seeks p) : Loads (∀ v ∈ ·, v.IsJson) (w.loadInputs yaml p) := by
  refine (loads_open? h).bind fun opened hjson => ?_
  dsimp only
  split
  · exact loads_readLinesOf opened.1 opened.2
  · refine (loads_readStructured hjson opened.2).bind fun v hv => ?_
    split
    · rename_i items hitems
      exact .ok (hv.items hitems)
    · exact .ok (List.forall_mem_singleton.mpr hv)

end Workspace

/-! ## Printing rules -/

namespace Tree

open Json

variable {style : Style}

theorem exists_writeItems {items : List Tree} {depth : Nat}
    (h : ∀ t ∈ items, ∀ depth, ∃ cs, writeAt style depth t.toValue = .ok cs) :
    ∃ ts, writeItems style depth (itemsToValues items) = .ok ts := by
  induction items with
  | nil => exact ⟨[], rfl⟩
  | cons t items ih =>
    obtain ⟨ht, hitems⟩ := List.forall_mem_cons.mp h
    obtain ⟨cs, hcs⟩ := ht depth
    obtain ⟨ts, hts⟩ := ih hitems
    exact ⟨cs :: ts, by rw [itemsToValues, writeItems, hcs, hts]; rfl⟩

theorem exists_writeMembers {entries : List (String × Tree)} {depth : Nat}
    (h : ∀ e ∈ entries, ∀ depth, ∃ cs, writeAt style depth e.2.toValue = .ok cs) :
    ∃ ts, writeMembers style depth (entriesToValues entries) = .ok ts := by
  induction entries with
  | nil => exact ⟨[], rfl⟩
  | cons e entries ih =>
    obtain ⟨name, t⟩ := e
    obtain ⟨ht, hentries⟩ := List.forall_mem_cons.mp h
    obtain ⟨cs, hcs⟩ := ht depth
    obtain ⟨ts, hts⟩ := ih hentries
    exact ⟨_ :: ts, by rw [entriesToValues, writeMembers, keyText, hcs, hts]; rfl⟩

theorem exists_writeAt (style : Style) (t : Tree) (depth : Nat) : ∃ cs, writeAt style depth t.toValue = .ok cs := by
  induction t using Tree.inductionOn generalizing depth with
  | leaf r => exact ⟨_, rfl⟩
  | list items ih =>
    obtain ⟨ts, hts⟩ := exists_writeItems ih
    exact ⟨_, by rw [toValue, Value.list, writeAt, hts]; rfl⟩
  | dict entries ih =>
    obtain ⟨ts, hts⟩ := exists_writeMembers ih
    exact ⟨_, by rw [toValue, writeAt, hts]; rfl⟩

end Tree

/-- Whatever its rules are, a transformation can be printed. -/
theorem Transformation.exists_write_summary (t : Transformation) (style : Json.Style) :
    ∃ cs, Json.write style t.summary = .ok cs := by
  obtain ⟨properties, hproperties⟩ := Tree.exists_writeAt style t.properties 1
  obtain ⟨nested, hnested⟩ := Tree.exists_writeAt style (.dict t.nested) 1
  rw [Tree.toValue] at hnested
  unfold Json.write summary
  rw [Json.writeAt, Json.writeMembers, Json.writeMembers, Json.writeMembers, hproperties, hnested]
  exact ⟨_, rfl⟩

namespace Command

variable {host : Host} {catalogue : Catalogue} {w : Workspace} {mapping inputs : Path} {o : Options} {failure : Failure}
  {r : Registry} {t : Transformation} {request : Request}

/-! ## Failures that are explained -/

/-- A message that starts with one of these specs or with one of these paths. -/
inductive Cites (specs : List String) (paths : List Path) : Failure → Prop where
  | spec {spec why : String} : spec ∈ specs → Cites specs paths (.rejected s!"--converters {spec}: {why}")
  | path {p : Path} {why : String} : p ∈ paths → Cites specs paths (.rejected s!"{p.text}: {why}")

variable {specs : List String} {paths : List Path}

theorem cites_of_loads {α : Type} {P : α → Prop} {loaded : Except LoadFault α} {p : Path} {fault : LoadFault}
    (hp : p ∈ paths) (hloads : Workspace.Loads P loaded) (h : loaded = .error fault) :
    Cites specs paths (loadFailure p fault) := by
  rw [loadFailure, if_pos (hloads.fault fault h)]
  exact .path hp

/-- A document of JSON is not endless, so that all that is wrong with it is a defect. -/
theorem cites_of_compile {known : String → Bool} {p : Path} {document : Value} {fault : CompileFault} (hp : p ∈ paths)
    (hjson : document.IsJson) (h : Transformation.compile known document = .error fault) :
    Cites specs paths (compileFailure p fault) := by
  have hdefect : fault.isDefect = true := by
    rcases (Transformation.compile_iff hjson.keysWritable).2 fault h with hdefect | ⟨-, hendless⟩
    · exact hdefect
    · rw [hjson.isFinite] at hendless
      cases hendless
  rw [compileFailure, hdefect, Bool.true_or, if_pos rfl]
  exact .path hp

theorem cites_of_compileFile (hseeks : w.Seeks mapping) (hp : mapping ∈ paths)
    (h : compileFile host w r mapping = .error failure) : Cites specs paths failure := by
  have hloads : Workspace.Loads Value.IsJson (w.loadDocument host.yaml mapping) := Workspace.loads_loadDocument hseeks
  rcases compileFile_eq_error h with ⟨fault, hload, rfl⟩ | ⟨document, fault, hload, hcompile, rfl⟩
  · exact cites_of_loads hp hloads hload
  · exact cites_of_compile hp (hloads.value document hload) hcompile

theorem cites_of_loadInputs (hseeks : w.Seeks inputs) (hp : inputs ∈ paths)
    (h : loadInputs host w inputs = .error failure) : Cites specs paths failure := by
  obtain ⟨fault, hload, rfl⟩ := loadInputs_eq_error h
  exact cites_of_loads hp (Workspace.loads_loadInputs hseeks) hload

theorem cites_of_buildRegistry (h : buildRegistry catalogue o = .error failure) : Cites o.converters paths failure := by
  obtain ⟨spec, hspec, why, rfl⟩ := buildRegistry_rejects h
  exact .spec hspec

/-! ## How a command line ends -/

/-- An input was loaded, and the document compiled; evaluating the one with the other ends with the fault.
It comes from a converter or from an index, or the mappings are nested too deeply. -/
def Raises (host : Host) (catalogue : Catalogue) (w : Workspace) (mapping inputs : Path) (o : Options)
    (fault : EvaluationFault) : Prop :=
  ∃ r t documents, buildRegistry catalogue o = .ok r ∧ compileFile host w r mapping = .ok t ∧
    loadInputs host w inputs = .ok documents ∧ ∃ data ∈ documents, t.evaluate host.depth r data = .error fault ∧
      (fault = .tooDeep ∨ ∃ events, t.Raised r data events fault)

/-- All the ways in which a command line can end. -/
inductive Ends (host : Host) (catalogue : Catalogue) (w : Workspace) : Option Request → Report → Prop where
  | usage : Ends host catalogue w none ⟨"", some .usage, w⟩
  | notChecked {mapping : String} {o : Options} {failure : Failure} :
      check host catalogue (Path.ofString mapping) o w = .error failure →
      Cites o.converters [Path.ofString mapping] failure →
      Ends host catalogue w (some (.check mapping o)) ⟨"", some failure, w⟩
  | printed {mapping : String} {o : Options} {t : Transformation} {cs : List Char} :
      check host catalogue (Path.ofString mapping) o w = .ok t → Json.write (Json.indented true) t.summary = .ok cs →
      Ends host catalogue w (some (.check mapping o)) ⟨String.ofList (cs ++ ['\n']), none, w⟩
  | notApplied {mapping inputs : String} {o : Options} {failure : Failure} :
      Halts host catalogue w (Path.ofString mapping) (Path.ofString inputs) o failure →
      Cites o.converters [Path.ofString mapping, Path.ofString inputs] failure →
      Ends host catalogue w (some (.apply mapping inputs o)) ⟨"", some failure, w⟩
  | raised {mapping inputs : String} {o : Options} {fault : EvaluationFault} :
      Raises host catalogue w (Path.ofString mapping) (Path.ofString inputs) o fault →
      Ends host catalogue w (some (.apply mapping inputs o)) ⟨"", some (.escaped (.evaluation fault)), w⟩
  | delivered {mapping inputs : String} {o : Options} {values : List Value} :
      Transformed host catalogue w (Path.ofString mapping) (Path.ofString inputs) o values →
      Ends host catalogue w (some (.apply mapping inputs o)) (deliver host w o.out values)
  | listed {text : String} : Ends host catalogue w (some .converters) ⟨text, none, w⟩

/-- The words hold no character that ends a path, and the files can be looked for and are read as JSON. -/
structure Request.Plain (w : Workspace) (request : Request) : Prop where
  whole : AreWhole (request.sources ++ request.destination?.toList)
  seeks : ∀ path ∈ request.sources, w.Seeks (Path.ofString path)

theorem raised_of_evaluate {data : Value} {fault : EvaluationFault} (ht : compileFile host w r mapping = .ok t)
    (h : t.evaluate host.depth r data = .error fault) : fault = .tooDeep ∨ ∃ events, t.Raised r data events fault := by
  obtain ⟨document, -, hcompile⟩ := compileFile_eq_ok ht
  by_cases hdeep : fault = .tooDeep
  · exact Or.inl hdeep
  · have hends : t.Ends r data (t.runWithin host.depth r data) :=
      ⟨_, rfl, fun heq => hdeep (Except.error.inj (h.symm.trans heq))⟩
    exact Or.inr ⟨_, Transformation.raised_of_ends hcompile hends h⟩

theorem ends_check {mapping : String} (hseeks : w.Seeks (Path.ofString mapping)) :
    Ends host catalogue w (some (.check mapping o)) (runRequest host catalogue w (.check mapping o)) := by
  rw [runRequest]
  cases hcheck : check host catalogue (Path.ofString mapping) o w with
  | error failure =>
    refine .notChecked hcheck ?_
    rcases bind_eq_error_iff.mp hcheck with h | ⟨r, -, h⟩
    · exact cites_of_buildRegistry h
    · exact cites_of_compileFile hseeks (by simp) h
  | ok t =>
    obtain ⟨cs, hcs⟩ := t.exists_write_summary (Json.indented true)
    dsimp only
    rw [printJson, hcs]
    exact .printed hcheck hcs

theorem ends_apply {mapping inputs : String} (hmapping : w.Seeks (Path.ofString mapping))
    (hinputs : w.Seeks (Path.ofString inputs)) :
    Ends host catalogue w (some (.apply mapping inputs o)) (runRequest host catalogue w (.apply mapping inputs o)) := by
  rw [runRequest]
  cases hresults : results host catalogue (Path.ofString mapping) (Path.ofString inputs) o w with
  | error failure =>
    cases halts_of_results hresults with
    | converters h => exact .notApplied (.converters h) (cites_of_buildRegistry h)
    | mapping hr h => exact .notApplied (.mapping hr h) (cites_of_compileFile hmapping (by simp) h)
    | inputs hr ht h => exact .notApplied (.inputs hr ht h) (cites_of_loadInputs hinputs (by simp) h)
    | evaluation hr ht hdocuments hdata h =>
      exact .raised ⟨_, _, _, hr, ht, hdocuments, _, hdata, h, raised_of_evaluate ht h⟩
  | ok values => exact .delivered (results_eq_ok_iff.mp hresults)

/-- Whatever the words are and the files hold: `check` ends well or explains what is wrong, and so does `apply`,
unless the evaluation of an input fails or the results cannot be delivered. -/
theorem ends_run {words : List String} (h : ∀ request, (host.parse words).request = some request → request.Plain w) :
    Ends host catalogue w (host.parse words).request (run host catalogue w words) := by
  cases hrequest : (host.parse words).request with
  | none =>
    unfold run
    rw [hrequest]
    exact .usage
  | some request =>
    have hplain := h request hrequest
    rw [run_of_areWhole hrequest hplain.whole]
    cases request with
    | check mapping o => exact ends_check (hplain.seeks mapping (by simp [Request.sources]))
    | apply mapping inputs o =>
      exact ends_apply (hplain.seeks mapping (by simp [Request.sources]))
        (hplain.seeks inputs (by simp [Request.sources]))
    | converters => exact .listed

/-- A directory without files. -/
def emptied : Workspace := ⟨[], [], ⟨"/", []⟩, []⟩

theorem a_missing_document_is_explained :
    (∀ request, (Host.plain.parse ["check", "m"]).request = some request → request.Plain emptied) ∧
    Ends .plain Catalogue.builtin emptied (some (.check "m" Options.initial))
      (run .plain Catalogue.builtin emptied ["check", "m"]) ∧
    (run .plain Catalogue.builtin emptied ["check", "m"]).failure = some (.rejected "m: /m") := by
  have hparse : (Host.plain.parse ["check", "m"]).request = some (.check "m" Options.initial) := by decide +kernel
  have hplain : ∀ request, (Host.plain.parse ["check", "m"]).request = some request → request.Plain emptied := by
    intro request hrequest
    cases hparse.symm.trans hrequest
    refine ⟨by decide +kernel, fun path hpath => ?_⟩
    obtain rfl := List.mem_singleton.mp hpath
    exact ⟨by decide +kernel, by decide +kernel, by decide +kernel⟩
  have hends := @ends_run .plain Catalogue.builtin emptied ["check", "m"] hplain
  rw [hparse] at hends
  exact ⟨hplain, hends, by decide +kernel⟩

/-! ## Names that are too long -/

theorem Cites.ne_escaped (h : Cites specs paths failure) (fault : Fault) : failure ≠ .escaped fault := by
  cases h <;> nofun

/-- No fault escapes from a `check` that ends in one of these ways. -/
theorem Ends.ne_escaped {mapping : String} {report : Report}
    (h : Ends host catalogue w (some (.check mapping o)) report) (fault : Fault) :
    report.failure ≠ some (.escaped fault) := by
  cases h with
  | notChecked _ h => exact fun heq => h.ne_escaped fault (Option.some.inj heq)
  | printed => nofun

/-- What is looked for under a name that is too long is not missing: this is a fault of its own, and escapes. -/
theorem compileFile_of_tooLong (hplain : ¬ mapping.IsHomely) (hnull : (w.resolve mapping).hasNull = false)
    (hlong : w.locateResolved (w.resolve mapping) = .error .nameTooLong) :
    compileFile host w r mapping = .error (.escaped (.load (.file (.nameTooLong (w.resolve mapping).text)))) := by
  have hopen : w.open? mapping = .error (.file (.nameTooLong (w.resolve mapping).text)) := by
    unfold Workspace.open?
    rw [Workspace.expandHome?_eq_some hplain]
    dsimp only
    rw [hnull, if_neg Bool.false_ne_true, hlong]
  unfold compileFile Workspace.loadDocument
  rw [hopen]
  rfl

theorem parse_check {word : String} (h : word.toList.head? ≠ some '-') :
    (parse ["check", word]).request = some (.check word Options.initial) := by
  have hword : word ≠ "--" := by
    intro heq
    rw [heq] at h
    exact h (by decide)
  have hoption : isOption word = false := by simp [isOption, h]
  have hwords : readWords shared 2 Options.initial [word] = some (Options.initial, [word]) := by
    rw [readWords, if_neg hword, hoption]
    rfl
  have hrequest : readRequest .check [word] = some (.check word Options.initial) := by
    unfold readRequest readCommand
    simp only [List.length_singleton, hwords]
  have hcommand : isOption "check" = false := by decide
  have hname : names.lookup "check" = some .check := by decide
  rw [parse, readLine, if_neg (by decide), hcommand, hname, Option.map_some, hrequest]
  rfl

/-- A name of one letter. -/
def nameOf (n : Nat) : String := String.ofList (List.replicate n 'a')

variable {n : Nat}

theorem toList_nameOf : (nameOf n).toList = List.replicate n 'a' := by
  rw [nameOf, String.toList_ofList]

theorem utf8ByteSize_nameOf (n : Nat) : (nameOf n).utf8ByteSize = n := by
  unfold nameOf
  induction n with
  | zero => rfl
  | succ n ih =>
    have hletter : (String.ofList ['a']).utf8ByteSize = 1 := by decide
    rw [List.replicate_succ, ← List.singleton_append, String.ofList_append, String.utf8ByteSize_append, ih]
    omega

theorem not_mem_nameOf {c : Char} (hc : c ≠ 'a') : c ∉ (nameOf n).toList := by
  rw [toList_nameOf]
  exact fun h => hc (List.mem_replicate.mp h).2

theorem head?_nameOf {c : Char} (hc : c ≠ 'a') : (nameOf n).toList.head? ≠ some c :=
  fun h => not_mem_nameOf hc (List.mem_of_mem_head? h)

theorem nameOf_ne {name : String} (h : name.toList.all (· = 'a') = false) : nameOf n ≠ name := by
  intro heq
  rw [← heq, toList_nameOf, List.all_replicate] at h
  simp at h

theorem ofString_nameOf (hn : 0 < n) : Path.ofString (nameOf n) = ⟨"", [nameOf n]⟩ := by
  have hroot : Path.rootOf (nameOf n).toList = "" := by
    obtain ⟨m, rfl⟩ : ∃ m, n = m + 1 := ⟨n - 1, by omega⟩
    rw [toList_nameOf, List.replicate_succ]
    rfl
  have hsplit : Text.splitAt '/' (nameOf n) = [nameOf n] := by
    rw [Text.splitAt_eq_iff]
    refine ⟨by simp, fun part hpart => ?_, rfl⟩
    rw [List.mem_singleton.mp hpart]
    exact not_mem_nameOf (by decide)
  have hempty : nameOf n ≠ "" := by
    intro heq
    have hsize := utf8ByteSize_nameOf n
    rw [heq, String.utf8ByteSize_empty] at hsize
    omega
  have hdot : nameOf n ≠ "." := nameOf_ne (by decide)
  rw [Path.ofString, hroot, hsplit]
  simp [hempty, hdot]

theorem resolve_nameOf (hn : 0 < n) : emptied.resolve (Path.ofString (nameOf n)) = ⟨"/", [nameOf n]⟩ := by
  have hup : nameOf n ≠ ".." := nameOf_ne (by decide)
  rw [ofString_nameOf hn]
  simp [Workspace.resolve, Path.resolve, emptied, Path.climb, hup]

theorem locate_nameOf (hn : Workspace.nameLimit < n) :
    emptied.locateResolved ⟨"/", [nameOf n]⟩ = .error .nameTooLong := by
  unfold Workspace.locateResolved Workspace.locateFrom
  by_cases hpath : Workspace.pathLimit ≤ (⟨"/", [nameOf n]⟩ : Path).text.utf8ByteSize
  · rw [if_pos hpath]
  · rw [if_neg hpath, List.foldlM_cons, Workspace.step, if_neg (nameOf_ne (by decide)), utf8ByteSize_nameOf, if_pos hn]
    rfl

theorem not_homely_nameOf (hn : 0 < n) : ¬ (Path.ofString (nameOf n)).IsHomely := by
  intro h
  rw [ofString_nameOf hn] at h
  exact head?_nameOf (by decide) h.2

/-- The name has no dot, and so the path no suffix. -/
theorem format_nameOf : (⟨"/", [nameOf n]⟩ : Path).format = "" := by
  have hafter : (nameOf n).toList.reverse.dropWhile (· ≠ '.') = [] := by
    rw [List.dropWhile_eq_nil_iff]
    intro c hc
    have hne : c ≠ '.' := by
      intro heq
      exact not_mem_nameOf (by decide) (heq ▸ List.mem_reverse.mp hc)
    simpa using hne
  have hsuffix : Path.suffixOf (nameOf n).toList = [] := by
    unfold Path.suffixOf
    rw [hafter]
    simp
  unfold Path.format Path.suffix
  show String.ofList (Text.lower (String.ofList (Path.suffixOf (nameOf n).toList)).toList) = ""
  rw [hsuffix]
  rfl

/-- Whatever the converters are, looking for such a name ends `check` with a fault. -/
theorem run_nameOf (hn : Workspace.nameLimit < n) : (run .plain catalogue emptied ["check", nameOf n]).failure =
    some (.escaped (.load (.file (.nameTooLong (⟨"/", [nameOf n]⟩ : Path).text)))) := by
  have hpos : 0 < n := by omega
  have hnull : '\x00' ∉ (nameOf n).toList := not_mem_nameOf (by decide)
  have hwhole : (⟨"/", [nameOf n]⟩ : Path).hasNull = false := by simp [Path.hasNull, hnull]
  have hregistry : buildRegistry catalogue Options.initial = .ok (Registry.ofTable Builtin.table) := rfl
  have hcompile := fun r => @compileFile_of_tooLong .plain emptied (Path.ofString (nameOf n)) r (not_homely_nameOf hpos)
  rw [resolve_nameOf hpos] at hcompile
  have hparse : (Host.plain.parse ["check", nameOf n]).request = _ := parse_check (head?_nameOf (by decide))
  unfold run
  rw [hparse]
  simp [Request.sources, Request.destination?, hnull, runRequest, check, hregistry, bind, Except.bind,
    hcompile _ hwhole (locate_nameOf hn)]

theorem a_long_name_is_not_explained : ¬ ∀ (host : Host) (catalogue : Catalogue) (w : Workspace) (words : List String),
    (∀ request, (host.parse words).request = some request →
      AreWhole (request.sources ++ request.destination?.toList) ∧
      ∀ path ∈ request.sources, ¬ (Path.ofString path).IsHomely ∧
        (w.resolve (Path.ofString path)).format ∉ Workspace.yamlSuffixes) →
    Ends host catalogue w (host.parse words).request (run host catalogue w words) := by
  intro h
  have hparse : (Host.plain.parse ["check", nameOf 260]).request = _ := parse_check (head?_nameOf (by decide))
  have hends := h .plain Catalogue.builtin emptied ["check", nameOf 260] ?plain
  · rw [hparse] at hends
    exact hends.ne_escaped _ (run_nameOf (by decide))
  case plain =>
    intro request hrequest
    cases hparse.symm.trans hrequest
    refine ⟨fun path hpath => ?_, fun path hpath => ?_⟩ <;> obtain rfl := List.mem_singleton.mp hpath
    · exact not_mem_nameOf (by decide)
    · rw [resolve_nameOf (by decide), format_nameOf]
      exact ⟨not_homely_nameOf (by decide), by decide⟩

end Command

end Reshape
