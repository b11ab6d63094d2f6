/-
  Reshape.Proofs.Applying: what `apply` leaves behind.

  Nothing is printed or written before every input has been transformed. A run that fails up to there
  leaves everything as it was, and so does one that is to write what no file can hold: a format that is
  not known, or a table of records that are no dictionaries. Lines of JSON are written one by one, so
  that the first record that cannot be written leaves the lines of those before it.
  - `contents?_put`: a file that was written is there.
  - `linesOf_or_refused`: records can be written, or there is a first one that cannot.
  - `run_applied`: what comes of a command line that asks for `apply`.
-/

import Reshape.Host.Plain
import Reshape.Proofs.Saving
import Reshape.Proofs.Stages

namespace Reshape

namespace Workspace

variable {w w' : Workspace} {yaml : Yaml.Reader} {p : Path} {text : List Char} {values : List Value}

/-! ## Files -/

/-- A file whose name does not say that it is YAML holds JSON. -/
theorem readStructured_json {v : Value} (hformat : yamlSuffixes.contains p.format = false)
    (hread : Json.read (Text.unifyLineEnds text) = .ok v) :
    readStructured yaml p (Text.Utf8.encode text) = .ok v := by
  have hdecode : Text.Utf8.decode (Text.Utf8.encode text) = .ok text := by
    rw [Text.Utf8.decode, Text.Utf8.decodeAt_encode]
    rfl
  unfold readStructured
  rw [hdecode]
  dsimp only
  rw [hformat, if_neg Bool.false_ne_true, readJson, hread]

theorem put_eq_ok (h : w.put p (Text.Utf8.encode text) = .ok w') :
    ∃ place q, w.locate p = .ok place ∧ IsAt place q ∧ w' = w.holding q text := by
  unfold put at h
  split at h
  · cases h
  · split at h
    · rename_i q hplace
      exact ⟨_, q, hplace, Or.inl rfl, (Except.ok.inj h).symm⟩
    · rename_i q hplace
      exact ⟨_, q, hplace, Or.inr rfl, (Except.ok.inj h).symm⟩
    · cases h
    · cases h

/-- A file that was written is found under its path. -/
theorem contents?_put (h : w.put p (Text.Utf8.encode text) = .ok w') :
    w'.contents? p = some (Text.Utf8.encode text) := by
  obtain ⟨place, q, hplace, hat, rfl⟩ := put_eq_ok h
  unfold contents?
  rw [locate_holding hplace hat]
  exact lookup_holding

/-- Either every record has a line, or there is a first one that is refused. -/
theorem linesOf_or_refused (values : List Value) : (∃ lines, LinesOf values lines) ∨
    ∃ before v after lines fault, values = before ++ v :: after ∧ LinesOf before lines ∧
      Json.write Json.oneLine v = .error fault := by
  induction values with
  | nil => exact Or.inl ⟨[], .nil⟩
  | cons v values ih =>
    cases hv : Json.write Json.oneLine v with
    | error fault => exact Or.inr ⟨[], v, values, [], fault, rfl, .nil, hv⟩
    | ok line =>
      rcases ih with ⟨lines, hlines⟩ | ⟨before, u, after, lines, fault, rfl, hlines, hu⟩
      · exact Or.inl ⟨line :: lines, .cons hv hlines⟩
      · exact Or.inr ⟨v :: before, u, after, line :: lines, fault, rfl, .cons hv hlines, hu⟩

theorem jsonLines_refused {before after : List Value} {v : Value} {lines : List (List Char)} {fault : Json.WriteFault}
    (hlines : LinesOf before lines) (hv : Json.write Json.oneLine v = .error fault) :
    Output.jsonLines (before ++ v :: after) = (fileText lines, .error fault) := by
  induction hlines with
  | nil =>
    rw [List.nil_append, Output.jsonLines, hv]
    rfl
  | cons hu _ ih =>
    rw [List.cons_append, Output.jsonLines, hu]
    dsimp only
    rw [ih]
    simp [fileText, Except.map]

/-- Unless there is a fault of the path, its file holds the lines up to the first that is refused. -/
theorem contents?_writeRecords {result : Except OutputFault Nat} (h : w.writeRecords p (.list values) = (w', result))
    (hfile : ∀ fault, result ≠ .error (.file fault)) :
    result = (Output.jsonLines values).2.mapError .json ∧
      w'.contents? p = some (Text.Utf8.encode (Output.jsonLines values).1) := by
  have hlines : Output.linesOf (.list values) =
      ((Output.jsonLines values).1, (Output.jsonLines values).2.mapError .json) := rfl
  unfold writeRecords at h
  rw [hlines] at h
  dsimp only at h
  split at h
  · cases h
    exact absurd rfl (hfile _)
  · split at h
    · cases h
      exact absurd rfl (hfile _)
    · rename_i hput
      cases h
      exact ⟨rfl, contents?_put hput⟩

/-- The file under the path holds these records, one on a line, and nothing else. -/
def HoldsLines (w : Workspace) (p : Path) (records : List Value) : Prop :=
  ∃ lines, LinesOf records lines ∧ w.contents? p = some (Text.Utf8.encode (fileText lines))

theorem holdsLines_of_writeJsonLines (h : w.writeJsonLines p (.list values) = (w', none)) :
    w'.HoldsLines p values := by
  unfold writeJsonLines at h
  split at h
  · cases h
  · rename_i hwrite
    cases h
    obtain ⟨hresult, hcontents⟩ := contents?_writeRecords hwrite nofun
    rcases linesOf_or_refused values with ⟨lines, hlines⟩ | ⟨before, v, after, lines, fault, rfl, hlines, hv⟩
    · rw [jsonLines_eq hlines] at hcontents
      exact ⟨lines, hlines, hcontents⟩
    · rw [jsonLines_refused hlines hv] at hresult
      cases hresult

/-- Of records that are not all written the file holds those before the first that is refused. -/
theorem holdsLines_of_refused {fault : Json.WriteFault}
    (h : w.writeJsonLines p (.list values) = (w', some (.json fault))) :
    ∃ before v after, values = before ++ v :: after ∧ Json.write Json.oneLine v = .error fault ∧
      w'.HoldsLines p before := by
  unfold writeJsonLines at h
  split at h
  · rename_i hwrite
    cases h
    obtain ⟨hresult, hcontents⟩ := contents?_writeRecords hwrite nofun
    rcases linesOf_or_refused values with ⟨lines, hlines⟩ | ⟨before, v, after, lines, fault', rfl, hlines, hv⟩
    · rw [jsonLines_eq hlines] at hresult
      cases hresult
    · rw [jsonLines_refused hlines hv] at hresult hcontents
      cases hresult
      exact ⟨before, v, after, rfl, hv, lines, hlines, hcontents⟩
  · cases h

theorem isMapping_iff {v : Value} : Table.isMapping v = true ↔ ∃ entries, v.contents = .dict entries := by
  unfold Table.isMapping
  split
  · rename_i entries h
    exact ⟨fun _ => ⟨entries, h⟩, fun _ => rfl⟩
  · rename_i h
    exact ⟨nofun, fun ⟨entries, hentries⟩ => absurd hentries (h entries)⟩

theorem exists_defect {v : Value} (hv : v ∈ values) (hno : ∀ entries, v.contents ≠ .dict entries) :
    ∃ i, Table.defect? (.list values) = some (.notAMapping i) := by
  have hitems : Value.items? (.list values) = some values := rfl
  have hmapping : Table.isMapping v = false := by
    rw [← Bool.not_eq_true, isMapping_iff]
    exact fun ⟨entries, h⟩ => hno entries h
  have hsome : (values.findIdx? (!Table.isMapping ·)).isSome = true := by
    rw [List.findIdx?_isSome, List.any_eq_true]
    exact ⟨v, hv, by rw [hmapping]; rfl⟩
  obtain ⟨i, hi⟩ := Option.isSome_iff_exists.mp hsome
  exact ⟨i, by rw [Table.defect?, hitems]; simp [hi]⟩

/-- A table is refused before anything is made, if its format is not known or a record is no dictionary. -/
theorem writeTable_refused (library : TableLibrary) (h : tableSuffixes.contains p.format = false ∨
    ∃ v ∈ values, ∀ entries, v.contents ≠ .dict entries) :
    ∃ fault, w.writeTable library p (.list values) = (w, .error fault) := by
  unfold writeTable
  by_cases hformat : tableSuffixes.contains p.format = true
  · rcases h with hno | ⟨v, hv, hno⟩
    · rw [hformat] at hno
      cases hno
    · obtain ⟨i, hi⟩ := exists_defect hv hno
      rw [hformat, hi]
      exact ⟨_, rfl⟩
  · rw [Bool.not_eq_true] at hformat
    rw [hformat]
    exact ⟨_, rfl⟩

end Workspace

namespace Command

variable {host : Host} {catalogue : Catalogue} {w : Workspace} {mapping inputs : Path} {o : Options}
  {values : List Value}

/-! ## Reports -/

/-- Nothing is printed, and everything is as it was. -/
structure Report.Quiet (report : Report) (w : Workspace) : Prop where
  printed : report.printed = ""
  failure : report.failure ≠ none
  workspace : report.workspace = w

theorem quiet_failure (w : Workspace) (failure : Failure) : Report.Quiet ⟨"", some failure, w⟩ w := ⟨rfl, nofun, rfl⟩

/-- What is done with results: they are printed, or written to the path that is given. -/
def deliver (host : Host) (w : Workspace) (out? : Option String) (values : List Value) : Report :=
  match out? with
  | none => printJson w false (.list values)
  | some out => writeResults host w (Path.ofString out) values

theorem deliver_some (host : Host) (w : Workspace) (out : String) (values : List Value) :
    deliver host w (some out) values = writeResults host w (Path.ofString out) values := by
  rw [deliver]

/-- A table that no file can hold is refused before anything is made. -/
theorem writeResults_quiet {p : Path} (hlines : p.format ≠ ".jsonl")
    (h : Workspace.tableSuffixes.contains p.format = false ∨ ∃ v ∈ values, ∀ entries, v.contents ≠ .dict entries) :
    (writeResults host w p values).Quiet w := by
  obtain ⟨fault, hwrite⟩ := @Workspace.writeTable_refused w p values host.tables h
  unfold writeResults
  rw [if_neg hlines, hwrite]
  exact quiet_failure w _

/-- Lines of all results, unless there is a failure. -/
theorem writeResults_lines {p : Path} (hlines : p.format = ".jsonl")
    (h : (writeResults host w p values).failure = none) :
    (writeResults host w p values).workspace.HoldsLines p values := by
  unfold writeResults at h ⊢
  rw [if_pos hlines] at h ⊢
  split
  · rename_i hwrite
    rw [hwrite] at h
    cases h
  · rename_i hwrite
    exact Workspace.holdsLines_of_writeJsonLines hwrite

/-- Lines of the results before the first that is refused. -/
theorem writeResults_refused {p : Path} {fault : Json.WriteFault} (hlines : p.format = ".jsonl")
    (h : (writeResults host w p values).failure = some (.escaped (.output (.json fault)))) :
    ∃ before v after, values = before ++ v :: after ∧ Json.write Json.oneLine v = .error fault ∧
      (writeResults host w p values).workspace.HoldsLines p before := by
  unfold writeResults at h ⊢
  rw [if_pos hlines] at h ⊢
  split
  · rename_i hwrite
    rw [hwrite] at h
    cases h
    exact Workspace.holdsLines_of_refused hwrite
  · rename_i hwrite
    rw [hwrite] at h
    cases h

/-! ## Runs -/

/-- What `apply` comes to. -/
structure Applied (host : Host) (catalogue : Catalogue) (w : Workspace) (mapping inputs : Path) (o : Options)
    (report : Report) : Prop where
  /-- The results of all inputs are put out, or nothing is. -/
  transformed : (∃ values, Transformed host catalogue w mapping inputs o values ∧
    report = deliver host w o.out values) ∨ report.Quiet w
  /-- Nothing is written in a format that is not known. -/
  known : ∀ out, o.out = some out → (Path.ofString out).format ∉ ".jsonl" :: Workspace.tableSuffixes → report.Quiet w
  /-- Nothing is written as a table that is none. -/
  tabular : ∀ out values, o.out = some out → (Path.ofString out).format ≠ ".jsonl" →
    Transformed host catalogue w mapping inputs o values → (∃ v ∈ values, ∀ entries, v.contents ≠ .dict entries) →
    report.Quiet w
  /-- Without a failure the file holds the lines of all results. -/
  lines : ∀ out, o.out = some out → (Path.ofString out).format = ".jsonl" → report.failure = none →
    ∃ values, Transformed host catalogue w mapping inputs o values ∧
      report.workspace.HoldsLines (Path.ofString out) values
  /-- If a result is refused, the file holds the lines of those before it. -/
  refused : ∀ out fault, o.out = some out → (Path.ofString out).format = ".jsonl" →
    report.failure = some (.escaped (.output (.json fault))) →
    ∃ before v after, Transformed host catalogue w mapping inputs o (before ++ v :: after) ∧
      Json.write Json.oneLine v = .error fault ∧ report.workspace.HoldsLines (Path.ofString out) before

/-- Nothing is said of a run that leaves nothing behind but that it does. -/
theorem applied_of_quiet {report : Report} (h : report.Quiet w)
    (hfailure : ∀ cause, report.failure ≠ some (.escaped (.output cause))) :
    Applied host catalogue w mapping inputs o report :=
  ⟨Or.inr h, fun _ _ _ => h, fun _ _ _ _ _ _ => h, fun _ _ _ hnone => absurd hnone h.failure,
    fun _ _ _ _ hrefused => absurd hrefused (hfailure _)⟩

theorem deliver_applied (h : Transformed host catalogue w mapping inputs o values) :
    Applied host catalogue w mapping inputs o (deliver host w o.out values) := by
  refine ⟨Or.inl ⟨values, h, rfl⟩, ?known, ?tabular, ?lines, ?refused⟩
  case known =>
    intro out hout hformat
    rw [List.mem_cons, not_or] at hformat
    have hunknown : Workspace.tableSuffixes.contains (Path.ofString out).format = false := by
      rw [List.contains_eq_mem]
      exact decide_eq_false hformat.2
    rw [hout, deliver_some]
    exact writeResults_quiet hformat.1 (Or.inl hunknown)
  case tabular =>
    intro out values' hout hformat h' hno
    cases (results_eq_ok_iff.mpr h).symm.trans (results_eq_ok_iff.mpr h')
    rw [hout, deliver_some]
    exact writeResults_quiet hformat (Or.inr hno)
  case lines =>
    intro out hout hformat hnone
    rw [hout, deliver_some] at hnone ⊢
    exact ⟨values, h, writeResults_lines hformat hnone⟩
  case refused =>
    intro out fault hout hformat hrefused
    rw [hout, deliver_some] at hrefused ⊢
    obtain ⟨before, v, after, rfl, hv, hholds⟩ := writeResults_refused hformat hrefused
    exact ⟨before, v, after, h, hv, hholds⟩

/-- No word among these holds the character that ends paths. -/
def AreWhole (words : List String) : Prop := ∀ word ∈ words, '\x00' ∉ word.toList

instance (words : List String) : Decidable (AreWhole words) :=
  inferInstanceAs (Decidable (∀ word ∈ words, '\x00' ∉ word.toList))

theorem any_null {words : List String} (h : AreWhole words) :
    (words.any fun word => word.toList.contains '\x00') = false := by
  rw [List.any_eq_false]
  intro word hword hcontains
  exact h word hword (List.contains_iff_mem.mp hcontains)

/-- If the paths are whole, the request is run. -/
theorem run_of_areWhole {words : List String} {request : Request} (h : (host.parse words).request = some request)
    (hwhole : AreWhole (request.sources ++ request.destination?.toList)) :
    run host catalogue w words = runRequest host catalogue w request := by
  unfold run
  rw [h]
  dsimp only
  rw [any_null hwhole, if_neg Bool.false_ne_true]

/-- If the paths are whole, results are delivered when there are any. -/
theorem run_delivers {words : List String} {mapping inputs : String}
    (h : (host.parse words).request = some (.apply mapping inputs o))
    (hwhole : AreWhole (mapping :: inputs :: o.out.toList))
    (ht : Transformed host catalogue w (Path.ofString mapping) (Path.ofString inputs) o values) :
    run host catalogue w words = deliver host w o.out values := by
  rw [run_of_areWhole h hwhole, runRequest, results_eq_ok_iff.mpr ht]
  rfl

/-- Whatever the words of the command line and the files are: `apply` puts out the results of all inputs,
or nothing. A table that no file can hold is not begun. A file of lines that ends early holds exactly the
lines before the first result that is refused. When there are results, they are put out, unless a path is
not even looked at. -/
theorem run_applied {words : List String} {mapping inputs : String}
    (h : (host.parse words).request = some (.apply mapping inputs o)) :
    Applied host catalogue w (Path.ofString mapping) (Path.ofString inputs) o (run host catalogue w words) ∧
      (AreWhole (mapping :: inputs :: o.out.toList) → ∀ values,
        Transformed host catalogue w (Path.ofString mapping) (Path.ofString inputs) o values →
        run host catalogue w words = deliver host w o.out values) := by
  refine ⟨?_, fun hwhole values ht => run_delivers h hwhole ht⟩
  unfold run
  rw [h]
  dsimp only
  split
  · exact applied_of_quiet (quiet_failure w _) nofun
  · unfold runRequest
    dsimp only
    split
    · rename_i failure hresults
      refine applied_of_quiet (quiet_failure w failure) fun cause hcause => ?_
      exact (halts_of_results hresults).ne_output cause (Option.some.inj hcause)
    · rename_i values hresults
      exact deliver_applied (results_eq_ok_iff.mp hresults)

/-- A converter that makes a set of one text. -/
def unpack : Converter := fun v => match v with
  | .str "b" => .ok (.set [])
  | v => .ok v

def shelf : Catalogue := [⟨"s", false, [("t", .table [(.str "u", .converter unpack)])]⟩]

def benchMapping : List Char := "\x7b\"properties\": \"n:u\"\x7d".toList

def benchInputs : List Char := "[\x7b\"n\": \"a\"\x7d, \x7b\"n\": \"b\"\x7d]".toList

/-- A mapping, and two inputs of which the second becomes a set. -/
def bench : Workspace :=
  ⟨[(⟨"/", ["m.json"]⟩, Text.Utf8.encode benchMapping), (⟨"/", ["i.json"]⟩, Text.Utf8.encode benchInputs)], [],
    ⟨"/", []⟩, []⟩

def benchOptions : Options := ⟨["s:t"], false, some "r.jsonl"⟩

def benchWords : List String := ["apply", "m.json", "i.json", "-o", "r.jsonl", "-c", "s:t", "--no-builtins"]

theorem compileFile_bench :
    compileFile .plain bench ⟨[("u", unpack)]⟩ (Path.ofString "m.json") = .ok ⟨.leaf ⟨["n"], "u", false⟩, []⟩ := by
  have hopen : bench.open? (Path.ofString "m.json") = .ok (⟨"/", ["m.json"]⟩, Text.Utf8.encode benchMapping) := by
    decide +kernel
  have hread : Workspace.readStructured Host.plain.yaml ⟨"/", ["m.json"]⟩ (Text.Utf8.encode benchMapping) =
      .ok (.dict [(.str "properties", .str "n:u")]) := by
    refine Workspace.readStructured_json (by decide +kernel) (Json.read_of_write ?_ rfl)
    exact @Value.IsJson.dict [("properties", .str "n:u")] (List.nodup_singleton _)
      (List.forall_mem_singleton.mpr (.str _))
  have hload : bench.loadDocument Host.plain.yaml (Path.ofString "m.json") =
      .ok (.dict [(.str "properties", .str "n:u")]) := by
    unfold Workspace.loadDocument
    simp only [bind, Except.bind, hopen, hread]
    rfl
  have hcompile : Transformation.compile (Registry.has ⟨[("u", unpack)]⟩)
      (.dict [(.str "properties", .str "n:u")]) = .ok ⟨.leaf ⟨["n"], "u", false⟩, []⟩ :=
    Transformation.link_of_flat ⟨.leaf ⟨["n"], "u", false⟩, []⟩ rfl
  unfold compileFile
  rw [hload]
  dsimp only
  rw [hcompile]

theorem loadInputs_bench : loadInputs .plain bench (Path.ofString "i.json") =
    .ok [.dict [(.str "n", .str "a")], .dict [(.str "n", .str "b")]] := by
  have hopen : bench.open? (Path.ofString "i.json") = .ok (⟨"/", ["i.json"]⟩, Text.Utf8.encode benchInputs) := by
    decide +kernel
  have hread : Workspace.readStructured Host.plain.yaml ⟨"/", ["i.json"]⟩ (Text.Utf8.encode benchInputs) =
      .ok (.list [.dict [(.str "n", .str "a")], .dict [(.str "n", .str "b")]]) := by
    have hrecord : ∀ s : String, (Value.dict [(.str "n", .str s)]).IsJson := fun s =>
      @Value.IsJson.dict [("n", .str s)] (List.nodup_singleton _) (List.forall_mem_singleton.mpr (.str s))
    refine Workspace.readStructured_json (by decide +kernel) (Json.read_of_write (.list ?_) rfl)
    exact List.forall_mem_cons.mpr ⟨hrecord "a", List.forall_mem_singleton.mpr (hrecord "b")⟩
  have hformat : (⟨"/", ["i.json"]⟩ : Path).format ≠ ".jsonl" := by decide +kernel
  unfold loadInputs Workspace.loadInputs
  simp only [bind, Except.bind, hopen, if_neg hformat, hread]
  rfl

theorem bench_transformed :
    Transformed .plain shelf bench (Path.ofString "m.json") (Path.ofString "i.json") benchOptions
      [.str "a", .set []] := by
  have hregistry : buildRegistry shelf benchOptions = .ok ⟨[("u", unpack)]⟩ := rfl
  exact ⟨_, _, _, hregistry, compileFile_bench, loadInputs_bench, .cons rfl (.cons rfl .nil)⟩

theorem a_refused_record_ends_the_file :
    (Host.plain.parse benchWords).request = some (.apply "m.json" "i.json" benchOptions) ∧
      (run .plain shelf bench benchWords).failure = some (.escaped (.output (.json (.unwritable "set")))) ∧
      ∃ before v after,
        Transformed .plain shelf bench (Path.ofString "m.json") (Path.ofString "i.json") benchOptions
          (before ++ v :: after) ∧
        (run .plain shelf bench benchWords).workspace.HoldsLines (Path.ofString "r.jsonl") before := by
  have hparse : (Host.plain.parse benchWords).request = some (.apply "m.json" "i.json" benchOptions) := by
    decide +kernel
  have hformat : (Path.ofString "r.jsonl").format = ".jsonl" := by decide +kernel
  have hwhole : AreWhole ["m.json", "i.json", "r.jsonl"] := by decide +kernel
  have hwrite : (bench.writeJsonLines (Path.ofString "r.jsonl") (.list [.str "a", .set []])).2 =
      some (.json (.unwritable "set")) := by decide +kernel
  have hfailure : (run .plain shelf bench benchWords).failure =
      some (.escaped (.output (.json (.unwritable "set")))) := by
    rw [(run_applied hparse).2 hwhole _ bench_transformed, benchOptions, deliver_some, writeResults, if_pos hformat]
    split
    · rename_i heq
      rw [heq] at hwrite
      cases hwrite
      rfl
    · rename_i heq
      rw [heq] at hwrite
      cases hwrite
  obtain ⟨before, v, after, htransformed, -, hlines⟩ := (run_applied hparse).1.refused "r.jsonl" _ rfl hformat hfailure
  exact ⟨hparse, hfailure, before, v, after, htransformed, hlines⟩

end Command

end Reshape
