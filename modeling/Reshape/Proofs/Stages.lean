/-
  Reshape.Proofs.Stages: how far a command comes.

  `apply` loads converters, then the mapping, then the inputs, and then transforms the inputs one after
  another. It has results if all of this is done, and otherwise it halts at the first stage that fails.
  - `buildRegistry_rejects`: converters that are refused are reported with the spec that named them.
  - `transformAll_eq_ok_iff`, `transformAll_eq_error`: the results of the inputs, one for each and in
    their order, or the fault of one of them.
  - `results_eq_ok_iff`, `halts_of_results`: the stages together.
-/

import Reshape.Command
import Reshape.Proofs.Reading

namespace Reshape

theorem exists_step_of_foldlM {ε α β : Type} {f : β → α → Except ε β} {as : List α} {b : β} {e : ε}
    (h : as.foldlM f b = .error e) : ∃ a ∈ as, ∃ b, f b a = .error e := by
  induction as generalizing b with
  | nil => cases h
  | cons a as ih =>
    rw [List.foldlM_cons] at h
    rcases bind_eq_error_iff.mp h with h | ⟨b', -, h⟩
    · exact ⟨a, by simp, b, h⟩
    · obtain ⟨a', ha', hstep⟩ := ih h
      exact ⟨a', List.mem_cons_of_mem _ ha', hstep⟩

namespace Command

variable {host : Host} {catalogue : Catalogue} {w : Workspace} {mapping inputs : Path} {o : Options}
  {values : List Value} {failure : Failure} {r : Registry} {t : Transformation} {documents : List Value}

/-! ## One stage -/

theorem buildRegistry_rejects (h : buildRegistry catalogue o = .error failure) :
    ∃ spec ∈ o.converters, ∃ why : String, failure = .rejected s!"--converters {spec}: {why}" := by
  obtain ⟨spec, hspec, r, hstep⟩ := exists_step_of_foldlM h
  refine ⟨spec, hspec, ?_⟩
  split at hstep
  · cases hstep
    exact ⟨_, rfl⟩
  · split at hstep
    · cases hstep
    · cases hstep
      exact ⟨_, rfl⟩

theorem compileFile_eq_ok (h : compileFile host w r mapping = .ok t) :
    ∃ document, w.loadDocument host.yaml mapping = .ok document ∧ Transformation.compile r.has document = .ok t := by
  unfold compileFile at h
  split at h
  · cases h
  · rename_i document hdocument
    split at h
    · cases h
    · rename_i hcompile
      cases h
      exact ⟨document, hdocument, hcompile⟩

theorem compileFile_eq_error (h : compileFile host w r mapping = .error failure) :
    (∃ fault, w.loadDocument host.yaml mapping = .error fault ∧ failure = loadFailure mapping fault) ∨
      ∃ document fault, w.loadDocument host.yaml mapping = .ok document ∧
        Transformation.compile r.has document = .error fault ∧ failure = compileFailure mapping fault := by
  unfold compileFile at h
  split at h
  · rename_i fault hfault
    exact Or.inl ⟨fault, hfault, (Except.error.inj h).symm⟩
  · rename_i document hdocument
    split at h
    · rename_i fault hfault
      exact Or.inr ⟨document, fault, hdocument, hfault, (Except.error.inj h).symm⟩
    · cases h

theorem loadInputs_eq_error (h : loadInputs host w inputs = .error failure) :
    ∃ fault, w.loadInputs host.yaml inputs = .error fault ∧ failure = loadFailure inputs fault := by
  unfold loadInputs at h
  split at h
  · rename_i fault hfault
    exact ⟨fault, hfault, (Except.error.inj h).symm⟩
  · cases h

theorem transformAll_eq_ok_iff : transformAll host t r documents = .ok values ↔
    List.Forall₂ (fun data v => t.evaluate host.depth r data = .ok v) documents values := by
  unfold transformAll
  induction documents generalizing values with
  | nil =>
    rw [List.mapM_nil, List.forall₂_nil_left_iff]
    exact ⟨fun h => (Except.ok.inj h).symm, fun h => h ▸ rfl⟩
  | cons data documents ih =>
    rw [List.mapM_cons]
    simp only [bind_eq_ok_iff, ih, List.forall₂_cons_left_iff]
    cases hv : t.evaluate host.depth r data with
    | error fault => simp
    | ok v =>
      constructor
      · rintro ⟨u, hu, us, hus, hvalues⟩
        cases hu
        cases hvalues
        exact ⟨v, us, rfl, hus, rfl⟩
      · rintro ⟨u, us, hu, hus, rfl⟩
        cases hu
        exact ⟨v, rfl, us, hus, rfl⟩

theorem transformAll_eq_error (h : transformAll host t r documents = .error failure) :
    ∃ data ∈ documents, ∃ fault, t.evaluate host.depth r data = .error fault ∧
      failure = .escaped (.evaluation fault) := by
  unfold transformAll at h
  induction documents with
  | nil => cases h
  | cons data documents ih =>
    rw [List.mapM_cons] at h
    rcases bind_eq_error_iff.mp h with h | ⟨v, -, h⟩
    · split at h
      · cases h
      · rename_i fault hfault
        exact ⟨data, by simp, fault, hfault, (Except.error.inj h).symm⟩
    · rcases bind_eq_error_iff.mp h with h | ⟨vs, -, h⟩
      · obtain ⟨data', hdata', hfails⟩ := ih h
        exact ⟨data', List.mem_cons_of_mem _ hdata', hfails⟩
      · cases h

/-! ## All stages -/

/-- The converters, the mapping and the inputs are loaded, and every input is transformed: these are the
results, one for each input, in the order of the inputs. -/
def Transformed (host : Host) (catalogue : Catalogue) (w : Workspace) (mapping inputs : Path) (o : Options)
    (values : List Value) : Prop :=
  ∃ r t documents, buildRegistry catalogue o = .ok r ∧ compileFile host w r mapping = .ok t ∧
    loadInputs host w inputs = .ok documents ∧
      List.Forall₂ (fun data v => t.evaluate host.depth r data = .ok v) documents values

theorem results_eq_ok_iff :
    results host catalogue mapping inputs o w = .ok values ↔ Transformed host catalogue w mapping inputs o values := by
  unfold results Transformed
  simp only [bind_eq_ok_iff, transformAll_eq_ok_iff]
  constructor
  · rintro ⟨r, hr, t, ht, documents, hdocuments, hvalues⟩
    exact ⟨r, t, documents, hr, ht, hdocuments, hvalues⟩
  · rintro ⟨r, t, documents, hr, ht, hdocuments, hvalues⟩
    exact ⟨r, hr, t, ht, documents, hdocuments, hvalues⟩

/-- Where `apply` halts without results, and with which failure. -/
inductive Halts (host : Host) (catalogue : Catalogue) (w : Workspace) (mapping inputs : Path) (o : Options) :
    Failure → Prop where
  | converters {failure : Failure} : buildRegistry catalogue o = .error failure →
      Halts host catalogue w mapping inputs o failure
  | mapping {r : Registry} {failure : Failure} : buildRegistry catalogue o = .ok r →
      compileFile host w r mapping = .error failure → Halts host catalogue w mapping inputs o failure
  | inputs {r : Registry} {t : Transformation} {failure : Failure} : buildRegistry catalogue o = .ok r →
      compileFile host w r mapping = .ok t → loadInputs host w inputs = .error failure →
      Halts host catalogue w mapping inputs o failure
  | evaluation {r : Registry} {t : Transformation} {documents : List Value} {data : Value} {fault : EvaluationFault} :
      buildRegistry catalogue o = .ok r → compileFile host w r mapping = .ok t →
      loadInputs host w inputs = .ok documents → data ∈ documents → t.evaluate host.depth r data = .error fault →
      Halts host catalogue w mapping inputs o (.escaped (.evaluation fault))

theorem halts_of_results (h : results host catalogue mapping inputs o w = .error failure) :
    Halts host catalogue w mapping inputs o failure := by
  unfold results at h
  rcases bind_eq_error_iff.mp h with h | ⟨r, hr, h⟩
  · exact .converters h
  rcases bind_eq_error_iff.mp h with h | ⟨t, ht, h⟩
  · exact .mapping hr h
  rcases bind_eq_error_iff.mp h with h | ⟨documents, hdocuments, h⟩
  · exact .inputs hr ht h
  · obtain ⟨data, hdata, fault, hfault, rfl⟩ := transformAll_eq_error h
    exact .evaluation hr ht hdocuments hdata hfault

theorem loadFailure_ne_output (p : Path) (fault : LoadFault) (cause : OutputFault) :
    loadFailure p fault ≠ .escaped (.output cause) := by
  unfold loadFailure
  split <;> simp

theorem compileFailure_ne_output (p : Path) (fault : CompileFault) (cause : OutputFault) :
    compileFailure p fault ≠ .escaped (.output cause) := by
  unfold compileFailure
  split <;> simp

/-- Nothing that halts before there are results is a fault of writing them. -/
theorem Halts.ne_output (h : Halts host catalogue w mapping inputs o failure) (cause : OutputFault) :
    failure ≠ .escaped (.output cause) := by
  cases h with
  | converters h =>
    obtain ⟨spec, -, why, rfl⟩ := buildRegistry_rejects h
    nofun
  | mapping _ h =>
    rcases compileFile_eq_error h with ⟨fault, -, rfl⟩ | ⟨document, fault, -, -, rfl⟩
    · exact loadFailure_ne_output _ _ _
    · exact compileFailure_ne_output _ _ _
  | inputs _ _ h =>
    obtain ⟨fault, -, rfl⟩ := loadInputs_eq_error h
    exact loadFailure_ne_output _ _ _
  | evaluation => nofun

end Command

end Reshape
