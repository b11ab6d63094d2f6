/-
  Reshape.Proofs.Faults: what the evaluation of a compiled transformation can fail with.

  A compiled transformation never misses a nested mapping, whatever registry it is evaluated with and
  whatever the data are. Only two things end a run with a fault: a converter that is registered and
  refuses its argument, and a segment of too many digits where a sequence is.
  - `raised_invariant`: nested mappings are entered only where they are defined, and in contexts whose
    scopes are parts of the data.
  - `raised_of_ends`: the fault of a run that ends is one of the two.
-/

import Reshape.Converter.Builtin
import Reshape.Proofs.Acceptance
import Reshape.Proofs.Runs

namespace Reshape

namespace Transformation

def HasRule (t : Transformation) (r : Rule) : Prop :=
  r ∈ t.properties.rules ∨ ∃ n u, t.nested.lookup n = some u ∧ r ∈ u.rules

/-- Where a fault comes from, after these events. -/
inductive Raised (t : Transformation) (registry : Registry) (data : Value) (events : List Event) :
    EvaluationFault → Prop where
  /-- The last thing that happened was the call of a converter, and it refused its argument. -/
  | conversion {name : String} {f : Converter} {argument : Value} {cause : ConversionFault} :
      registry.find? name = some f → f argument = .error cause →
      events.getLast? = some (.called name argument) → Raised t registry data events (.conversion cause)
  /-- A rule was to take the part of a sequence under a segment of too many digits. -/
  | index {r : Rule} {segment : String} {v : Value} {digits : Nat} : t.HasRule r → segment ∈ r.path →
      v.IsPart data → v.RefusesIndex segment ⟨digits⟩ → Raised t registry data events (.indexTooLong digits)

variable {t : Transformation} {registry : Registry} {data : Value}

theorem Raised.append {events events' : List Event} {fault : EvaluationFault}
    (h : t.Raised registry data events' fault) : t.Raised registry data (events ++ events') fault := by
  cases h with
  | conversion hf hcause hlast => exact .conversion hf hcause (by rw [List.getLast?_append, hlast]; rfl)
  | index hr hsegment hv hrefuses => exact .index hr hsegment hv hrefuses

/-- A fault, if there is one and it is not the limit of the depth, has been raised. -/
def Accounted (t : Transformation) (registry : Registry) (data : Value) (events : List Event)
    (fault? : Option EvaluationFault) : Prop :=
  ∀ fault, fault? = some fault → fault ≠ .tooDeep → t.Raised registry data events fault

/-- The nested mapping is defined, and the scopes are parts of the data. -/
def Defined (t : Transformation) (data : Value) (_ : Nat) (name : String) (c : Context) : Prop :=
  (∃ u, t.nested.lookup name = some u) ∧ c.Within data

theorem composes_accounted : Composes (t.Accounted registry data) := by
  refine ⟨nofun, ?_⟩
  intro events events' fault? _ h fault hfault hdeep
  exact (h fault hfault hdeep).append

theorem fits_accounted {depth : Nat} {c : Context} {r : Rule} (hc : c.Within data) (hr : t.HasRule r)
    (hdefined : r.isNested = true → ∃ u, t.nested.lookup r.target = some u) :
    r.Fits (t.Defined data) (t.Accounted registry data) depth c := by
  refine ⟨fun fault hfault => ?_, fun hn w hw => ⟨hdefined hn, hc.enter (hw.isPart hc)⟩⟩
  obtain ⟨segment, hsegment, v, hv, hrefuses⟩ := hc.extract_error hfault
  intro fault' heq _
  cases heq
  exact .index hr hsegment hv hrefuses

theorem raised_invariant (h : t.Linked) :
    Invariant registry t.nested (t.Defined data) (t.Accounted registry data) where
  composes := composes_accounted
  called := nofun
  refused := by
    intro name f v cause hf hcause fault heq _
    cases heq
    exact .conversion hf hcause rfl
  missing := nofun
  entered := nofun
  defined := fun _ _ _ hJ => hJ.1
  tooDeep := by
    intro name c _ fault heq hdeep
    cases heq
    exact absurd rfl hdeep
  rules := fun _ name _ u hJ hl r hr =>
    fits_accounted hJ.2 (Or.inr ⟨name, u, hl, hr⟩) (h.nested name u hl r hr).2

/-- A compiled transformation that ends with a fault has had it raised: by a converter that is
registered at the evaluation, or by an index of too many digits. -/
theorem raised_of_ends {known : String → Bool} {document : Value} {run : Run Value} {fault : EvaluationFault}
    (hc : compile known document = .ok t) (hends : t.Ends registry data run)
    (hfault : run.outcome = .error fault) : t.Raised registry data run.events fault := by
  obtain ⟨depth, rfl, hdeep⟩ := hends
  have hlinked := linked_of_compile hc
  have hrun : (t.runWithin depth registry data).Satisfies (t.Accounted registry data) := by
    refine (raised_invariant hlinked).runWithin fun r hr => ?_
    exact fits_accounted (Context.within_top data) (Or.inl hr) (hlinked.properties r hr).2
  refine hrun fault ?_ fun heq => hdeep (heq ▸ hfault)
  rw [Run.fault?, hfault]

/-- Makes an integer of what stands under `n`. -/
def numbering : Transformation := ⟨.leaf ⟨["n"], "int", false⟩, []⟩

def integers : Registry := ⟨[("int", Builtin.asInteger)]⟩

def refusal : Run Value := ⟨[.called "int" (.str "x")], .error (.conversion (.integerText "x"))⟩

theorem a_refusal_is_raised : compile integers.has (.dict [(.str "properties", .str "n:int")]) = .ok numbering ∧
    numbering.Ends integers (.dict [(.str "n", .str "x")]) refusal ∧
    numbering.Raised integers (.dict [(.str "n", .str "x")]) refusal.events (.conversion (.integerText "x")) := by
  have hcompile : compile integers.has (.dict [(.str "properties", .str "n:int")]) = .ok numbering :=
    link_of_flat numbering rfl
  have hends : numbering.Ends integers (.dict [(.str "n", .str "x")]) refusal := by
    refine ⟨0, by rfl, ?_⟩
    intro h
    cases h
  exact ⟨hcompile, hends, raised_of_ends hcompile hends rfl⟩

end Transformation

end Reshape
