/-
  Reshape.Proofs.Provenance: where the values come from that an evaluation works on.

  An evaluation starts in the context of its input and opens others on the way, each inside the one from
  where a nested mapping is entered. Whatever the trees are and whatever the converters give, it reads
  from the input only: what a mapping or a converter makes goes into the result and is never read.
  - `Transformation.Opens`: the contexts in which trees are evaluated.
  - `Transformation.Causes`: what can happen in them, each event because of a rule there.
  - `Opens.grounded`: in every one of them all scopes are parts of the input, the outermost is the input.
  - `Cursor.Grounded.walk`: so is all that a path passes on its way.
  - `causes_enterNested`: nothing else happens in a run, to any depth.
  - `only_input_is_read`: contexts, paths and arguments of converters together.
-/

import Reshape.Proofs.Runs

namespace Reshape

/-! ## Contexts of an input -/

namespace Context

/-- All scopes are parts of the data, and the outermost one is the data. -/
structure Grounded (data : Value) (c : Context) : Prop where
  within : c.Within data
  outermost : c.scopes.getLast? = some data

variable {data v : Value} {c : Context}

theorem root_eq_of_outermost (h : c.scopes.getLast? = some data) : c.root = data := by
  unfold scopes at h
  rw [List.getLast?_cons] at h
  unfold root
  rw [List.getLastD_eq_getLast?]
  exact Option.some.inj h

theorem grounded_top (data : Value) : (top data).Grounded data := ⟨within_top data, rfl⟩

theorem Grounded.enter (h : c.Grounded data) (hv : v.IsPart data) : (c.enter v).Grounded data := by
  refine ⟨h.within.enter hv, ?_⟩
  rw [← h.outermost]
  exact List.getLast?_cons_cons

end Context

namespace Cursor

/-- A context of the data, or a part of the data. -/
def Grounded (data : Value) : Cursor → Prop
  | .context c => c.Grounded data
  | .data v => v.IsPart data

variable {data : Value} {cursor cursor' : Cursor}

theorem Grounded.within (h : cursor.Grounded data) : cursor.Within data := by
  cases cursor with
  | context c => exact Context.Grounded.within h
  | data v => exact h

theorem Grounded.up (h : cursor.Grounded data) (hup : cursor.up = some cursor') : cursor'.Grounded data := by
  have hwithin := h.within.up hup
  unfold Cursor.up at hup
  split at hup
  · rename_i scope outer enclosing
    cases hup
    refine ⟨hwithin, ?_⟩
    rw [← Context.Grounded.outermost h]
    exact List.getLast?_cons_cons.symm
  · cases hup

theorem Grounded.step {segment : String} (h : cursor.Grounded data)
    (hstep : cursor.step data segment = .ok (some cursor')) : cursor'.Grounded data := by
  rcases step_cases hstep with rfl | hup | ⟨w, rfl, hw⟩
  · exact Context.grounded_top data
  · exact h.up hup
  · exact h.within.value.tail hw

/-- Reading a path from a context of the data stays in the data. -/
theorem Grounded.walk {path : List String} (h : cursor.Grounded data)
    (hwalk : cursor.walk data path = .ok (some cursor')) : cursor'.Grounded data :=
  walk_keeps (fun h hstep => h.step hstep) h hwalk

end Cursor

/-- A context that is entered is one of the data, and an argument is a part of the data. -/
def Event.Grounded (data : Value) : Event → Prop
  | .entered _ c => c.Grounded data
  | .called _ argument => argument.IsPart data
  | .missing _ argument => argument.IsPart data

namespace Transformation

/-! ## Where trees are evaluated -/

/-- The tree can come to be evaluated in the context: it is that of the properties, in the context of the
data, or that of a nested mapping that a rule enters with a value. -/
inductive Opens (t : Transformation) (data : Value) : Context → Tree → Prop where
  | properties : Opens t data (Context.top data) t.properties
  | nested {c : Context} {u u' : Tree} {r : Rule} {w : Value} : Opens t data c u → r ∈ u.rules → r.isNested = true →
      r.Yields c w → t.nested.lookup r.target = some u' → Opens t data (c.enter w) u'

/-- The event can come of a rule in a place where its tree is evaluated, with a value that the rule takes
there from the context. -/
inductive Causes (t : Transformation) (data : Value) : Event → Prop where
  | entered {c : Context} {u u' : Tree} {r : Rule} {w : Value} : t.Opens data c u → r ∈ u.rules → r.isNested = true →
      r.Yields c w → t.nested.lookup r.target = some u' → Causes t data (.entered r.target (c.enter w))
  | called {c : Context} {u : Tree} {r : Rule} {w : Value} : t.Opens data c u → r ∈ u.rules → r.Yields c w →
      Causes t data (.called r.target w)
  | missing {c : Context} {u : Tree} {r : Rule} {w : Value} : t.Opens data c u → r ∈ u.rules → r.Yields c w →
      Causes t data (.missing r.target w)

variable {t : Transformation} {registry : Registry} {data : Value} {c : Context} {u : Tree}

theorem Opens.grounded (h : t.Opens data c u) : c.Grounded data := by
  induction h with
  | properties => exact Context.grounded_top data
  | nested _ _ _ hw _ ih => exact ih.enter (hw.isPart ih.within)

theorem Causes.grounded {event : Event} (h : t.Causes data event) : event.Grounded data := by
  cases h with
  | entered hopens _ _ hw _ => exact hopens.grounded.enter (hw.isPart hopens.grounded.within)
  | called hopens _ hw => exact hw.isPart hopens.grounded.within
  | missing hopens _ hw => exact hw.isPart hopens.grounded.within

/-! ## What happens in a run -/

/-- All that happened has a cause. -/
def Caused (t : Transformation) (data : Value) (events : List Event) (_ : Option EvaluationFault) : Prop :=
  ∀ event ∈ events, t.Causes data event

theorem composes_caused : Composes (t.Caused data) :=
  ⟨nofun, fun h h' => List.forall_mem_append.mpr ⟨h, h'⟩⟩

section
variable {enter : String → Context → Run Value} {r : Rule} {w : Value}

theorem causes_resolve (hopens : t.Opens data c u) (hr : r ∈ u.rules) (hw : r.Yields c w)
    (henter : r.isNested = true → (enter r.target (c.enter w)).Satisfies (t.Caused data)) :
    (resolve registry enter c r.target w).Satisfies (t.Caused data) := by
  unfold resolve
  split
  · rename_i hn
    exact henter hn
  · split
    · exact List.forall_mem_singleton.mpr (.missing hopens hr hw)
    · exact List.forall_mem_singleton.mpr (.called hopens hr hw)

theorem causes_evaluate (hopens : t.Opens data c u)
    (henter : ∀ r ∈ u.rules, r.isNested = true → ∀ w, r.Yields c w →
      (enter r.target (c.enter w)).Satisfies (t.Caused data)) :
    (u.evaluate registry enter c).Satisfies (t.Caused data) := by
  have hR : Sequential fun _ r _ => r.Satisfies (t.Caused data) := composes_caused.sequential
  refine hR.evaluate registry registry enter enter fun r hr => ?_
  refine hR.evaluateRule registry registry enter enter (fun _ _ => nofun) fun w hw => ?_
  exact causes_resolve hopens hr hw fun hn => henter r hr hn w hw

/-- One entry after another: the depth that is left is what the induction is on. -/
theorem causes_enterNested (depth : Nat) (hopens : t.Opens data c u) (hr : r ∈ u.rules) (hn : r.isNested = true)
    (hw : r.Yields c w) :
    (enterNested registry t.nested depth r.target (c.enter w)).Satisfies (t.Caused data) := by
  induction depth generalizing c u r w with
  | zero =>
    rw [enterNested]
    split <;> exact List.forall_mem_nil _
  | succ depth ih =>
    rw [enterNested]
    split
    · exact List.forall_mem_nil _
    · rename_i u' hl
      have hopens' : t.Opens data (c.enter w) u' := .nested hopens hr hn hw hl
      exact List.forall_mem_cons.mpr ⟨.entered hopens hr hn hw hl,
        causes_evaluate hopens' fun _ hr' hn' _ hw' => ih hopens' hr' hn' hw'⟩

end

/-- Whatever the converters give, all that a run reads is in its input. Every event comes of a rule in a
context that was opened; in each of these contexts all scopes are parts of the input, the outermost scope and
the root are the input, and reading a path passes parts of the input and contexts of this kind only. So every
argument of a converter is a part of the input. -/
theorem only_input_is_read (t : Transformation) (registry : Registry) (data : Value) :
    (∀ depth, ∀ event ∈ (t.runWithin depth registry data).events, t.Causes data event ∧ event.Grounded data) ∧
    ∀ c u, t.Opens data c u → c.Grounded data ∧ c.root = data ∧
      ∀ r ∈ u.rules, ∀ path, path <+: r.path → ∀ cursor,
        Cursor.walk c.root (.context c) path = .ok (some cursor) → cursor.Grounded data := by
  constructor
  · intro depth
    have hrun : (t.runWithin depth registry data).Satisfies (t.Caused data) :=
      causes_evaluate .properties fun r hr hn w hw => causes_enterNested depth .properties hr hn hw
    exact fun event hevent => ⟨hrun event hevent, (hrun event hevent).grounded⟩
  · intro c u hopens
    have hgrounded : (Cursor.context c).Grounded data := hopens.grounded
    have hroot := Context.root_eq_of_outermost hopens.grounded.outermost
    refine ⟨hgrounded, hroot, fun r _ path _ cursor hwalk => ?_⟩
    rw [hroot] at hwalk
    exact hgrounded.walk hwalk

/-- Gives the same mark for everything. -/
def marking : Registry := ⟨[("mark", fun _ => .ok (.str "marked"))]⟩

/-- Marks what a nested mapping finds around it and in the input document, and what the input document has under
the name of the first result. -/
def shelves : Transformation :=
  ⟨.dict [("a", .leaf ⟨["xs"], "$s", true⟩), ("b", .leaf ⟨["a"], "mark", false⟩)],
    [("$s", .list [.leaf ⟨["$parent", "k"], "mark", false⟩, .leaf ⟨["$root", "xs"], "mark", true⟩])]⟩

def shelvesData : Value := .dict [(.str "xs", .list [.list [], .null]), (.str "k", .int 5)]

/-- A part of the scope around a nested mapping is marked; no mark is ever marked again. -/
theorem no_mark_is_marked : .called "mark" (.int 5) ∈ (shelves.runWithin 1 marking shelvesData).events ∧
    (Value.int 5).IsPart shelvesData ∧
    ∀ depth name, .called name (.str "marked") ∉ (shelves.runWithin depth marking shelvesData).events := by
  have hread := (only_input_is_read shelves marking shelvesData).1
  have hparts : ∀ w, w.IsPart shelvesData → w ∈ [shelvesData, .list [.list [], .null], .list [], .null, .int 5] := by
    intro w hw
    induction hw with
    | refl => exact List.mem_cons_self ..
    | tail _ hstep ih =>
      simp only [List.mem_cons, List.not_mem_nil, or_false] at ih
      rcases ih with rfl | rfl | rfl | rfl | rfl <;> rcases hstep with ⟨form, items, hc, hw⟩ | ⟨entries, k, hc, hw⟩ <;>
        cases hc <;> grind
  have hsecond : (shelves.runWithin 1 marking shelvesData).events[1]? = some (.called "mark" (.int 5)) := rfl
  have hevent := List.mem_of_getElem? hsecond
  refine ⟨hevent, (hread 1 _ hevent).2, fun depth name hmark => ?_⟩
  have hmem := hparts _ (hread depth _ hmark).2
  simp [shelvesData] at hmem

end Transformation

end Reshape
