/-
  Reshape.Proofs.PathForms: what a path leads to, as one formula.

  A path climbs by the `$parent`s that it starts with. The rest is cut at its `$root`s into pieces. The
  first piece is walked from the scope that was climbed to and every other one from the input document;
  each has to lead somewhere, and the last one says where. A `$parent` in the rest leads nowhere, and
  neither does climbing beyond the input document.
  - `Value.takes_iff`: one segment takes the entry under its text, or the item at the index that it
    writes.
  - `Cursor.reads_rest`, `Cursor.reads_nothing`: the rest of a path, without and with a `$parent`.
  - `Context.extract_iff`: the formula.
-/

import Reshape.Proofs.Numerals
import Reshape.Scope

namespace Reshape

/-! ## One segment -/

/-- The segment is no index of too many digits. -/
def IsShort (segment : String) : Prop :=
  segment.toList.all Char.isDigit = true → segment.toList.length ≤ digitLimit

instance (segment : String) : Decidable (IsShort segment) :=
  inferInstanceAs (Decidable (segment.toList.all Char.isDigit = true → segment.toList.length ≤ digitLimit))

/-- The segment is the index in decimal digits, maybe with noughts before them. -/
def Spells (segment : String) (i : Nat) : Prop :=
  ∃ noughts, segment.toList = List.replicate noughts '0' ++ Number.natText i

theorem spells_iff {segment : String} {i : Nat} : Spells segment i ↔
    segment.toList ≠ [] ∧ Number.Digits segment.toList ∧ Number.decimalValue segment.toList = i := by
  constructor
  · rintro ⟨noughts, hs⟩
    rw [hs]
    have hzeros := Number.digits_replicate noughts
    have hdigits := Number.digits_natText i
    refine ⟨by simp [Number.natText_ne_nil], Number.digits_append.mpr ⟨hzeros, hdigits⟩, ?_⟩
    rw [Number.decimalValue_append hzeros hdigits, Number.decimalValue_replicate, Number.decimalValue_natText]
    omega
  · rintro ⟨hne, hdigits, rfl⟩
    exact Number.exists_noughts hdigits hne

theorem Spells.unique {segment : String} {i j : Nat} (hi : Spells segment i) (hj : Spells segment j) : i = j :=
  (spells_iff.mp hi).2.2.symm.trans (spells_iff.mp hj).2.2

namespace Value

/-- `w` is the entry of a dictionary under this text, or the item of a sequence at the index that the
text writes. -/
inductive Takes (v : Value) (segment : String) (w : Value) : Prop where
  | entry {entries : List (Key × Value)} : v.contents = .dict entries → entries.lookup (.str segment) = some w →
      Takes v segment w
  | item {form : Form} {items : List Value} {i : Nat} : v.contents = .seq form items → Spells segment i →
      items[i]? = some w → Takes v segment w

/-- Taking one part after another leads from the first value to the last. -/
inductive Walks : Value → List String → Value → Prop where
  | here {v : Value} : Walks v [] v
  | on {u v w : Value} {segment : String} {path : List String} : Takes v segment u → Walks u path w →
      Walks v (segment :: path) w

/-- A short segment writes an index or none. -/
theorem index?_of_isShort {segment : String} (h : IsShort segment) :
    (∃ i, index? segment = some (.ok i) ∧ Spells segment i) ∨
      index? segment = none ∧ ∀ i, ¬ Spells segment i := by
  unfold index?
  dsimp only
  by_cases hdigits : segment.toList ≠ [] ∧ segment.toList.all Char.isDigit
  · have hshort : ¬ digitLimit < segment.toList.length := Nat.not_lt.mpr (h hdigits.2)
    rw [if_pos hdigits, if_neg hshort]
    exact Or.inl ⟨_, rfl, spells_iff.mpr ⟨hdigits.1, List.all_eq_true.mp hdigits.2, rfl⟩⟩
  · rw [if_neg hdigits]
    refine Or.inr ⟨rfl, fun i hi => hdigits ?_⟩
    obtain ⟨hne, hall, -⟩ := spells_iff.mp hi
    exact ⟨hne, List.all_eq_true.mpr hall⟩

theorem takes_dict {v w : Value} {entries : List (Key × Value)} {segment : String} (hc : v.contents = .dict entries) :
    v.Takes segment w ↔ entries.lookup (.str segment) = some w := by
  constructor
  · intro h
    cases h with
    | entry hc' hw =>
      cases hc.symm.trans hc'
      exact hw
    | item hc' =>
      cases hc.symm.trans hc'
  · exact .entry hc

theorem takes_seq {v w : Value} {form : Form} {items : List Value} {segment : String}
    (hc : v.contents = .seq form items) : v.Takes segment w ↔ ∃ i, Spells segment i ∧ items[i]? = some w := by
  constructor
  · intro h
    cases h with
    | entry hc' =>
      cases hc.symm.trans hc'
    | item hc' hi hw =>
      cases hc.symm.trans hc'
      exact ⟨_, hi, hw⟩
  · rintro ⟨i, hi, hw⟩
    exact .item hc hi hw

/-- A short segment takes what it is said to take, and fails nowhere. -/
theorem takes_iff {segment : String} (h : IsShort segment) (v : Value) :
    ∃ found, v.part segment = .ok found ∧ ∀ w, found = some w ↔ v.Takes segment w := by
  unfold part
  split
  · rename_i entries hc
    exact ⟨_, rfl, fun w => (takes_dict hc).symm⟩
  · rename_i form items hc
    rcases index?_of_isShort h with ⟨i, hindex, hi⟩ | ⟨hindex, hno⟩
    · rw [hindex]
      refine ⟨_, rfl, fun w => ?_⟩
      rw [takes_seq hc]
      constructor
      · exact fun hw => ⟨i, hi, hw⟩
      · rintro ⟨j, hj, hw⟩
        rwa [hi.unique hj]
    · rw [hindex]
      refine ⟨none, rfl, fun w => ?_⟩
      rw [takes_seq hc]
      constructor
      · intro hw
        cases hw
      · rintro ⟨i, hi, -⟩
        exact absurd hi (hno i)
  · rename_i hdict hseq
    refine ⟨none, rfl, fun w => ?_⟩
    constructor
    · intro hw
      cases hw
    · intro hw
      cases hw with
      | entry hc => exact absurd hc (hdict _)
      | item hc => exact absurd hc (hseq _ _)

end Value

/-! ## Pieces -/

/-- Walking the first piece from `start` and every other one from `root`, each leads somewhere, and the
last one to `w`. -/
inductive Through (root : Value) : Value → List (List String) → Value → Prop where
  | last {start w : Value} {piece : List String} : start.Walks piece w → Through root start [piece] w
  | next {start u w : Value} {piece next : List String} {pieces : List (List String)} : start.Walks piece u →
      Through root root (next :: pieces) w → Through root start (piece :: next :: pieces) w

variable {root start w : Value} {piece next : List String} {pieces : List (List String)}

theorem through_empty : Through root start [[]] w ↔ start = w := by
  constructor
  · intro h
    cases h with
    | last h =>
      cases h
      rfl
  · rintro rfl
    exact .last .here

/-- An empty piece leads to where it starts. -/
theorem through_next : Through root start ([] :: next :: pieces) w ↔ Through root root (next :: pieces) w := by
  constructor
  · intro h
    cases h with
    | next _ h => exact h
  · exact .next .here

theorem through_on {segment : String} : Through root start ((segment :: piece) :: pieces) w ↔
    ∃ u, start.Takes segment u ∧ Through root u (piece :: pieces) w := by
  constructor
  · intro h
    cases h with
    | last h =>
      cases h with
      | on htake h => exact ⟨_, htake, .last h⟩
    | next h hrest =>
      cases h with
      | on htake h => exact ⟨_, htake, .next h hrest⟩
  · rintro ⟨u, htake, h⟩
    cases h with
    | last h => exact .last (.on htake h)
    | next h hrest => exact .next (.on htake h) hrest

/-! ## Paths -/

/-- Reading the path from a cursor fails nowhere, and leads to the values of which `P` holds. -/
def Cursor.Reads (root : Value) (cursor : Cursor) (path : List String) (P : Value → Prop) : Prop :=
  ∃ found, cursor.walk root path = .ok found ∧ ∀ w, found.map Cursor.value = some w ↔ P w

namespace Cursor

variable {cursor next : Cursor} {segment : String} {path : List String} {P : Value → Prop}

theorem Reads.congr {Q : Value → Prop} (h : cursor.Reads root path P) (hPQ : ∀ w, P w ↔ Q w) :
    cursor.Reads root path Q := by
  obtain ⟨found, hwalk, hfound⟩ := h
  exact ⟨found, hwalk, fun w => (hfound w).trans (hPQ w)⟩

/-- Where a segment leads nowhere the path does not either. -/
theorem reads_cons_of_none (hstep : cursor.step root segment = .ok none) (hP : ∀ w, ¬ P w) :
    cursor.Reads root (segment :: path) P := by
  refine ⟨none, by rw [walk, hstep], fun w => ?_⟩
  constructor
  · intro h
    cases h
  · exact fun h => absurd h (hP w)

theorem reads_cons (hstep : cursor.step root segment = .ok (some next)) (h : next.Reads root path P) :
    cursor.Reads root (segment :: path) P := by
  obtain ⟨found, hwalk, hfound⟩ := h
  exact ⟨found, by rw [walk, hstep]; exact hwalk, hfound⟩

theorem step_root : cursor.step root rootSegment = .ok (some (.context (Context.top root))) := by
  unfold step
  rw [if_pos rfl]

theorem step_parent : cursor.step root parentSegment = .ok cursor.up := by
  have hne : parentSegment ≠ rootSegment := by decide
  unfold step
  rw [if_neg hne, if_pos rfl]

/-- A short segment that is none of the two special ones takes a part, if there is one. -/
theorem step_part (root : Value) (cursor : Cursor) (hr : segment ≠ rootSegment) (hp : segment ≠ parentSegment)
    (hshort : IsShort segment) :
    (∃ u, cursor.step root segment = .ok (some (.data u)) ∧ ∀ w, cursor.value.Takes segment w ↔ u = w) ∨
      cursor.step root segment = .ok none ∧ ∀ w, ¬ cursor.value.Takes segment w := by
  obtain ⟨found, hpart, htakes⟩ := Value.takes_iff hshort cursor.value
  have hstep : cursor.step root segment = .ok (found.map .data) := by
    unfold step
    rw [if_neg hr, if_neg hp, hpart]
    rfl
  cases found with
  | none =>
    refine Or.inr ⟨hstep, fun w hw => ?_⟩
    have := (htakes w).mpr hw
    cases this
  | some u =>
    refine Or.inl ⟨u, hstep, fun w => ?_⟩
    rw [← htakes w, Option.some.injEq]

/-- Without a `$parent` a path is read piece by piece. The induction is on the path: each segment ends a
piece or is the first of one. -/
theorem reads_rest (hshort : ∀ s ∈ path, IsShort s) (hparent : parentSegment ∉ path) (cursor : Cursor) :
    cursor.Reads root path (Through root cursor.value (path.splitOn rootSegment)) := by
  induction path generalizing cursor with
  | nil =>
    refine ⟨some cursor, by rw [walk], fun w => ?_⟩
    rw [List.splitOn_nil, through_empty, Option.map_some, Option.some.injEq]
  | cons segment path ih =>
    obtain ⟨hsegment, hpath⟩ := List.forall_mem_cons.mp hshort
    rw [List.mem_cons, not_or] at hparent
    obtain ⟨piece, pieces, hsplit⟩ := List.exists_cons_of_ne_nil (List.splitOn_ne_nil rootSegment path)
    have hrest : ∀ cursor : Cursor, cursor.Reads root path (Through root cursor.value (piece :: pieces)) :=
      fun cursor => hsplit ▸ ih hpath hparent.2 cursor
    rw [List.splitOn_cons_eq_if_modifyHead, hsplit]
    by_cases hr : segment = rootSegment
    · subst hr
      rw [beq_self_eq_true, if_pos rfl]
      exact (reads_cons step_root (hrest _)).congr fun w => through_next.symm
    · have hbeq : (segment == rootSegment) = false := by simpa using hr
      rw [hbeq, if_neg Bool.false_ne_true, List.modifyHead_cons]
      rcases step_part root cursor hr (Ne.symm hparent.1) hsegment with
        ⟨u, hstep, htakes⟩ | ⟨hstep, hno⟩
      · refine (reads_cons hstep (hrest _)).congr fun w => ?_
        simp only [through_on, htakes, exists_eq_left']
        rfl
      · refine reads_cons_of_none hstep fun w hw => ?_
        obtain ⟨u, hu, -⟩ := through_on.mp hw
        exact hno u hu

/-- A segment other than `$parent` leaves nothing to climb to. -/
theorem reads_nothing_beyond (hp : segment ≠ parentSegment) (hsegment : IsShort segment)
    (h : ∀ next : Cursor, next.up = none → next.Reads root path fun _ => False) (cursor : Cursor) :
    cursor.Reads root (segment :: path) fun _ => False := by
  by_cases hr : segment = rootSegment
  · subst hr
    exact reads_cons step_root (h _ rfl)
  · rcases step_part root cursor hr hp hsegment with ⟨u, hstep, -⟩ | ⟨hstep, -⟩
    · exact reads_cons hstep (h _ rfl)
    · exact reads_cons_of_none hstep fun _ => id

/-- Where there is nothing to climb to, a path with a `$parent` leads nowhere. -/
theorem reads_nothing (hshort : ∀ s ∈ path, IsShort s) (hparent : parentSegment ∈ path) (hup : cursor.up = none) :
    cursor.Reads root path fun _ => False := by
  induction path generalizing cursor with
  | nil => cases hparent
  | cons segment path ih =>
    obtain ⟨hsegment, hpath⟩ := List.forall_mem_cons.mp hshort
    by_cases hp : segment = parentSegment
    · subst hp
      exact reads_cons_of_none (by rw [step_parent, hup]) fun _ => id
    · have hin : parentSegment ∈ path := (List.mem_cons.mp hparent).resolve_left (Ne.symm hp)
      exact reads_nothing_beyond hp hsegment (fun _ => ih hpath hin) cursor

/-- Nor does a path that has a `$parent`, but does not start with one. -/
theorem reads_nothing_of_head (hshort : ∀ s ∈ path, IsShort s) (hparent : parentSegment ∈ path)
    (hhead : path.head? ≠ some parentSegment) (cursor : Cursor) : cursor.Reads root path fun _ => False := by
  cases path with
  | nil => cases hparent
  | cons segment path =>
    have hp : segment ≠ parentSegment := fun h => hhead (congrArg some h)
    obtain ⟨hsegment, hpath⟩ := List.forall_mem_cons.mp hshort
    have hin : parentSegment ∈ path := (List.mem_cons.mp hparent).resolve_left (Ne.symm hp)
    exact reads_nothing_beyond hp hsegment (fun _ => reads_nothing hpath hin) cursor

end Cursor

/-! ## Contexts -/

/-- How many `$parent`s a path starts with. -/
def climbsOf (path : List String) : Nat := (path.takeWhile (· = parentSegment)).length

/-- A path without the `$parent`s that it starts with. -/
def restOf (path : List String) : List String := path.dropWhile (· = parentSegment)

namespace Context

/-- Some scope is as many steps up as the path climbs, the rest of the path climbs no more, and its
pieces lead from that scope and the input document to `w`. -/
def LeadsTo (c : Context) (path : List String) (w : Value) : Prop :=
  ∃ start, c.scopes[climbsOf path]? = some start ∧ parentSegment ∉ restOf path ∧
    Through c.root start ((restOf path).splitOn rootSegment) w

/-- Climbing takes one scope after another. The root stays where it is. -/
theorem reads_climbing {path : List String} (hshort : ∀ s ∈ path, IsShort s) (root : Value) (c : Context) :
    (Cursor.context c).Reads root path fun w => ∃ start, c.scopes[climbsOf path]? = some start ∧
      parentSegment ∉ restOf path ∧ Through root start ((restOf path).splitOn rootSegment) w := by
  induction path generalizing c with
  | nil =>
    have hrest : (Cursor.context c).Reads root [] _ := Cursor.reads_rest (by simp) (by simp) (.context c)
    refine hrest.congr fun w => ?_
    simp [climbsOf, restOf, scopes, Cursor.value]
  | cons segment path ih =>
    by_cases hp : segment = parentSegment
    · subst hp
      obtain ⟨-, hpath⟩ := List.forall_mem_cons.mp hshort
      have hclimbs : climbsOf (parentSegment :: path) = climbsOf path + 1 := by simp [climbsOf]
      have hrest : restOf (parentSegment :: path) = restOf path := by simp [restOf]
      rw [hclimbs, hrest]
      obtain ⟨scope, enclosing⟩ := c
      cases enclosing with
      | nil =>
        refine Cursor.reads_cons_of_none Cursor.step_parent fun w hw => ?_
        obtain ⟨start, hstart, -⟩ := hw
        cases hstart
      | cons outer enclosing => exact Cursor.reads_cons Cursor.step_parent (ih hpath ⟨outer, enclosing⟩)
    · have hclimbs : climbsOf (segment :: path) = 0 := by simp [climbsOf, hp]
      have hrest : restOf (segment :: path) = segment :: path := by simp [restOf, hp]
      rw [hclimbs, hrest]
      have hscope : c.scopes[0]? = some c.scope := rfl
      by_cases hparent : parentSegment ∈ segment :: path
      · have hhead : (segment :: path).head? ≠ some parentSegment := fun h => hp (Option.some.inj h)
        refine (Cursor.reads_nothing_of_head hshort hparent hhead _).congr fun w => ?_
        simp [hparent]
      · refine (Cursor.reads_rest hshort hparent (.context c)).congr fun w => ?_
        simp only [hscope, Option.some.injEq, exists_eq_left', hparent, not_false_eq_true, true_and]
        rfl

/-- The formula. Of a path without a segment of too many digits reading it fails nowhere, and it leads
exactly to where the formula says. -/
theorem extract_iff {path : List String} (hshort : ∀ s ∈ path, IsShort s) (c : Context) :
    ∃ found, c.extract path = .ok found ∧ ∀ w, found = some w ↔ c.LeadsTo path w := by
  obtain ⟨found, hwalk, hfound⟩ := reads_climbing hshort c.root c
  refine ⟨found.map Cursor.value, ?_, hfound⟩
  unfold extract
  rw [hwalk]
  rfl

/-- Two levels below an input document with rows. -/
def rowContext : Context :=
  ((Context.top (.dict [(.str "rows", .list [.null, .tuple [.str "a", .str "b"]])])).enter .null).enter (.int 3)

/-- Up to a scope that is null, over to the input document, and into it by an index with noughts. -/
theorem a_row_is_reached : (∀ s ∈ ["$parent", "$root", "rows", "001", "0"], IsShort s) ∧
    rowContext.extract ["$parent", "$root", "rows", "001", "0"] = .ok (some (.str "a")) ∧
    rowContext.LeadsTo ["$parent", "$root", "rows", "001", "0"] (.str "a") := by
  have hshort : ∀ s ∈ ["$parent", "$root", "rows", "001", "0"], IsShort s := by decide
  have hextract : rowContext.extract ["$parent", "$root", "rows", "001", "0"] = .ok (some (.str "a")) := by rfl
  obtain ⟨found, hfound, hleads⟩ := extract_iff hshort rowContext
  cases hextract.symm.trans hfound
  exact ⟨hshort, hextract, (hleads _).mp rfl⟩

end Context

end Reshape
