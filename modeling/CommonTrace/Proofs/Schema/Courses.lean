import CommonTrace.Proofs.Schema.Records
import CommonTrace.Proofs.Schema.Requests
import CommonTrace.Proofs.Schema.Termination

/-!
# The course of a procedure

A procedure that makes requests does little between them: it may open a scope, make a type known, and note
something.  No entry is marked or finished but by the requests themselves.  A `Course` tells of a run of a
procedure which requests were made from which tables, what came of each, and that nothing else happened to the
marks in between.

To relate a course to the requests that a procedure makes, two runs of the procedure are compared, in which
some requests are stopped (`Comparison.hearing`).  They agree up to the first request that is stopped in one of
them, so both follow the same course.  What is needed of types and their parts for that has been said when the
nesting of the steps was bounded (`TypeM.Reached`, `TypeM.Entered`).

For a procedure that takes such a course and that has a dialogue (`Regular`), all is known about its requests
that does not depend on what it builds: from which tables they start, in which order they come, that one of
them fails if the procedure fails because of a chain of references, and that one of them builds what the
procedure builds.
-/

namespace CommonTrace

open Tsdl TypeM

/-! ## What requests do to a table -/

namespace TypeTable

variable {table table' table'' : TypeTable} {scope parent : TypeScopeId} {name : String}

/-- **What a request does to a table.**  Scopes may be added and types become known; when the request has been
answered, no entries are marked but those that were marked before. -/
structure Advances (table table' : TypeTable) : Prop where
  within : table.Within table'
  grows : table.Grows 0 table'
  unmarked : ∀ scope, table.scopes.size ≤ scope → ∀ name, table'.lookup? scope name ≠ some .inProgress

/-- What happens to a table between requests: no entry that was there is built. -/
structure Quiet (table table' : TypeTable) : Prop extends table.Advances table' where
  pending : ∀ scope name source, table.lookup? scope name = some (.pending source) →
    table'.lookup? scope name = some (.pending source)

namespace Advances

lemma refl (table : TypeTable) : table.Advances table where
  within := .refl table
  grows := .refl 0 table
  unmarked scope hscope name := by
    rw [lookup?_eq_none table scope name hscope]
    nofun

lemma trans (h : table.Advances table') (h' : table'.Advances table'') : table.Advances table'' where
  within := h.within.trans h'.within
  grows := h.grows.trans h'.grows
  unmarked scope hscope name hlookup := by
    by_cases hnew : table'.scopes.size ≤ scope
    · exact h'.unmarked scope hnew name hlookup
    · have hevolves := h'.grows.evolves scope (Nat.not_le.mp hnew) name
      rw [hlookup] at hevolves
      generalize hbefore : table'.lookup? scope name = before at hevolves
      cases hevolves
      exact h.unmarked scope hscope name hbefore

/-- The same entries are marked. -/
lemma inProgress_iff (h : table.Advances table') :
    table'.lookup? scope name = some .inProgress ↔ table.lookup? scope name = some .inProgress := by
  by_cases hscope : scope < table.scopes.size
  · have hevolves := h.grows.evolves scope hscope name
    generalize table.lookup? scope name = before, table'.lookup? scope name = after at hevolves
    cases hevolves with
    | same => rfl
    | brought t => exact ⟨nofun, nofun⟩
    | built source t => exact ⟨nofun, nofun⟩
  · have hle := Nat.not_lt.mp hscope
    rw [lookup?_eq_none table scope name hle]
    exact ⟨fun hlookup => absurd hlookup (h.unmarked scope hle name), nofun⟩

/-- What is known stays known. -/
lemma built (h : table.Advances table') {t : FieldType}
    (hlookup : table.lookup? scope name = some (.built t)) :
    table'.lookup? scope name = some (.built t) := by
  have hevolves := h.grows.evolves scope (lt_size_of_lookup? hlookup) name
  rw [hlookup] at hevolves
  exact hevolves.eq_of_built

/-- The type of a name has been built while its entry was marked. -/
lemma of_marked (hordered : table.Ordered) (hordered' : table'.Ordered) {source : TypeSource}
    (hlookup : table.lookup? scope name = some (.pending source)) (t : FieldType)
    (h : (table.setEntry scope name .inProgress).Advances table') :
    table.Advances (table'.setEntry scope name (.built t)) where
  within := ((Within.setEntry hordered scope name rfl).trans h.within).trans
    (.setEntry hordered' scope name rfl)
  grows := .of_marked (.inr (Nat.zero_le scope)) hlookup h.grows
  unmarked scope' hscope' name' := by
    rw [lookup?_setEntry]
    split
    · nofun
    · exact h.unmarked scope' (by rwa [size_setEntry]) name'

end Advances

namespace Quiet

lemma refl (table : TypeTable) : table.Quiet table :=
  ⟨.refl table, fun _ _ _ h => h⟩

lemma trans (h : table.Quiet table') (h' : table'.Quiet table'') : table.Quiet table'' :=
  ⟨h.toAdvances.trans h'.toAdvances, fun scope name source hlookup =>
    h'.pending scope name source (h.pending scope name source hlookup)⟩

lemma note (table : TypeTable) (notes : Notes) : table.Quiet (table.note notes) where
  within := .note table notes
  grows := .note 0 table notes
  unmarked := (Advances.refl table).unmarked
  pending _ _ _ h := h

/-- A type becomes known under a name that nothing else is known under. -/
lemma known (hordered : table.Ordered) (t : FieldType) (hlookup : table.lookup? scope name = none) :
    table.Quiet (table.setEntry scope name (.built t)) where
  within := .setEntry hordered scope name rfl
  grows := .setEntry (.inr (Nat.zero_le scope)) (by rw [hlookup]; exact .brought t)
  unmarked scope' hscope' name' := by
    rw [lookup?_setEntry]
    split
    · nofun
    · exact (Advances.refl table).unmarked scope' hscope' name'
  pending scope' name' source hpending := by
    rw [lookup?_setEntry, if_neg]
    · exact hpending
    · rintro ⟨rfl, rfl, -⟩
      rw [hlookup] at hpending
      cases hpending

/-- Names are entered into a new scope. -/
lemma entered (parent : TypeScopeId) (entries : List (String × TypeSource)) :
    table.Quiet ((table.opened parent).entered table.scopes.size entries) where
  within := .entered parent entries
  grows := .entered (Nat.zero_le _) parent entries
  unmarked scope hscope name := by
    rcases lookup?_entered_cases (table.opened parent) table.scopes.size entries scope name with
      heq | ⟨entry, -, heq⟩
    · rw [heq, lookup?_opened]
      exact (Advances.refl table).unmarked scope hscope name
    · rw [heq]
      nofun
  pending scope name source hlookup := by
    rwa [lookup?_entered_of_ne _ _ _ (Nat.ne_of_lt (lt_size_of_lookup? hlookup)), lookup?_opened]

end Quiet

end TypeTable

/-! ## Courses -/

/-- **The course of a run**: the requests that are made, and that nothing but they builds anything or sets a
mark.  A run ends with a table or with an error; if this is due to a chain of references, the last request has
come to the same end. -/
inductive Course (fits : Frame → Prop) (answers : Answers) :
    TypeTable → List Frame → Except SchemaError TypeTable → Prop
  | done {start after : TypeTable} (h : start.Quiet after) : Course fits answers start [] (.ok after)
  | stopped (start : TypeTable) {e : SchemaError} (h : e.IsLocal) : Course fits answers start [] (.error e)
  | answered {start after : TypeTable} {frame : Frame} {t : FieldType} {frames : List Frame}
      {outcome : Except SchemaError TypeTable} (hquiet : start.Quiet frame.table) (hfits : fits frame)
      (hanswer : answers frame.request frame.table = .ok (t, after)) (hadvances : frame.table.Advances after)
      (hrest : Course fits answers after frames outcome) : Course fits answers start (frame :: frames) outcome
  | failed {start : TypeTable} {frame : Frame} {e : SchemaError} (hquiet : start.Quiet frame.table)
      (hfits : fits frame) (hanswer : answers frame.request frame.table = .error e) (he : e ≠ .chainTooLong) :
      Course fits answers start [frame] (.error e)

namespace Course

variable {fits : Frame → Prop} {answers : Answers} {start middle after : TypeTable}
  {frames frames' : List Frame} {frame frame' : Frame} {outcome : Except SchemaError TypeTable}
  {e : SchemaError} {scope : TypeScopeId} {name : String} {source : TypeSource}

lemma quiet (hquiet : start.Quiet middle) (h : Course fits answers middle frames outcome) :
    Course fits answers start frames outcome := by
  cases h with
  | done h => exact .done (hquiet.trans h)
  | stopped _ h => exact .stopped start h
  | answered hquiet' hfits hanswer hadvances hrest =>
    exact .answered (hquiet.trans hquiet') hfits hanswer hadvances hrest
  | failed hquiet' hfits hanswer he => exact .failed (hquiet.trans hquiet') hfits hanswer he

lemma append (h : Course fits answers start frames (.ok middle))
    (h' : Course fits answers middle frames' outcome) :
    Course fits answers start (frames ++ frames') outcome := by
  generalize hend : Except.ok middle = ending at h
  induction h with
  | done hquiet =>
    cases hend
    exact h'.quiet hquiet
  | stopped _ _ => cases hend
  | answered hquiet hfits hanswer hadvances _ ih => exact .answered hquiet hfits hanswer hadvances (ih hend)
  | failed _ _ _ _ => cases hend

lemma advances (h : Course fits answers start frames (.ok after)) : start.Advances after := by
  generalize hend : Except.ok after = ending at h
  induction h with
  | done hquiet =>
    cases hend
    exact hquiet.toAdvances
  | stopped _ _ => cases hend
  | answered hquiet _ _ hadvances _ ih => exact (hquiet.toAdvances.trans hadvances).trans (ih hend)
  | failed _ _ _ _ => cases hend

/-- No run ends because a chain is too long. -/
lemma ne_chainTooLong (h : Course fits answers start frames (.error e)) : e ≠ .chainTooLong := by
  generalize hend : Except.error e = ending at h
  induction h with
  | done _ => cases hend
  | stopped _ hlocal =>
    cases hend
    exact hlocal.ne_chainTooLong
  | answered _ _ _ _ _ ih => exact ih hend
  | failed _ _ _ he =>
    cases hend
    exact he

/-- What is known of the table of a request. -/
lemma of_mem (h : Course fits answers start frames outcome) (hmem : frame ∈ frames) :
    fits frame ∧ start.Advances frame.table := by
  induction h with
  | done _ => cases hmem
  | stopped _ _ => cases hmem
  | answered hquiet hfits _ hadvances _ ih =>
    rcases List.mem_cons.mp hmem with rfl | hmem
    · exact ⟨hfits, hquiet.toAdvances⟩
    · exact ⟨(ih hmem).1, (hquiet.toAdvances.trans hadvances).trans (ih hmem).2⟩
  | failed hquiet hfits _ _ =>
    cases List.mem_singleton.mp hmem
    exact ⟨hfits, hquiet.toAdvances⟩

/-- In a run that ends with a table, all requests are answered. -/
lemma exists_of_mem (h : Course fits answers start frames (.ok after)) (hmem : frame ∈ frames) :
    ∃ t table, answers frame.request frame.table = .ok (t, table) ∧ table.Advances after := by
  generalize hend : Except.ok after = ending at h
  induction h with
  | done _ => cases hmem
  | stopped _ _ => cases hend
  | answered _ _ hanswer _ hrest ih =>
    rcases List.mem_cons.mp hmem with rfl | hmem
    · subst hend
      exact ⟨_, _, hanswer, hrest.advances⟩
    · exact ih hmem hend
  | failed _ _ _ _ => cases hend

/-- Of two requests, one has been answered when the other is made. -/
lemma ordered (h : Course fits answers start frames outcome) (hmem : frame ∈ frames)
    (hmem' : frame' ∈ frames) (hne : frame ≠ frame') :
    (∃ t table, answers frame.request frame.table = .ok (t, table) ∧ table.Advances frame'.table) ∨
      ∃ t table, answers frame'.request frame'.table = .ok (t, table) ∧ table.Advances frame.table := by
  induction h with
  | done _ => cases hmem
  | stopped _ _ => cases hmem
  | answered _ _ hanswer _ hrest ih =>
    rcases List.mem_cons.mp hmem with rfl | hlater
    · rcases List.mem_cons.mp hmem' with rfl | hlater'
      · exact absurd rfl hne
      · exact .inl ⟨_, _, hanswer, (hrest.of_mem hlater').2⟩
    · rcases List.mem_cons.mp hmem' with rfl | hlater'
      · exact .inr ⟨_, _, hanswer, (hrest.of_mem hlater).2⟩
      · exact ih hlater hlater'
  | failed _ _ _ _ =>
    cases List.mem_singleton.mp hmem
    exact absurd (List.mem_singleton.mp hmem').symm hne

/-- A run that fails because of a chain of references has made a request that has failed so. -/
lemma exists_failed (h : Course fits answers start frames (.error e)) (he : ¬e.IsLocal) :
    ∃ frame ∈ frames, answers frame.request frame.table = .error e := by
  generalize hend : Except.error e = ending at h
  induction h with
  | done _ => cases hend
  | stopped _ hlocal =>
    cases hend
    exact absurd hlocal he
  | answered _ _ _ _ _ ih =>
    obtain ⟨frame, hmem, hfailed⟩ := ih hend
    exact ⟨frame, List.mem_cons_of_mem _ hmem, hfailed⟩
  | failed _ _ hanswer _ =>
    cases hend
    exact ⟨_, List.mem_singleton_self _, hanswer⟩

end Course

/-- A request that builds the type of a name: it finds the entry pending, and leaves it otherwise. -/
def Settling (answers : Answers) (scope : TypeScopeId) (name : String) (source : TypeSource) : Set Frame :=
  {frame | frame.table.lookup? scope name = some (.pending source) ∧
    ∀ t after, answers frame.request frame.table = .ok (t, after) →
      after.lookup? scope name ≠ some (.pending source)}

namespace Course

variable {fits : Frame → Prop} {answers : Answers} {start after : TypeTable} {frames : List Frame}
  {frame : Frame} {scope : TypeScopeId} {name : String} {source : TypeSource}

/-- What no request builds is left to be built. -/
lemma pending_of_start (h : Course fits answers start frames (.ok after))
    (hnone : ∀ frame ∈ frames, frame ∉ Settling answers scope name source)
    (hpending : start.lookup? scope name = some (.pending source)) :
    after.lookup? scope name = some (.pending source) := by
  generalize hend : Except.ok after = ending at h
  induction h with
  | done hquiet =>
    cases hend
    exact hquiet.pending scope name source hpending
  | stopped _ _ => cases hend
  | answered hquiet _ hanswer _ _ ih =>
    have hbefore := hquiet.pending scope name source hpending
    refine ih (fun frame hmem => hnone frame (List.mem_cons_of_mem _ hmem)) ?_ hend
    by_contra hbuilt
    refine hnone _ List.mem_cons_self ⟨hbefore, fun t table hanswer' => ?_⟩
    rw [hanswer] at hanswer'
    cases hanswer'
    exact hbuilt
  | failed _ _ _ _ => cases hend

/-- What is left to be built when a request is made, and what no request builds, is left to be built. -/
lemma pending_of_mem (h : Course fits answers start frames (.ok after))
    (hnone : ∀ frame ∈ frames, frame ∉ Settling answers scope name source) (hmem : frame ∈ frames)
    (hpending : frame.table.lookup? scope name = some (.pending source)) :
    after.lookup? scope name = some (.pending source) := by
  generalize hend : Except.ok after = ending at h
  induction h with
  | done _ => cases hmem
  | stopped _ _ => cases hend
  | answered _ hfits hanswer hadvances hrest ih =>
    have hnone' := fun frame hmem => hnone frame (List.mem_cons_of_mem _ hmem)
    rcases List.mem_cons.mp hmem with rfl | hmem
    · subst hend
      exact (Course.answered (.refl frame.table) hfits hanswer hadvances hrest).pending_of_start hnone hpending
    · exact ih hnone' hmem hend
  | failed _ _ _ _ => cases hend

end Course

/-! ## Two runs on one course -/

/-- What comes of a run in which some requests are stopped: an error if it makes one of them, and otherwise
what would have come of it anyway. -/
structure Cut {α : Type} (stops : Set Frame) (frames : List Frame)
    (outcome result : Except SchemaError (α × TypeTable)) : Prop where
  stopped : (∃ frame ∈ frames, frame ∈ stops) → result = .error .chainTooLong
  ran : (∀ frame ∈ frames, frame ∉ stops) → result = outcome

namespace Cut

variable {α β : Type} {stops : Set Frame} {frames frames' : List Frame}
  {outcome result : Except SchemaError (α × TypeTable)} {a : α} {table : TypeTable} {e : SchemaError}

lemma nil (stops : Set Frame) (outcome : Except SchemaError (α × TypeTable)) :
    Cut stops [] outcome outcome :=
  ⟨nofun, fun _ => rfl⟩

lemma cases (h : Cut stops frames outcome result) :
    (∃ frame ∈ frames, frame ∈ stops) ∧ result = .error .chainTooLong ∨
      (∀ frame ∈ frames, frame ∉ stops) ∧ result = outcome := by
  by_cases hstop : ∃ frame ∈ frames, frame ∈ stops
  · exact .inl ⟨hstop, h.stopped hstop⟩
  · have hnone : ∀ frame ∈ frames, frame ∉ stops := fun frame hmem hframe => hstop ⟨frame, hmem, hframe⟩
    exact .inr ⟨hnone, h.ran hnone⟩

/-- A run that has failed does not go on. -/
lemma bind_error (h : Cut stops frames (.error e) result)
    (next : α × TypeTable → Except SchemaError (β × TypeTable)) :
    Cut stops frames (.error e) (result >>= next) where
  stopped hstop := by
    rw [h.stopped hstop]
    rfl
  ran hnone := by
    rw [h.ran hnone]
    rfl

/-- A run goes on after a part of it. -/
lemma bind_ok (h : Cut stops frames (.ok (a, table)) result)
    {next : α × TypeTable → Except SchemaError (β × TypeTable)}
    {outcome' : Except SchemaError (β × TypeTable)} (h' : Cut stops frames' outcome' (next (a, table))) :
    Cut stops (frames ++ frames') outcome' (result >>= next) := by
  rcases h.cases with ⟨⟨frame, hmem, hframe⟩, rfl⟩ | ⟨hnone, rfl⟩
  · exact ⟨fun _ => rfl, fun hnone => absurd hframe (hnone frame (List.mem_append_left _ hmem))⟩
  · refine ⟨fun ⟨frame, hmem, hframe⟩ => h'.stopped ?_, fun hnone' => h'.ran fun frame hmem => ?_⟩
    · rcases List.mem_append.mp hmem with hmem | hmem
      · exact absurd hframe (hnone frame hmem)
      · exact ⟨frame, hmem, hframe⟩
    · exact hnone' frame (List.mem_append_right _ hmem)

end Cut

/-- Two runs that follow the same course, as far as they are not stopped. -/
inductive Runs {α : Type} (fits : Frame → Prop) (answers : Answers) (stops stops' : Set Frame)
    (start : TypeTable) (P : { table : TypeTable // table.Prepared } → α → α → Prop)
    (result result' : Except SchemaError (α × TypeTable)) : Prop
  | failed {frames : List Frame} {e : SchemaError} (hcourse : Course fits answers start frames (.error e))
      (hcut : Cut stops frames (.error e) result) (hcut' : Cut stops' frames (.error e) result')
  | done {frames : List Frame} {a b : α} {table : TypeTable} (hprepared : table.Prepared)
      (hcourse : Course fits answers start frames (.ok table)) (hP : P ⟨table, hprepared⟩ a b)
      (hcut : Cut stops frames (.ok (a, table)) result) (hcut' : Cut stops' frames (.ok (b, table)) result')

/-- **Two runs in which different requests are stopped.** -/
def Comparison.hearing (fits : Frame → Prop) (answers : Answers) (stops stops' : Set Frame) : Comparison where
  World := { table : TypeTable // table.Prepared }
  Later bound table := bound.1.Advances table.1
  Holds world x y P := Runs fits answers stops stops' world.1 P (x world.1) (y world.1)
  later_refl world := .refl world.1
  later_trans := .trans
  pure {_ world _ _ _} h := .done world.2 (.done (.refl world.1)) h (.nil _ _) (.nil _ _)
  throw {_ world _ _} h := .failed (.stopped world.1 h) (.nil _ _) (.nil _ _)
  bind {α β world x y P next next' Q} h hnext := by
    change Runs fits answers stops stops' world.1 Q (x world.1 >>= fun r => next r.1 r.2)
      (y world.1 >>= fun r => next' r.1 r.2)
    cases h with
    | failed hcourse hcut hcut' => exact .failed hcourse (hcut.bind_error _) (hcut'.bind_error _)
    | @done frames a b table hprepared hcourse hP hcut hcut' =>
      have hnext : Runs fits answers stops stops' table Q (next a table) (next' b table) :=
        hnext ⟨table, hprepared⟩ a b hcourse.advances hP
      cases hnext with
      | failed hrest hstop hstop' =>
        exact .failed (hcourse.append hrest) (hcut.bind_ok hstop) (hcut'.bind_ok hstop')
      | done hprepared' hrest hQ hstop hstop' =>
        exact .done hprepared' (hcourse.append hrest) hQ (hcut.bind_ok hstop) (hcut'.bind_ok hstop')
  nameless {α world step} h := by
    obtain ⟨outcome, hlocal, hstep⟩ := h
    rw [hstep]
    cases houtcome : outcome world.1.native with
    | error e => exact .failed (.stopped world.1 (hlocal _ e houtcome)) (.nil _ _) (.nil _ _)
    | ok r => exact .done (world.2.note r.2) (.done (.note world.1 r.2)) rfl (.nil _ _) (.nil _ _)

/-! ## The course of a description -/

/-- A request that can be answered within a number of nested steps. -/
inductive Frame.Fits (depth : ℕ) : Frame → Prop
  | named (world : Comparison.ending.World) {scope : TypeScopeId} (name : String)
      (hscope : scope < world.1.scopes.size) (hstock : world.1.stock scope ≤ depth) :
      Fits depth ⟨.named scope name, world.1⟩
  | part (world : Comparison.ending.World) {scope : TypeScopeId} {specifiers : Node}
      (h : Reached depth world scope scope specifiers specifiers) :
      Fits depth ⟨.part scope specifiers, world.1⟩

/-- A request is answered without too long a chain, and the table advances when it is. -/
structure Frame.Sound (answers : Answers) (frame : Frame) : Prop where
  ne_chainTooLong : answers frame.request frame.table ≠ .error .chainTooLong
  advances : ∀ t after, answers frame.request frame.table = .ok (t, after) →
    after.Prepared ∧ frame.table.Advances after

/-- The requests of a kind are answered so. -/
def Answers.Sound (answers : Answers) (fits : Frame → Prop) : Prop :=
  ∀ frame, fits frame → frame.Sound answers

section Hearing

variable {depth : ℕ} {answers : Answers} {stops stops' : Set Frame} {fits : Frame → Prop}

lemma cut_singleton (answers : Answers) (stops : Set Frame) (frame : Frame) :
    Cut stops [frame] (answers frame.request frame.table)
      (answers.stopping stops .chainTooLong frame.request frame.table) where
  stopped := by
    rintro ⟨frame', hmem, hstop⟩
    cases List.mem_singleton.mp hmem
    exact answers.stopping_of_mem _ hstop
  ran hnone := answers.stopping_of_not_mem _ (hnone frame (List.mem_singleton_self frame))

lemma hearing_ask (hsound : answers.Sound fits)
    {world : (Comparison.hearing fits answers stops stops').World} {request : Request}
    (hfits : fits ⟨request, world.1⟩) :
    (Comparison.hearing fits answers stops stops').Same world (answers.stopping stops .chainTooLong request)
      (answers.stopping stops' .chainTooLong request) := by
  have hcut := cut_singleton answers stops ⟨request, world.1⟩
  have hcut' := cut_singleton answers stops' ⟨request, world.1⟩
  change Runs fits answers stops stops' world.1 _ _ _
  cases hanswer : answers request world.1 with
  | error e =>
    rw [hanswer] at hcut hcut'
    refine .failed (.failed (.refl world.1) hfits hanswer ?_) hcut hcut'
    rintro rfl
    exact (hsound _ hfits).ne_chainTooLong hanswer
  | ok r =>
    rw [hanswer] at hcut hcut'
    obtain ⟨hprepared, hadvances⟩ := (hsound _ hfits).advances r.1 r.2 hanswer
    have hcourse := Course.answered (.refl world.1) hfits hanswer hadvances (.done (.refl r.2))
    exact .done hprepared hcourse rfl hcut hcut'

variable (hsound : answers.Sound (Frame.Fits depth))
  {world : (Comparison.hearing (Frame.Fits depth) answers stops stops').World} {scope : TypeScopeId}

include hsound

lemma hearing_resolveAll (hscope : scope < world.1.scopes.size) (hstock : world.1.stock scope ≤ depth) :
    (Comparison.hearing (Frame.Fits depth) answers stops stops').Same world
      (resolveAll (answers.stopping stops .chainTooLong).names scope)
      (resolveAll (answers.stopping stops' .chainTooLong).names scope) := by
  have hnames : (Comparison.hearing (Frame.Fits depth) answers stops stops').Same world
      ((world.1.names scope).forM fun name => do
        let _ ← (answers.stopping stops .chainTooLong).names scope name)
      ((world.1.names scope).forM fun name => do
        let _ ← (answers.stopping stops' .chainTooLong).names scope name) := by
    refine Comparison.forM_resolve _ fun later name hlater => ?_
    have hstock' := hlater.within.stock_le world.2.toOrdered later.2.toOrdered hscope
    have hscope' := Nat.lt_of_lt_of_le hscope hlater.within.size_le
    exact hearing_ask hsound (.named later name hscope' (Nat.le_trans hstock' hstock))
  exact hnames

omit hsound in
lemma hearing_openBody {body : Node} (hscope : scope < world.1.scopes.size)
    (hle : world.1.stock scope + Node.weightOfAll body.children ≤ depth) :
    (Comparison.hearing (Frame.Fits depth) answers stops stops').Holds world
      (Comparison.openBody scope body) (Comparison.openBody scope body)
      fun later t t' => Entered depth later t t' body body := by
  change Runs (Frame.Fits depth) answers stops stops' world.1 _ (Comparison.openBody scope body world.1)
    (Comparison.openBody scope body world.1)
  cases hopen : Comparison.openBody scope body world.1 with
  | error e =>
    have hlocal := decisive_openBody scope body world.1 e hopen
    exact .failed (.stopped world.1 hlocal) (.nil _ _) (.nil _ _)
  | ok r =>
    obtain ⟨opened, table⟩ := r
    obtain ⟨hprepared, hentered⟩ := exists_entered_of_openBody hscope hle hopen
    obtain ⟨-, declared, -, -, rfl⟩ := Comparison.openBody_eq_ok_iff.mp hopen
    exact .done hprepared (.done (.entered scope _)) hentered (.nil _ _) (.nil _ _)

/-- Two runs with different requests stopped give grounds to compare what is built within one step more. -/
lemma grounds_hearing :
    Comparison.Grounds (Comparison.hearing (Frame.Fits depth) answers stops stops') Eq
      (answers.stopping stops .chainTooLong).names (answers.stopping stops' .chainTooLong).names
      (answers.stopping stops .chainTooLong).parts (answers.stopping stops' .chainTooLong).parts
      (Reached (depth + 1)) (Reached depth) (Entered depth) where
  like := .eq
  outer_like h := ⟨h.specifiers_eq, h.kind_eq⟩
  outer_later hlater h := h.mono hlater.within
  inside_later hlater h := h.mono hlater.within
  built := by
    rintro world s s' n n' ⟨rfl, rfl, hkind, hscope, hle⟩
    exact hearing_ask hsound (.part world ⟨rfl, rfl, hkind, hscope, hle⟩)
  resolved := by
    rintro world s s' n n' name h -
    cases h.scope_eq
    exact hearing_ask hsound (.named world name h.scope_lt h.stock_le)
  resolvedAll := by
    rintro world s s' b b' h
    cases h.scope_eq
    exact hearing_resolveAll hsound h.scope_lt h.stock_le
  known := by
    rintro world s s' n n' name t ⟨rfl, rfl, -, -, -⟩ -
    change Runs (Frame.Fits depth) answers stops stops' world.1 _
      (.ok ((), if (world.1.lookup? s name).isSome then world.1 else _))
      (.ok ((), if (world.1.lookup? s name).isSome then world.1 else _))
    split
    · exact .done world.2 (.done (.refl world.1)) rfl (.nil _ _) (.nil _ _)
    · rename_i hnone
      have hlookup := Option.not_isSome_iff_eq_none.mp hnone
      have hprepared : (world.1.setEntry s name (.built t)).Prepared := world.2.setEntry s name nofun
      exact .done hprepared (.done (.known world.2.toOrdered t hlookup)) rfl (.nil _ _) (.nil _ _)
  container := by
    rintro world s s' n n' c c' h hc - rfl
    exact h.container hc
  body := by
    rintro world s s' n n' b b' h hb - rfl
    cases h.scope_eq
    exact hearing_openBody h.scope_lt (h.body_le hb)
  member := by
    rintro world s s' b b' m m' h hm - rfl
    exact h.member hm

end Hearing

/-! ## Regular procedures -/

/-- **A procedure that makes its requests one after the other**, and in runs of which nothing else happens to
the entries that were there before. -/
structure Regular {α : Type} (fits : Frame → Prop) (answers : Answers) (procedure : Answers → TypeM α)
    (start : TypeTable) : Prop where
  dialogue : ∃ dialogue : Dialogue α, ∀ answers, procedure answers start = dialogue.run answers
  runs : ∀ stops stops', Runs fits answers stops stops' start (fun _ a b => a = b)
    (procedure (answers.stopping stops .chainTooLong) start)
    (procedure (answers.stopping stops' .chainTooLong) start)

namespace Regular

variable {α : Type} {fits : Frame → Prop} {answers : Answers} {procedure : Answers → TypeM α}
  {start after : TypeTable} {frame frame' : Frame} {stops : Set Frame} {a : α} {e : SchemaError}
  {scope : TypeScopeId} {name : String} {source : TypeSource}

/-- Two runs follow the same course, as far as they are not stopped. -/
lemma exists_courses (h : Regular fits answers procedure start) (stops stops' : Set Frame) :
    ∃ frames outcome, Course fits answers start frames (outcome.map Prod.snd) ∧
      Cut stops frames outcome (procedure (answers.stopping stops .chainTooLong) start) ∧
      Cut stops' frames outcome (procedure (answers.stopping stops' .chainTooLong) start) := by
  have hruns := h.runs stops stops'
  cases hruns with
  | failed hcourse hcut hcut' => exact ⟨_, .error _, hcourse, hcut, hcut'⟩
  | done _ hcourse heq hcut hcut' =>
    subst heq
    exact ⟨_, .ok _, hcourse, hcut, hcut'⟩

/-- A run with stops follows the course of the run without. -/
lemma exists_course (h : Regular fits answers procedure start) (stops : Set Frame) :
    ∃ frames, Course fits answers start frames ((procedure answers start).map Prod.snd) ∧
      Cut stops frames (procedure answers start) (procedure (answers.stopping stops .chainTooLong) start) := by
  obtain ⟨frames, outcome, hcourse, hcut, hcut'⟩ := h.exists_courses stops ∅
  have hran := hcut'.ran fun _ _ => Set.notMem_empty _
  rw [answers.stopping_empty] at hran
  subst hran
  exact ⟨frames, hcourse, hcut⟩

/-- No run ends because a chain is too long. -/
lemma ne_chainTooLong (h : Regular fits answers procedure start) :
    procedure answers start ≠ .error .chainTooLong := by
  intro herror
  obtain ⟨frames, hcourse, -⟩ := h.exists_course ∅
  rw [herror] at hcourse
  exact hcourse.ne_chainTooLong rfl

/-- A run that ends leaves an advanced table. -/
lemma advances (h : Regular fits answers procedure start) (hok : procedure answers start = .ok (a, after)) :
    after.Prepared ∧ start.Advances after := by
  have hruns := h.runs ∅ ∅
  rw [answers.stopping_empty, hok] at hruns
  cases hruns with
  | failed _ hcut _ => cases hcut.ran fun _ _ => Set.notMem_empty _
  | done hprepared hcourse _ hcut _ =>
    cases hcut.ran fun _ _ => Set.notMem_empty _
    exact ⟨hprepared, hcourse.advances⟩

/-- What is requested is on the course. -/
lemma mem_of_calls (hcalls : Calls procedure answers start frame) {frames : List Frame}
    {outcome : Except SchemaError (α × TypeTable)}
    (hcourse : Course fits answers start frames (outcome.map Prod.snd))
    (hcut : Cut {frame} frames outcome (procedure (answers.stopping {frame} .chainTooLong) start)) :
    frame ∈ frames := by
  rcases hcut.cases with ⟨⟨frame', hmem, rfl⟩, -⟩ | ⟨-, hran⟩
  · exact hmem
  · rw [hcalls .chainTooLong] at hran
    subst hran
    exact absurd rfl hcourse.ne_chainTooLong

/-- If nothing that is requested is stopped, all goes as it would have gone. -/
lemma stopping_eq (h : Regular fits answers procedure start)
    (hnone : ∀ frame, Calls procedure answers start frame → frame ∉ stops) :
    procedure (answers.stopping stops .chainTooLong) start = procedure answers start := by
  obtain ⟨dialogue, hdialogue⟩ := h.dialogue
  rw [hdialogue, hdialogue]
  exact dialogue.run_stopping_of_forall answers _ fun frame hmem =>
    hnone frame ((Dialogue.calls_iff_mem answers hdialogue).mpr hmem)

/-- If the course meets some requests, one of them is made. -/
lemma exists_calls (h : Regular fits answers procedure start) (stops : Set Frame)
    (hmeets : ∀ frames, Course fits answers start frames ((procedure answers start).map Prod.snd) →
      ∃ frame ∈ frames, frame ∈ stops) :
    ∃ frame ∈ stops, Calls procedure answers start frame := by
  by_contra hnone
  have heq : procedure (answers.stopping stops .chainTooLong) start = procedure answers start :=
    h.stopping_eq fun frame hcalls hstop => hnone ⟨frame, hstop, hcalls⟩
  obtain ⟨frames, hcourse, hcut⟩ := h.exists_course stops
  exact h.ne_chainTooLong (heq.symm.trans (hcut.stopped (hmeets frames hcourse)))

/-- From which table a request is made. -/
lemma of_calls (h : Regular fits answers procedure start) (hcalls : Calls procedure answers start frame) :
    fits frame ∧ start.Advances frame.table := by
  obtain ⟨frames, hcourse, hcut⟩ := h.exists_course {frame}
  exact hcourse.of_mem (mem_of_calls hcalls hcourse hcut)

/-- In a run that ends with a table, all requests are answered. -/
lemma exists_of_calls (h : Regular fits answers procedure start)
    (hok : procedure answers start = .ok (a, after)) (hcalls : Calls procedure answers start frame) :
    ∃ t table, answers frame.request frame.table = .ok (t, table) ∧ table.Advances after := by
  obtain ⟨frames, hcourse, hcut⟩ := h.exists_course {frame}
  have hmem := mem_of_calls hcalls hcourse hcut
  rw [hok] at hcourse
  exact hcourse.exists_of_mem hmem

/-- Of two requests, one has been answered when the other is made. -/
lemma ordered (h : Regular fits answers procedure start) (hcalls : Calls procedure answers start frame)
    (hcalls' : Calls procedure answers start frame') (hne : frame ≠ frame') :
    (∃ t table, answers frame.request frame.table = .ok (t, table) ∧ table.Advances frame'.table) ∨
      ∃ t table, answers frame'.request frame'.table = .ok (t, table) ∧ table.Advances frame.table := by
  obtain ⟨frames, outcome, hcourse, hcut, hcut'⟩ := h.exists_courses {frame} {frame'}
  exact hcourse.ordered (mem_of_calls hcalls hcourse hcut) (mem_of_calls hcalls' hcourse hcut') hne

/-- What fails because of a chain of references has made a request that has failed so. -/
lemma exists_failed (h : Regular fits answers procedure start) (herror : procedure answers start = .error e)
    (he : ¬e.IsLocal) :
    ∃ frame, Calls procedure answers start frame ∧ answers frame.request frame.table = .error e := by
  obtain ⟨frame, hfailed, hcalls⟩ := h.exists_calls
    {frame | answers frame.request frame.table = .error e} fun frames hcourse => by
      rw [herror] at hcourse
      exact hcourse.exists_failed he
  exact ⟨frame, hcalls, hfailed⟩

/-- What is to be built at the start and has been built at the end, a request has built. -/
lemma exists_settling (h : Regular fits answers procedure start)
    (hok : procedure answers start = .ok (a, after))
    (hpending : start.lookup? scope name = some (.pending source))
    (hbuilt : after.lookup? scope name ≠ some (.pending source)) :
    ∃ frame ∈ Settling answers scope name source, Calls procedure answers start frame := by
  refine h.exists_calls _ fun frames hcourse => ?_
  rw [hok] at hcourse
  by_contra hnone
  exact hbuilt (hcourse.pending_of_start (fun frame hmem hframe => hnone ⟨frame, hmem, hframe⟩) hpending)

/-- What is to be built when a request is made and has been built at the end, a request has built. -/
lemma exists_settling_of_calls (h : Regular fits answers procedure start)
    (hok : procedure answers start = .ok (a, after)) (hcalls : Calls procedure answers start frame)
    (hpending : frame.table.lookup? scope name = some (.pending source))
    (hbuilt : after.lookup? scope name ≠ some (.pending source)) :
    ∃ frame ∈ Settling answers scope name source, Calls procedure answers start frame := by
  by_contra hnone
  have heq : procedure (answers.stopping (Settling answers scope name source) .chainTooLong) start =
      procedure answers start :=
    h.stopping_eq fun frame hcalls hframe => hnone ⟨frame, hframe, hcalls⟩
  obtain ⟨frames, outcome, hcourse, hcut, hcut'⟩ :=
    h.exists_courses (Settling answers scope name source) {frame}
  have hmem := mem_of_calls hcalls hcourse hcut'
  rw [heq, hok] at hcut
  rcases hcut.cases with ⟨-, hstopped⟩ | ⟨hclear, rfl⟩
  · cases hstopped
  · exact hbuilt (hcourse.pending_of_mem hclear hmem hpending)

end Regular

end CommonTrace
