import CommonTrace.Proofs.Schema.RootNames
import Mathlib.Algebra.BigOperators.Group.List.Basic
import Mathlib.Algebra.Group.Pi.Basic
import Mathlib.Algebra.Ring.Int.Defs
import Mathlib.Tactic.Abel

/-!
# When types became known

The order in which the types of the whole metadata become known depends on what refers to them.  A `Record`
says that a type has become known, and what has been noted for it alone; a list of records, the latest first,
is `Globals.Justified` if for each of them there is a run that has built the type, and that has used no types
but those recorded before.

Every run that builds types can be recorded (`Globals.growing`, `TypeM.growing_buildSpecifiers`): if the types
that are known before it have been recorded, so can those be that are known after it.
-/

namespace CommonTrace

open Tsdl TypeTable

/-! ## Notes -/

/-- What is noted while types are built. -/
inductive Note where
  /-- An integer refers to a clock. -/
  | clock (name : String)
  /-- Something is passed over. -/
  | warning (warning : Warning)
deriving DecidableEq

namespace TypeTable

variable (table : TypeTable) (scope parent : TypeScopeId) (name : String) (entry : TypeEntry)
  (entries : List (String × TypeSource))

/-- How often each note has been taken. -/
def log : Note → ℤ := fun note =>
  (table.clocks.toList.map Note.clock ++ table.warnings.toList.map Note.warning).count note

@[simp] lemma log_setEntry : (table.setEntry scope name entry).log = table.log := rfl

@[simp] lemma log_opened : (table.opened parent).log = table.log := rfl

@[simp] lemma log_entered : (table.entered scope entries).log = table.log := by
  unfold log
  rw [clocks_entered, warnings_entered]

/-- Whether the type of a name of the whole metadata is known. -/
def knows : Bool :=
  match table.lookup? rootScope name with
  | some (.built _) => true
  | _ => false

/-- The table with a type under a name of a scope, unless the name is taken. -/
def withBuilt (t : FieldType) : TypeTable :=
  if (table.lookup? scope name).isSome then table else table.setEntry scope name (.built t)

variable {table scope name entry}

lemma withBuilt_of_some (t : FieldType) (h : table.lookup? scope name = some entry) :
    table.withBuilt scope name t = table := by
  rw [withBuilt, h]
  rfl

lemma withBuilt_of_none (t : FieldType) (h : table.lookup? scope name = none) :
    table.withBuilt scope name t = table.setEntry scope name (.built t) := by
  rw [withBuilt, h]
  rfl

lemma knows_of_lookup? {t : FieldType} (h : table.lookup? rootScope name = some (.built t)) :
    table.knows name = true := by
  rw [knows, h]

lemma knows_of_pending {source : TypeSource}
    (h : table.lookup? rootScope name = some (.pending source)) :
    table.knows name = false := by
  rw [knows, h]

lemma knows_of_inProgress (h : table.lookup? rootScope name = some .inProgress) :
    table.knows name = false := by
  rw [knows, h]

lemma exists_of_knows (h : table.knows name = true) :
    ∃ t, table.lookup? rootScope name = some (.built t) := by
  unfold knows at h
  split at h
  · exact ⟨_, ‹_›⟩
  · cases h

lemma knows_congr {table' : TypeTable} (h : table'.lookup? rootScope name = table.lookup? rootScope name) :
    table'.knows name = table.knows name := by
  rw [knows, knows, h]

end TypeTable

/-- The same has been noted, in some order. -/
lemma TypeTable.perm_of_log_eq {table table' : TypeTable} (h : table.log = table'.log) :
    table.clocks.toList.Perm table'.clocks.toList ∧ table.warnings.toList.Perm table'.warnings.toList := by
  have hperm : (table.clocks.toList.map Note.clock ++ table.warnings.toList.map Note.warning).Perm
      (table'.clocks.toList.map Note.clock ++ table'.warnings.toList.map Note.warning) :=
    List.perm_iff_count.mpr fun note => Int.ofNat.inj (congrFun h note)
  have hclocks := hperm.filterMap fun note => match note with
    | .clock name => some name
    | .warning _ => none
  have hwarnings := hperm.filterMap fun note => match note with
    | .clock _ => none
    | .warning warning => some warning
  simpa [List.filterMap_append, List.filterMap_map, Function.comp_def] using And.intro hclocks hwarnings

/-! ## Records -/

/-- A type that has become known. -/
structure Record where
  /-- The name. -/
  name : String
  /-- The type. -/
  type : FieldType
  /-- What has been noted for it, without the types that it refers to. -/
  own : Note → ℤ

/-- What has been noted for the recorded types that are known. -/
def paid (known : List Record) (table : TypeTable) : Note → ℤ :=
  (known.map fun record => if table.knows record.name then record.own else 0).sum

/-- What has been noted apart from the recorded types that are known. -/
def net (known : List Record) (table : TypeTable) : Note → ℤ :=
  table.log - paid known table

section Net

variable {known : List Record} {record : Record} {table table' : TypeTable}

lemma paid_congr (h : ∀ record ∈ known, table'.knows record.name = table.knows record.name) :
    paid known table' = paid known table := by
  unfold paid
  refine congrArg List.sum (List.map_congr_left fun record hrecord => ?_)
  rw [h record hrecord]

lemma paid_cons (record : Record) (known : List Record) (table : TypeTable) :
    paid (record :: known) table =
      (if table.knows record.name then record.own else 0) + paid known table := by
  rw [paid, List.map_cons, List.sum_cons]
  rfl

lemma paid_append (first rest : List Record) (table : TypeTable) :
    paid (first ++ rest) table = paid first table + paid rest table := by
  rw [paid, List.map_append, List.sum_append]
  rfl

/-- What has been noted for types that are not known is not taken off. -/
lemma paid_eq_zero (h : ∀ record ∈ known, table.knows record.name = false) : paid known table = 0 := by
  refine List.sum_eq_zero fun own hown => ?_
  obtain ⟨record, hrecord, rfl⟩ := List.mem_map.mp hown
  rw [h record hrecord]
  rfl

lemma net_congr (hlog : table'.log = table.log)
    (h : ∀ record ∈ known, table'.knows record.name = table.knows record.name) :
    net known table' = net known table := by
  rw [net, net, hlog, paid_congr h]

/-- When a recorded type becomes known, what has been noted for it is taken off. -/
lemma net_setEntry_of_mem (hsize : rootScope < table.scopes.size)
    (hnodup : (known.map Record.name).Nodup)
    (hrecord : record ∈ known) (hfresh : table.knows record.name = false) (t : FieldType) :
    net known (table.setEntry rootScope record.name (.built t)) = net known table - record.own := by
  have hother (other : Record) (hne : other.name ≠ record.name) :
      (table.setEntry rootScope record.name (.built t)).knows other.name = table.knows other.name :=
    knows_congr (by rw [lookup?_setEntry, if_neg fun hsame => hne hsame.2.1])
  have hself : (table.setEntry rootScope record.name (.built t)).knows record.name = true :=
    knows_of_lookup? (by rw [lookup?_setEntry, if_pos ⟨rfl, rfl, hsize⟩])
  obtain ⟨before, behind, rfl⟩ := List.append_of_mem hrecord
  rw [List.map_append, List.map_cons, List.nodup_middle, List.nodup_cons, List.mem_append, not_or] at hnodup
  have hbefore : paid before (table.setEntry rootScope record.name (.built t)) = paid before table :=
    paid_congr fun other hmem => hother other fun heq => hnodup.1.1 (heq ▸ List.mem_map_of_mem hmem)
  have hbehind : paid behind (table.setEntry rootScope record.name (.built t)) = paid behind table :=
    paid_congr fun other hmem => hother other fun heq => hnodup.1.2 (heq ▸ List.mem_map_of_mem hmem)
  simp only [net, log_setEntry, paid_append, paid_cons, hself, hfresh, hbefore, hbehind, if_true,
    Bool.false_eq_true, if_false]
  abel

end Net

namespace Globals

variable {g : Globals} {floor : ℕ} {past past' : List Record} {record : Record}
  {table table' : TypeTable}

/-- The recorded types are known, or can still be built. -/
def Ready (g : Globals) (past : List Record) (table : TypeTable) : Prop :=
  ∀ record ∈ past, ∀ source, (record.name, source) ∈ g.entries →
    table.lookup? rootScope record.name = some (.pending source) ∨
      table.lookup? rootScope record.name = some (.built record.type)

/-- No types are known but those that are recorded. -/
def Settled (g : Globals) (past : List Record) (table : TypeTable) : Prop :=
  ∀ name ∈ g.names, ∀ t, table.lookup? rootScope name = some (.built t) →
    ∃ record ∈ past, record.name = name ∧ record.type = t

/-- **Records of types that have become known one after the other.**  Each has been built in a run that has
used none but the earlier ones. -/
inductive Justified (g : Globals) : List Record → Prop
  | nil : Justified g []
  | cons {past : List Record} {record : Record} {source : TypeSource} {depth : ℕ} {start finish : TypeTable}
      (hpast : Justified g past) (hfresh : record.name ∉ past.map Record.name)
      (hmem : (record.name, source) ∈ g.entries) (hfit : g.Fit 1 start) (hready : g.Ready past start)
      (hrun : TypeM.buildType (TypeM.buildSpecifiers depth) rootScope source.specifiers source.declarator start =
        .ok (record.type, finish))
      (hsettled : g.Settled past finish) (hown : record.own = net past finish - net past start) :
      Justified g (record :: past)

/-- What is known in a table has been recorded. -/
structure Recorded (g : Globals) (past : List Record) (table : TypeTable) : Prop where
  justified : g.Justified past
  settled : g.Settled past table
  known : ∀ record ∈ past, table.lookup? rootScope record.name = some (.built record.type)

/-- What becomes known can be recorded. -/
def Extends (g : Globals) (table table' : TypeTable) : Prop :=
  ∀ past, g.Recorded past table → ∃ past', past <:+ past' ∧ g.Recorded past' table'

lemma Justified.mem_names (h : g.Justified past) (hrecord : record ∈ past) : record.name ∈ g.names := by
  induction h with
  | nil => cases hrecord
  | cons _ _ hmem _ _ _ _ _ ih =>
    rcases List.mem_cons.mp hrecord with rfl | hrecord
    · exact List.mem_map_of_mem hmem
    · exact ih hrecord

lemma Justified.nodup (h : g.Justified past) : (past.map Record.name).Nodup := by
  induction h with
  | nil => exact List.nodup_nil
  | cons _ hfresh _ _ _ _ _ _ ih => exact List.nodup_cons.mpr ⟨hfresh, ih⟩

/-- Declared names that are found as before are recorded as before. -/
lemma Recorded.congr (h : g.Recorded past table)
    (hsame : ∀ name ∈ g.names, ∀ t, table'.lookup? rootScope name = some (.built t) ↔
      table.lookup? rootScope name = some (.built t)) : g.Recorded past table' where
  justified := h.justified
  settled name hname t hlookup := h.settled name hname t ((hsame name hname t).mp hlookup)
  known record hrecord := by
    exact (hsame _ (h.justified.mem_names hrecord) _).mpr (h.known record hrecord)

namespace Extends

lemma refl (table : TypeTable) : g.Extends table table :=
  fun past h => ⟨past, List.suffix_refl past, h⟩

lemma trans {table'' : TypeTable} (h : g.Extends table table') (h' : g.Extends table' table'') :
    g.Extends table table'' := by
  intro past hpast
  obtain ⟨past', hsuffix, hpast'⟩ := h past hpast
  obtain ⟨past'', hsuffix', hpast''⟩ := h' past' hpast'
  exact ⟨past'', hsuffix.trans hsuffix', hpast''⟩

lemma congr (hsame : ∀ name ∈ g.names, ∀ t, table'.lookup? rootScope name = some (.built t) ↔
    table.lookup? rootScope name = some (.built t)) : g.Extends table table' :=
  fun past h => ⟨past, List.suffix_refl past, h.congr hsame⟩

end Extends

/-- What is recorded later has been pending, or it has been known all along. -/
lemma Recorded.ready (h : g.Recorded past table') (hfit : g.Fit floor table)
    (hgrows : table.Grows floor table') : g.Ready past table := by
  intro record hrecord source hmem
  have hevolves := hgrows.evolves rootScope hfit.root_lt record.name
  rw [h.known record hrecord] at hevolves
  rcases hfit.declared _ source hmem with hlookup | hlookup | ⟨t, hlookup⟩
  · exact .inl hlookup
  · rw [hlookup] at hevolves
    cases hevolves
  · rw [hlookup] at hevolves
    have heq := hevolves.eq_of_built
    cases heq
    exact .inr hlookup

/-- A name whose type has been built can be recorded. -/
lemma Recorded.cons {depth : ℕ} {name : String} {source : TypeSource} {t : FieldType}
    {finish : TypeTable}
    (h : g.Recorded past finish) (hfit : g.Fit floor table) (hmem : (name, source) ∈ g.entries)
    (hlookup : table.lookup? rootScope name = some .inProgress)
    (hrun : TypeM.buildType (TypeM.buildSpecifiers depth) rootScope source.specifiers source.declarator table =
      .ok (t, finish)) (hgrows : table.Grows floor finish) :
    g.Recorded (⟨name, t, net past finish - net past table⟩ :: past)
      (finish.setEntry rootScope name (.built t)) := by
  have hsize := Nat.lt_of_lt_of_le hfit.root_lt hgrows.size_le
  have hprogress : finish.lookup? rootScope name = some .inProgress := by
    have hevolves := hgrows.evolves rootScope hfit.root_lt name
    rw [hlookup] at hevolves
    exact hevolves.eq_of_inProgress
  have hfresh : name ∉ past.map Record.name := by
    intro hname
    obtain ⟨record, hrecord, heq⟩ := List.mem_map.mp hname
    have hknown := h.known record hrecord
    rw [heq, hprogress] at hknown
    cases hknown
  have hset (name' : String) : (finish.setEntry rootScope name (.built t)).lookup? rootScope name' =
      if name' = name then some (.built t) else finish.lookup? rootScope name' := by
    rw [lookup?_setEntry]
    simp only [true_and, hsize, and_true]
  refine ⟨.cons h.justified hfresh hmem hfit.thaw (h.ready hfit hgrows) hrun h.settled rfl,
    fun name' hname' t' hlookup' => ?_, fun record hrecord => ?_⟩
  · rw [hset] at hlookup'
    split at hlookup'
    · rename_i heq
      cases hlookup'
      exact ⟨_, List.mem_cons_self, heq.symm, rfl⟩
    · obtain ⟨record, hrecord, hrecord'⟩ := h.settled name' hname' t' hlookup'
      exact ⟨record, List.mem_cons_of_mem _ hrecord, hrecord'⟩
  · rw [hset]
    rcases List.mem_cons.mp hrecord with rfl | hrecord
    · rw [if_pos rfl]
    · rw [if_neg fun heq : record.name = name => hfresh (heq ▸ List.mem_map_of_mem hrecord)]
      exact h.known record hrecord

end Globals

/-! ## Runs -/

/-- The outcomes of two steps that do the same: the table has grown, and what has become known can be
recorded. -/
inductive TypeM.Grown {α : Type} (g : Globals) (floor : ℕ) (start : TypeTable)
    (P : { table : TypeTable // g.Fit floor table } → α → α → Prop) :
    Except SchemaError (α × TypeTable) → Except SchemaError (α × TypeTable) → Prop
  | error {e : SchemaError} : Grown g floor start P (.error e) (.error e)
  | ok {a b : α} {table : TypeTable} (hfit : g.Fit floor table) (hgrows : start.Grows floor table)
      (hextends : g.Extends start table) (hP : P ⟨table, hfit⟩ a b) :
      Grown g floor start P (.ok (a, table)) (.ok (b, table))

/-- **Two steps that do the same, which can be recorded.**  Known is the table that they start from. -/
def Globals.growing (g : Globals) (floor : ℕ) : Comparison where
  World := { table : TypeTable // g.Fit floor table }
  Later start table := start.1.Grows floor table.1
  Holds world x y P := TypeM.Grown g floor world.1 P (x world.1) (y world.1)
  later_refl world := .refl floor world.1
  later_trans := .trans
  pure {_ world _ _ _} h := .ok world.2 (.refl floor world.1) (.refl world.1) h
  throw _ := .error
  bind {α β world x y P next next' Q} h hnext := by
    change TypeM.Grown g floor world.1 Q (x world.1 >>= fun r => next r.1 r.2)
      (y world.1 >>= fun r => next' r.1 r.2)
    generalize x world.1 = first, y world.1 = first' at h
    cases h with
    | error => exact .error
    | @ok a b table hfit hgrows hextends hP =>
      have hnext : TypeM.Grown g floor table Q (next a table) (next' b table) :=
        hnext ⟨table, hfit⟩ a b hgrows hP
      change TypeM.Grown g floor world.1 Q (next a table) (next' b table)
      generalize next a table = second, next' b table = second' at hnext
      cases hnext with
      | error => exact .error
      | ok hfit' hgrows' hextends' hQ =>
        exact .ok hfit' (hgrows.trans hgrows') (hextends.trans hextends') hQ
  nameless {α world step} h := by
    obtain ⟨outcome, -, hstep⟩ := h
    rw [hstep]
    cases outcome world.1.native with
    | error e => exact .error
    | ok r => exact .ok (world.2.note r.2) (.note floor world.1 r.2) (.congr fun _ _ _ => Iff.rfl) rfl

namespace TypeM

lemma Grown.of_ok {α : Type} {g : Globals} {floor : ℕ} {start after : TypeTable} {a : α}
    {P : { table : TypeTable // g.Fit floor table } → α → α → Prop}
    {x : Except SchemaError (α × TypeTable)}
    (h : Grown g floor start P x x) (hok : x = .ok (a, after)) :
    g.Fit floor after ∧ start.Grows floor after ∧ g.Extends start after := by
  subst hok
  cases h with
  | ok hfit hgrows hextends => exact ⟨hfit, hgrows, hextends⟩

section Resolve

variable {build : TypeScopeId → Node → TypeM FieldType} {table : TypeTable} {scope home : TypeScopeId}
  {name : String}

lemma get_bind_apply {α : Type} (next : TypeTable → TypeM α) :
    (get >>= next) table = next table table :=
  rfl

lemma resolveNamed_of_none (h : table.nearest? scope name = none) :
    resolveNamed build scope name table = .error (.unknownType name) := by
  rw [resolveNamed, get_bind_apply, h]
  rfl

lemma resolveNamed_of_built {t : FieldType} (h : table.nearest? scope name = some (home, .built t)) :
    resolveNamed build scope name table = .ok (t, table) := by
  rw [resolveNamed, get_bind_apply, h]
  rfl

lemma resolveNamed_of_inProgress (h : table.nearest? scope name = some (home, .inProgress)) :
    resolveNamed build scope name table = .error (.recursiveType name) := by
  rw [resolveNamed, get_bind_apply, h]
  rfl

/-- The entry is marked, the type is built, and it becomes known. -/
lemma resolveNamed_of_pending {source : TypeSource}
    (h : table.nearest? scope name = some (home, .pending source)) :
    resolveNamed build scope name table =
      buildType build home source.specifiers source.declarator (table.setEntry home name .inProgress) >>=
        fun r => .ok (r.1, r.2.setEntry home name (.built r.1)) := by
  rw [resolveNamed, get_bind_apply, h]
  rfl

/-- Resolves some names of a scope one after the other. -/
def resolveEach (build : TypeScopeId → Node → TypeM FieldType) (scope : TypeScopeId)
    (names : List String) : TypeM Unit :=
  names.forM fun name => do let _ ← resolveNamed build scope name

lemma resolveEach_cons (build : TypeScopeId → Node → TypeM FieldType) (scope : TypeScopeId)
    (name : String) (rest : List String) :
    resolveEach build scope (name :: rest) =
      resolveNamed build scope name >>= fun _ => resolveEach build scope rest := by
  change (resolveNamed build scope name >>= fun _ => Pure.pure ()) >>= _ = _
  rw [bind_assoc]
  rfl

lemma resolveAll_apply (build : TypeScopeId → Node → TypeM FieldType) (scope : TypeScopeId)
    (table : TypeTable) :
    resolveAll (resolveNamed build) scope table = resolveEach build scope (table.names scope) table :=
  rfl

end Resolve

variable {g : Globals} {floor depth : ℕ} {world : (g.growing floor).World} {scope : TypeScopeId}
  {specifiers body : Node}

/-- Specifiers of the tree, in a scope that is not frozen. -/
structure Placed (g : Globals) (floor : ℕ) (world : (g.growing floor).World) (scope scope' : TypeScopeId)
    (specifiers specifiers' : Node) : Prop where
  scope_eq : scope = scope'
  specifiers_eq : specifiers = specifiers'
  scope_lt : scope < world.1.scopes.size
  floor_le : scope = rootScope ∨ floor ≤ scope
  contains : g.root.Contains specifiers
  kind_eq : specifiers.kind = .typeSpecifierList
  brings : scope = rootScope → ∀ name, specifiers.Brings name → g.Brought name

/-- A body of the tree that has been opened. -/
structure PlacedBody (g : Globals) (floor : ℕ) (world : (g.growing floor).World)
    (scope scope' : TypeScopeId) (body body' : Node) : Prop where
  scope_eq : scope = scope'
  body_eq : body = body'
  scope_lt : scope < world.1.scopes.size
  scope_ne : scope ≠ rootScope
  floor_le : floor ≤ scope
  contains : g.root.Contains body

/-- The specifiers of a name are placed in the scope in which the name is found. -/
lemma placed_of_pending {table : TypeTable} {name : String} {source : TypeSource}
    (hfit : g.Fit floor table) (hlookup : table.lookup? scope name = some (.pending source))
    (hscope : scope = rootScope ∨ floor ≤ scope)
    {later : (g.growing floor).World} (hlater : table.scopes.size ≤ later.1.scopes.size) :
    Placed g floor later scope scope source.specifiers source.specifiers where
  scope_eq := rfl
  specifiers_eq := rfl
  scope_lt := Nat.lt_of_lt_of_le (lt_size_of_lookup? hlookup) hlater
  floor_le := hscope
  contains := (hfit.source _ _ _ hlookup).1
  kind_eq := (hfit.source _ _ _ hlookup).2
  brings := by
    rintro rfl other hother
    exact ⟨_, hfit.mem_of_pending hlookup, hother⟩

/-- What becomes known when the type of a name is built can be recorded. -/
lemma extends_of_built {table finish : TypeTable} {name : String} {source : TypeSource} {t : FieldType}
    (hfit : g.Fit floor table) (hmarked : g.Fit floor (table.setEntry scope name .inProgress))
    (hlookup : table.lookup? scope name = some (.pending source))
    (hrun : buildType (buildSpecifiers depth) scope source.specifiers source.declarator
      (table.setEntry scope name .inProgress) = .ok (t, finish))
    (hgrows : (table.setEntry scope name .inProgress).Grows floor finish)
    (hextends : g.Extends (table.setEntry scope name .inProgress) finish) :
    g.Extends table (finish.setEntry scope name (.built t)) := by
  have hscope := lt_size_of_lookup? hlookup
  intro past hpast
  obtain ⟨past', hsuffix, hpast'⟩ := hextends past (hpast.congr fun name' _ t' => by
    rw [lookup?_setEntry]
    split
    · rename_i hsame
      rw [hsame.1, hsame.2.1, hlookup]
      exact ⟨nofun, nofun⟩
    · exact Iff.rfl)
  by_cases hroot : scope = rootScope
  · subst hroot
    refine ⟨_, hsuffix.trans (List.suffix_cons _ _), hpast'.cons hmarked (hfit.mem_of_pending hlookup) ?_
      hrun hgrows⟩
    rw [lookup?_setEntry, if_pos ⟨rfl, rfl, hscope⟩]
  · refine ⟨past', hsuffix, hpast'.congr fun name' _ t' => ?_⟩
    rw [lookup?_setEntry, if_neg fun hsame => hroot hsame.1.symm]

/-- A name is resolved, and its type can be recorded. -/
lemma growing_resolveNamed
    (hbuild : ∀ later scope specifiers, Placed g floor later scope scope specifiers specifiers →
      (g.growing floor).Same later (buildSpecifiers depth scope specifiers)
        (buildSpecifiers depth scope specifiers))
    (hscope : scope < world.1.scopes.size) (hfloor : scope = rootScope ∨ floor ≤ scope) (name : String) :
    (g.growing floor).Same world (resolveNamed (buildSpecifiers depth) scope name)
      (resolveNamed (buildSpecifiers depth) scope name) := by
  obtain ⟨table, hfit⟩ := world
  change Grown g floor table _ (resolveNamed (buildSpecifiers depth) scope name table)
    (resolveNamed (buildSpecifiers depth) scope name table)
  cases hnearest : table.nearest? scope name with
  | none =>
    rw [resolveNamed_of_none hnearest]
    exact .error
  | some found =>
    obtain ⟨home, entry⟩ := found
    cases entry with
    | inProgress =>
      rw [resolveNamed_of_inProgress hnearest]
      exact .error
    | built t =>
      rw [resolveNamed_of_built hnearest]
      exact .ok hfit (.refl floor table) (.refl table) rfl
    | pending source =>
      have hlookup := lookup?_of_nearest? hnearest
      have hhome := hfit.around hfloor (hfit.mem_around hscope hnearest)
      have hmarked : g.Fit floor (table.setEntry home name .inProgress) := by
        refine hfit.setEntry (.inl rfl) ?_
        rintro rfl hname
        exact absurd (List.mem_map_of_mem (hfit.mem_of_pending hlookup)) hname
      have hplaced : Placed g floor ⟨_, hmarked⟩ home home source.specifiers source.specifiers :=
        placed_of_pending hfit hlookup hhome (Nat.le_of_eq (size_setEntry table home name _).symm)
      have hbuilt : Grown g floor (table.setEntry home name .inProgress) _
          (buildType (buildSpecifiers depth) home source.specifiers source.declarator _) _ :=
        Comparison.buildType .eq (hbuild ⟨_, hmarked⟩ home source.specifiers hplaced)
          (Comparison.rel_eq_refl source.declarator)
      rw [resolveNamed_of_pending hnearest]
      generalize houtcome : buildType (buildSpecifiers depth) home source.specifiers source.declarator
        (table.setEntry home name .inProgress) = outcome at hbuilt ⊢
      cases hbuilt with
      | error => exact .error
      | @ok t _ finish hfinish hgrows hextends =>
        refine .ok ?_ (.of_marked hhome hlookup hgrows)
          (extends_of_built hfit hmarked hlookup houtcome hgrows hextends) rfl
        refine hfinish.setEntry (.inr ⟨t, rfl⟩) ?_
        rintro rfl hname
        exact absurd (List.mem_map_of_mem (hfit.mem_of_pending hlookup)) hname

lemma growing_resolveEach
    (hbuild : ∀ later scope specifiers, Placed g floor later scope scope specifiers specifiers →
      (g.growing floor).Same later (buildSpecifiers depth scope specifiers)
        (buildSpecifiers depth scope specifiers))
    (hscope : scope < world.1.scopes.size) (hfloor : scope = rootScope ∨ floor ≤ scope)
    (names : List String) :
    (g.growing floor).Same world (resolveEach (buildSpecifiers depth) scope names)
      (resolveEach (buildSpecifiers depth) scope names) := by
  exact Comparison.forM_resolve names fun later name hlater =>
    growing_resolveNamed hbuild (Nat.lt_of_lt_of_le hscope hlater.size_le) hfloor name

/-- A body of the tree is opened as a new scope. -/
lemma growing_openBody (hscope : scope < world.1.scopes.size)
    (hfloor : scope = rootScope ∨ floor ≤ scope) (hbody : g.root.Contains body) :
    (g.growing floor).Holds world (Comparison.openBody scope body) (Comparison.openBody scope body)
      fun later t t' => PlacedBody g floor later t t' body body := by
  obtain ⟨table, hfit⟩ := world
  change Grown g floor table _ (Comparison.openBody scope body table)
    (Comparison.openBody scope body table)
  cases hopen : Comparison.openBody scope body table with
  | error e => exact .error
  | ok r =>
    obtain ⟨opened, after⟩ := r
    obtain ⟨rfl, declared, hdeclared, -, rfl⟩ := Comparison.openBody_eq_ok_iff.mp hopen
    have hentries : ∀ entry ∈ declared.flatten, g.Describes entry.2 := fun entry hentry =>
      ⟨.declared_flatten (fun node hnode => hbody.of_mem hnode) hdeclared hentry,
        Node.kind_of_declared hdeclared hentry⟩
    refine .ok (hfit.entered hscope hfloor hentries) (.entered hfit.floor_le scope _)
      (.congr fun name _ t => ?_) ⟨rfl, rfl, by simp, ?_, hfit.floor_le, hbody⟩
    · rw [lookup?_entered_of_ne _ _ _ (Nat.ne_of_lt hfit.root_lt), lookup?_opened]
    · exact Nat.ne_of_gt hfit.root_lt

/-- A compound type becomes known in the scope in which it is described. -/
lemma growing_enterBuilt (hfloor : scope = rootScope ∨ floor ≤ scope)
    (hbrings : scope = rootScope → ∀ name, specifiers.Brings name → g.Brought name) {name : String}
    (hname : specifiers.Introduces name) (t : FieldType) :
    (g.growing floor).Same world (enterBuilt scope name t) (enterBuilt scope name t) := by
  obtain ⟨table, hfit⟩ := world
  change Grown g floor table _ (.ok ((), table.withBuilt scope name t))
    (.ok ((), table.withBuilt scope name t))
  cases hlookup : table.lookup? scope name with
  | some entry =>
    rw [withBuilt_of_some t hlookup]
    exact .ok hfit (.refl floor table) (.refl table) rfl
  | none =>
    rw [withBuilt_of_none t hlookup]
    refine .ok (hfit.setEntry (.inr ⟨t, rfl⟩) fun hroot _ => ⟨⟨t, rfl⟩, hbrings hroot name (.own hname)⟩)
      (.setEntry hfloor (by rw [hlookup]; exact .brought t)) (.congr fun name' hname' t' => ?_) rfl
    rw [lookup?_setEntry, if_neg]
    rintro ⟨hroot, rfl, -⟩
    have hsome := hfit.isSome_of_mem hname'
    rw [hroot, hlookup] at hsome
    cases hsome

lemma grounds_growing
    (hbuild : ∀ later scope specifiers, Placed g floor later scope scope specifiers specifiers →
      (g.growing floor).Same later (buildSpecifiers depth scope specifiers)
        (buildSpecifiers depth scope specifiers)) :
    Comparison.Grounds (g.growing floor) Eq (resolveNamed (buildSpecifiers depth))
      (resolveNamed (buildSpecifiers depth)) (buildSpecifiers depth) (buildSpecifiers depth)
      (Placed g floor) (Placed g floor) (PlacedBody g floor) where
  like := .eq
  outer_like h := ⟨h.specifiers_eq, h.kind_eq⟩
  outer_later hlater h := { h with scope_lt := Nat.lt_of_lt_of_le h.scope_lt hlater.size_le }
  inside_later hlater h := { h with scope_lt := Nat.lt_of_lt_of_le h.scope_lt hlater.size_le }
  built := by
    rintro world s s' n n' ⟨rfl, rfl, hscope, hfloor, hcontains, hkind, hbrings⟩
    exact hbuild world s n ⟨rfl, rfl, hscope, hfloor, hcontains, hkind, hbrings⟩
  resolved := by
    rintro world s s' n n' name ⟨rfl, rfl, hscope, hfloor, -, -, -⟩ -
    exact growing_resolveNamed hbuild hscope hfloor name
  resolvedAll := by
    rintro world s s' b b' ⟨rfl, rfl, hscope, -, hfloor, -⟩
    exact growing_resolveEach hbuild hscope (.inr hfloor) (world.1.names s)
  known := by
    rintro world s s' n n' name t ⟨rfl, rfl, -, hfloor, -, -, hbrings⟩ hname
    exact growing_enterBuilt hfloor hbrings hname t
  container := by
    rintro world s s' n n' c c' ⟨rfl, rfl, hscope, hfloor, hcontains, -, hbrings⟩ hc - rfl
    exact ⟨rfl, rfl, hscope, hfloor, hcontains.container hc, hc.kind_eq,
      fun hroot name hname => hbrings hroot name (.container hc hname)⟩
  body := by
    rintro world s s' n n' b b' ⟨rfl, rfl, hscope, hfloor, hcontains, -, -⟩ hb - rfl
    exact growing_openBody hscope hfloor (hcontains.body hb)
  member := by
    rintro world s s' b b' m m' ⟨rfl, rfl, hscope, hne, hfloor, hcontains⟩ hm - rfl
    exact ⟨rfl, rfl, hscope, .inr hfloor, hcontains.member hm, hm.kind_eq, fun hroot => absurd hroot hne⟩

/-- **Building types can be recorded.** -/
theorem growing_buildSpecifiers (depth : ℕ)
    (h : Placed g floor world scope scope specifiers specifiers) :
    (g.growing floor).Same world (buildSpecifiers depth scope specifiers)
      (buildSpecifiers depth scope specifiers) := by
  induction depth generalizing world scope specifiers with
  | zero =>
    change Grown g floor world.1 _ (.error .chainTooLong) (.error .chainTooLong)
    exact .error
  | succ depth ih =>
    exact (grounds_growing fun _ _ _ h => ih h).interpret h

/-! ## What has been resolved -/

section Resolved

variable {table after : TypeTable} {name : String}

/-- What a table is like when a name has been resolved. -/
lemma grows_of_resolveNamed {t : FieldType} (hfit : g.Fit floor table)
    (hscope : scope < table.scopes.size) (hfloor : scope = rootScope ∨ floor ≤ scope)
    (hok : resolveNamed (buildSpecifiers depth) scope name table = .ok (t, after)) :
    g.Fit floor after ∧ table.Grows floor after ∧ g.Extends table after := by
  have hself : (g.growing floor).Same ⟨table, hfit⟩ (resolveNamed (buildSpecifiers depth) scope name)
      (resolveNamed (buildSpecifiers depth) scope name) :=
    growing_resolveNamed (fun _ _ _ h => growing_buildSpecifiers depth h) hscope hfloor name
  exact Grown.of_ok hself hok

/-- What a table is like when some names have been resolved. -/
lemma grows_of_resolveEach {names : List String} (hfit : g.Fit floor table)
    (hscope : scope < table.scopes.size) (hfloor : scope = rootScope ∨ floor ≤ scope)
    (hok : resolveEach (buildSpecifiers depth) scope names table = .ok ((), after)) :
    g.Fit floor after ∧ table.Grows floor after ∧ g.Extends table after := by
  have hself : (g.growing floor).Same ⟨table, hfit⟩ (resolveEach (buildSpecifiers depth) scope names)
      (resolveEach (buildSpecifiers depth) scope names) :=
    growing_resolveEach (fun _ _ _ h => growing_buildSpecifiers depth h) hscope hfloor names
  exact Grown.of_ok hself hok

end Resolved

end TypeM

end CommonTrace
