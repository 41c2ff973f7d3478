import CommonTrace.Proofs.Schema.Records

/-!
# Tables in which the same is built

A type that has been built in one table is to be built in another one, in which other types may be known.
The scopes that are opened for it have other numbers there.  `Globals.Linked` says that the scopes that have
been opened for it so far are linked: what is found in one of a pair is found in the other.  The scope of the
whole metadata is not linked to itself.  Of its names it is only said that those with a record can still be
built, or are known with the recorded type.
-/

namespace CommonTrace

open Tsdl TypeTable

/-! ## What is left of the names -/

namespace Globals

variable {g : Globals} {past : List Record} {floor : ℕ} {table table' table'' : TypeTable}
  {name : String}

/-- The declared names are found as before. -/
def SameNames (g : Globals) (table table' : TypeTable) : Prop :=
  ∀ name ∈ g.names, table'.lookup? rootScope name = table.lookup? rootScope name

/-- The declared names without a record are found as before. -/
def Kept (g : Globals) (past : List Record) (table table' : TypeTable) : Prop :=
  ∀ name ∈ g.names, name ∉ past.map Record.name →
    table'.lookup? rootScope name = table.lookup? rootScope name

lemma SameNames.kept (h : g.SameNames table table') : g.Kept past table table' :=
  fun name hname _ => h name hname

lemma Kept.refl (table : TypeTable) : g.Kept past table table :=
  fun _ _ _ => rfl

lemma Kept.trans (h : g.Kept past table table') (h' : g.Kept past table' table'') :
    g.Kept past table table'' :=
  fun name hname hnotMem => (h' name hname hnotMem).trans (h name hname hnotMem)

lemma SameNames.symm (h : g.SameNames table table') : g.SameNames table' table :=
  fun name hname => (h name hname).symm

lemma Ready.congr (h : g.Ready past table) (hsame : ∀ record ∈ past, record.name ∈ g.names →
    table'.lookup? rootScope record.name = table.lookup? rootScope record.name) : g.Ready past table' := by
  intro record hrecord source hmem
  rw [hsame record hrecord (List.mem_map_of_mem hmem)]
  exact h record hrecord source hmem

lemma SameNames.ready (h : g.SameNames table table') (hready : g.Ready past table) :
    g.Ready past table' :=
  hready.congr fun record _ => h record.name

lemma Settled.congr (h : g.Settled past table) (hsame : g.SameNames table table') :
    g.Settled past table' := by
  intro name hname t hlookup
  rw [hsame name hname] at hlookup
  exact h name hname t hlookup

/-- What is known stays known, so nothing was known before that is not recorded. -/
lemma Settled.of_grows (h : g.Settled past table') (hfit : g.Fit floor table)
    (hgrows : table.Grows floor table') :
    g.Settled past table := by
  intro name hname t hlookup
  have hevolves := hgrows.evolves rootScope hfit.root_lt name
  rw [hlookup] at hevolves
  exact h name hname t hevolves.eq_of_built

lemma sameNames_setEntry_of_ne {scope : TypeScopeId} (h : scope ≠ rootScope) (name : String)
    (entry : TypeEntry) :
    g.SameNames table (table.setEntry scope name entry) := by
  intro name' _
  rw [lookup?_setEntry, if_neg fun hsame => h hsame.1.symm]

lemma sameNames_setEntry_of_notMem {scope : TypeScopeId} (h : name ∉ g.names) (entry : TypeEntry) :
    g.SameNames table (table.setEntry scope name entry) := by
  intro name' hname'
  rw [lookup?_setEntry, if_neg]
  rintro ⟨-, rfl, -⟩
  exact h hname'

lemma sameNames_entered (hfit : g.Fit floor table) (parent : TypeScopeId)
    (entries : List (String × TypeSource)) :
    g.SameNames table ((table.opened parent).entered table.scopes.size entries) := by
  intro name _
  rw [lookup?_entered_of_ne _ _ _ (Nat.ne_of_lt hfit.root_lt), lookup?_opened]

end Globals

/-! ## Linked scopes -/

/-- Pairs of scopes, one of each of two tables. -/
abbrev Links := List (TypeScopeId × TypeScopeId)

namespace Links

/-- Two scopes are linked, or both are that of the whole metadata. -/
def Joins (links : Links) (scope scope' : TypeScopeId) : Prop :=
  scope = rootScope ∧ scope' = rootScope ∨ (scope, scope') ∈ links

/-- The scopes are there in a table, and none is that of the whole metadata. -/
def Within (links : Links) (table : TypeTable) : Prop :=
  ∀ scope scope', (scope, scope') ∈ links → scope ≠ rootScope ∧ scope < table.scopes.size

variable {links later : Links} {scope scope' : TypeScopeId} {table table' : TypeTable}

lemma Joins.mono (h : links.Joins scope scope') (hlater : links ⊆ later) : later.Joins scope scope' :=
  h.imp_right fun hmem => hlater hmem

lemma Within.grows {floor : ℕ} (h : links.Within table) (hgrows : table.Grows floor table') :
    links.Within table' :=
  fun scope scope' hmem => (h scope scope' hmem).imp_right fun hlt => Nat.lt_of_lt_of_le hlt hgrows.size_le

end Links

namespace Globals

/-- **Two tables in which linked scopes have the same names**, and in which the recorded types are known or
can be built. -/
structure Linked (g : Globals) (past : List Record) (links : Links)
    (table table' : TypeTable) : Prop where
  fit : g.Fit 1 table
  fit' : g.Fit 1 table'
  ready : g.Ready past table
  ready' : g.Ready past table'
  within : links.Within table
  within' : ∀ scope scope', (scope, scope') ∈ links → scope' ≠ rootScope ∧ scope' < table'.scopes.size
  unique : ∀ scope scope' other other', (scope, scope') ∈ links → (other, other') ∈ links →
    (scope = other ↔ scope' = other')
  lookup_eq : ∀ scope scope', (scope, scope') ∈ links → ∀ name,
    table'.lookup? scope' name = table.lookup? scope name
  parent : ∀ scope scope', (scope, scope') ∈ links → ∃ parent parent',
    table.parent? scope = some parent ∧ table'.parent? scope' = some parent' ∧ links.Joins parent parent'

namespace Linked

variable {g : Globals} {past : List Record} {links : Links} {table table' after after' : TypeTable}
  {scope scope' : TypeScopeId} {name : String} {entry : TypeEntry}

/-- No scopes have been opened yet. -/
lemma nil (hfit : g.Fit 1 table) (hfit' : g.Fit 1 table') (hready : g.Ready past table)
    (hready' : g.Ready past table') : g.Linked past [] table table' where
  fit := hfit
  fit' := hfit'
  ready := hready
  ready' := hready'
  within := nofun
  within' := nofun
  unique := nofun
  lookup_eq := nofun
  parent := nofun

lemma scope_lt (h : g.Linked past links table table') (hjoins : links.Joins scope scope') :
    scope < table.scopes.size := by
  rcases hjoins with ⟨rfl, rfl⟩ | hmem
  · exact h.fit.root_lt
  · exact (h.within scope scope' hmem).2

lemma scope_lt' (h : g.Linked past links table table') (hjoins : links.Joins scope scope') :
    scope' < table'.scopes.size := by
  rcases hjoins with ⟨rfl, rfl⟩ | hmem
  · exact h.fit'.root_lt
  · exact (h.within' scope scope' hmem).2

/-- A name is found in linked scopes, or it is searched in the scope of the whole metadata. -/
lemma nearest? (h : g.Linked past links table table') (hjoins : links.Joins scope scope')
    (name : String) :
    (∃ home home' entry, (home, home') ∈ links ∧ table.nearest? scope name = some (home, entry) ∧
      table'.nearest? scope' name = some (home', entry)) ∨
    table.nearest? scope name = table.nearest? rootScope name ∧
      table'.nearest? scope' name = table'.nearest? rootScope name := by
  induction scope using Nat.strongRecOn generalizing scope' with
  | _ scope ih =>
    rcases hjoins with ⟨rfl, rfl⟩ | hmem
    · exact .inr ⟨rfl, rfl⟩
    · have hscope := (h.within scope scope' hmem).2
      have hscope' := (h.within' scope scope' hmem).2
      rw [h.fit.nearest?_eq hscope, h.fit'.nearest?_eq hscope', h.lookup_eq scope scope' hmem]
      cases table.lookup? scope name with
      | some entry => exact .inl ⟨scope, scope', entry, hmem, rfl, rfl⟩
      | none =>
        obtain ⟨parent, parent', hparent, hparent', hjoins⟩ := h.parent scope scope' hmem
        rw [hparent, hparent']
        exact ih parent (h.fit.parent_lt scope parent hparent) hjoins

/-- A change of both tables that leaves linked scopes and declared names as they are. -/
lemma frame (h : g.Linked past links table table') (hfit : g.Fit 1 after) (hfit' : g.Fit 1 after')
    (hready : g.Ready past after) (hready' : g.Ready past after')
    (hgrows : table.Grows table.scopes.size after) (hgrows' : table'.Grows table'.scopes.size after') :
    g.Linked past links after after' where
  fit := hfit
  fit' := hfit'
  ready := hready
  ready' := hready'
  within := h.within.grows hgrows
  within' scope scope' hmem :=
    (h.within' scope scope' hmem).imp_right fun hlt => Nat.lt_of_lt_of_le hlt hgrows'.size_le
  unique := h.unique
  lookup_eq scope scope' hmem name := by
    obtain ⟨hroot, hlt⟩ := h.within scope scope' hmem
    obtain ⟨hroot', hlt'⟩ := h.within' scope scope' hmem
    rw [hgrows.frozen scope hroot hlt, hgrows'.frozen scope' hroot' hlt']
    exact h.lookup_eq scope scope' hmem name
  parent scope scope' hmem := by
    rw [hgrows.parent_eq scope (h.within scope scope' hmem).2,
      hgrows'.parent_eq scope' (h.within' scope scope' hmem).2]
    exact h.parent scope scope' hmem

lemma note (h : g.Linked past links table table') (notes : Notes) :
    g.Linked past links (table.note notes) (table'.note notes) :=
  h.frame (h.fit.note notes) (h.fit'.note notes) (h.ready.congr fun _ _ _ => rfl)
    (h.ready'.congr fun _ _ _ => rfl) (.note _ table notes) (.note _ table' notes)

/-- The entry of a name is set in linked scopes. -/
lemma setEntry (h : g.Linked past links table table') (hmem : (scope, scope') ∈ links)
    (hentry : entry = .inProgress ∨ ∃ t, entry = .built t) (name : String) :
    g.Linked past links (table.setEntry scope name entry) (table'.setEntry scope' name entry) where
  fit := h.fit.setEntry hentry fun hroot => absurd hroot (h.within scope scope' hmem).1
  fit' := h.fit'.setEntry hentry fun hroot => absurd hroot (h.within' scope scope' hmem).1
  ready := (sameNames_setEntry_of_ne (h.within scope scope' hmem).1 name entry).ready h.ready
  ready' := (sameNames_setEntry_of_ne (h.within' scope scope' hmem).1 name entry).ready h.ready'
  within other other' hother := by
    rw [size_setEntry]
    exact h.within other other' hother
  within' other other' hother := by
    rw [size_setEntry]
    exact h.within' other other' hother
  unique := h.unique
  lookup_eq other other' hother name' := by
    have hscope := (h.within scope scope' hmem).2
    have hscope' := (h.within' scope scope' hmem).2
    simp only [lookup?_setEntry, hscope, hscope', and_true, h.unique other other' scope scope' hother hmem,
      h.lookup_eq other other' hother]
  parent other other' hother := by
    rw [parent?_setEntry, parent?_setEntry]
    exact h.parent other other' hother

/-- A scope is opened inside both of two joined scopes, for the same names. -/
lemma entered (h : g.Linked past links table table') (hjoins : links.Joins scope scope')
    {entries : List (String × TypeSource)} (hentries : ∀ entry ∈ entries, g.Describes entry.2)
    (hnodup : (entries.map Prod.fst).Nodup) :
    g.Linked past ((table.scopes.size, table'.scopes.size) :: links)
      ((table.opened scope).entered table.scopes.size entries)
      ((table'.opened scope').entered table'.scopes.size entries) where
  fit := h.fit.entered (h.scope_lt hjoins) ((Nat.eq_zero_or_pos scope).imp id id) hentries
  fit' := h.fit'.entered (h.scope_lt' hjoins) ((Nat.eq_zero_or_pos scope').imp id id) hentries
  ready := (sameNames_entered h.fit scope entries).ready h.ready
  ready' := (sameNames_entered h.fit' scope' entries).ready h.ready'
  within other other' hother := by
    rw [size_entered, size_opened]
    rcases List.mem_cons.mp hother with heq | hother
    · cases heq
      exact ⟨Nat.ne_of_gt h.fit.root_lt, Nat.lt_succ_self _⟩
    · exact (h.within other other' hother).imp_right Nat.lt_succ_of_lt
  within' other other' hother := by
    rw [size_entered, size_opened]
    rcases List.mem_cons.mp hother with heq | hother
    · cases heq
      exact ⟨Nat.ne_of_gt h.fit'.root_lt, Nat.lt_succ_self _⟩
    · exact (h.within' other other' hother).imp_right Nat.lt_succ_of_lt
  unique first first' second second' hfirst hsecond := by
    rcases List.mem_cons.mp hfirst with heq | hfirst <;> rcases List.mem_cons.mp hsecond with heq' | hsecond
    · cases heq
      cases heq'
      simp
    · cases heq
      have hne := Nat.ne_of_gt (h.within second second' hsecond).2
      have hne' := Nat.ne_of_gt (h.within' second second' hsecond).2
      exact iff_of_false hne hne'
    · cases heq'
      have hne := Nat.ne_of_lt (h.within first first' hfirst).2
      have hne' := Nat.ne_of_lt (h.within' first first' hfirst).2
      exact iff_of_false hne hne'
    · exact h.unique first first' second second' hfirst hsecond
  lookup_eq other other' hother name := by
    rcases List.mem_cons.mp hother with heq | hother
    · cases heq
      by_cases hname : name ∈ entries.map Prod.fst
      · obtain ⟨⟨_, source⟩, hentry, rfl⟩ := List.mem_map.mp hname
        rw [lookup?_entered_of_mem (by simp) hnodup hentry, lookup?_entered_of_mem (by simp) hnodup hentry]
      · rw [lookup?_entered_of_notMem hname, lookup?_entered_of_notMem hname, lookup?_opened, lookup?_opened,
          lookup?_eq_none _ _ _ (Nat.le_refl _), lookup?_eq_none _ _ _ (Nat.le_refl _)]
    · rw [lookup?_entered_of_ne _ _ _ (Nat.ne_of_lt (h.within other other' hother).2),
        lookup?_entered_of_ne _ _ _ (Nat.ne_of_lt (h.within' other other' hother).2), lookup?_opened,
        lookup?_opened]
      exact h.lookup_eq other other' hother name
  parent other other' hother := by
    simp only [parent?_entered, parent?_opened]
    rcases List.mem_cons.mp hother with heq | hother
    · cases heq
      exact ⟨scope, scope', if_pos rfl, if_pos rfl, hjoins.mono (List.subset_cons_self _ _)⟩
    · obtain ⟨parent, parent', hparent, hparent', hjoins'⟩ := h.parent other other' hother
      rw [if_neg (Nat.ne_of_lt (h.within other other' hother).2),
        if_neg (Nat.ne_of_lt (h.within' other other' hother).2)]
      exact ⟨parent, parent', hparent, hparent', hjoins'.mono (List.subset_cons_self _ _)⟩

end Linked

end Globals

end CommonTrace
