import CommonTrace.Proofs.Schema.LinkedTables

/-!
# Building types again

What has been built once is built again from any other table in which the types that were used are known or
can still be built (`Globals.Justified.reusable`).  The types are the same, and so is what is noted for them:
what other runs have already noted for a type that is now known is counted once (`net`).

This is shown by induction on the records, and for each of them by comparing the run that justifies it with
the new one, step by step (`Globals.replaying`).
-/

namespace CommonTrace

open Tsdl TypeTable

/-! ## Notes -/

section Net

variable {g : Globals} {known past : List Record} {floor : ℕ} {table table' : TypeTable} {name : String}

/-- What is known of a name that is found as before. -/
lemma net_sub_net_of_sameNames (hknown : g.Justified known) (h : g.SameNames table table') :
    net known table' - net known table = table'.log - table.log := by
  have hpaid : paid known table' = paid known table :=
    paid_congr fun record hrecord => knows_congr (h record.name (hknown.mem_names hrecord))
  rw [net, net, hpaid]
  abel

/-- How often each note is among those that are added. -/
def Notes.log (notes : Notes) : Note → ℤ := fun note =>
  (notes.clocks.toList.map Note.clock ++ notes.warnings.toList.map Note.warning).count note

lemma net_note (known : List Record) (table : TypeTable) (notes : Notes) :
    net known (table.note notes) - net known table = notes.log := by
  have hpaid : paid known (table.note notes) = paid known table := paid_congr fun _ _ => knows_congr rfl
  have hlog : (table.note notes).log = table.log + notes.log := by
    funext note
    simp only [TypeTable.log, Notes.log, Pi.add_apply, TypeTable.note, Array.toList_append, List.map_append,
      List.count_append]
    omega
  rw [net, net, hpaid, hlog]
  abel

end Net

/-! ## Steps that do the same -/

/-- The outcomes of a step that has been recorded and of a step that repeats it.  Nothing is said if the first
one fails, or if it comes to know types without a record. -/
inductive TypeM.Replayed {α : Type} (g : Globals) (known past : List Record) (links : Links)
    (table table' : TypeTable) (P : Links → α → α → Prop) :
    Except SchemaError (α × TypeTable) → Except SchemaError (α × TypeTable) → Prop
  | failed {e : SchemaError} {y : Except SchemaError (α × TypeTable)} :
      Replayed g known past links table table' P (.error e) y
  | unsettled {a : α} {after : TypeTable} {y : Except SchemaError (α × TypeTable)}
      (h : ¬ g.Settled past after) : Replayed g known past links table table' P (.ok (a, after)) y
  | stopped {x : Except SchemaError (α × TypeTable)} :
      Replayed g known past links table table' P x (.error .chainTooLong)
  | ok {later : Links} {a b : α} {after after' : TypeTable} (hlater : links ⊆ later)
      (hlinked : g.Linked past later after after') (hkept : g.Kept past table' after')
      (hnet : net known after' - net known table' = net known after - net known table) (hP : P later a b) :
      Replayed g known past links table table' P (.ok (a, after)) (.ok (b, after'))

/-- Steps that follow each other are repeated one after the other. -/
lemma TypeM.Replayed.bind {α β : Type} {g : Globals} {known past : List Record} {links : Links}
    {table table' : TypeTable} {x y : TypeM α} {P : Links → α → α → Prop} {next next' : α → TypeM β}
    {Q : Links → β → β → Prop} (h : TypeM.Replayed g known past links table table' P (x table) (y table'))
    (hsettled : ∀ a middle b after, x table = .ok (a, middle) → next a middle = .ok (b, after) →
      g.Settled past after → g.Settled past middle)
    (hnext : ∀ later a b middle middle', x table = .ok (a, middle) → links ⊆ later →
      g.Linked past later middle middle' → P later a b →
      TypeM.Replayed g known past later middle middle' Q (next a middle) (next' b middle')) :
    TypeM.Replayed g known past links table table' Q ((x >>= next) table) ((y >>= next') table') := by
  change TypeM.Replayed g known past links table table' Q (x table >>= fun r => next r.1 r.2)
    (y table' >>= fun r => next' r.1 r.2)
  generalize x table = first, y table' = first' at h hsettled hnext
  cases h with
  | failed => exact .failed
  | @unsettled a middle _ hunsettled =>
    change TypeM.Replayed g known past links table table' Q (next a middle) _
    cases hrest : next a middle with
    | error e => exact .failed
    | ok r => exact .unsettled fun hafter => hunsettled (hsettled a middle r.1 r.2 rfl hrest hafter)
  | stopped => exact .stopped
  | @ok later a b middle middle' hlater hmiddle hkept hnet hP =>
    have hrest := hnext later a b middle middle' rfl hlater hmiddle hP
    change TypeM.Replayed g known past links table table' Q (next a middle) (next' b middle')
    generalize next a middle = second, next' b middle' = second' at hrest
    cases hrest with
    | failed => exact .failed
    | unsettled hunsettled => exact .unsettled hunsettled
    | stopped => exact .stopped
    | ok hlast hlinked' hkept' hnet' hQ =>
      refine .ok (List.Subset.trans hlater hlast) hlinked' (hkept.trans hkept') ?_ hQ
      rw [← sub_add_sub_cancel, hnet', hnet, sub_add_sub_cancel]

/-- A step that lets the table grow, and a step that repeats it. -/
structure TypeM.Replays {α : Type} (g : Globals) (known past : List Record) (links : Links)
    (x y : TypeM α) (P : Links → α → α → Prop) : Prop where
  grows : ∀ table, g.Fit 1 table → links.Within table → ∀ a after, x table = .ok (a, after) →
    g.Fit 1 after ∧ table.Grows 1 after ∧ ∃ later b, links ⊆ later ∧ later.Within after ∧ P later a b
  replayed : ∀ table table', g.Linked past links table table' →
    TypeM.Replayed g known past links table table' P (x table) (y table')

/-- **A step and a step that repeats it**, from tables with linked scopes.  Known are the links. -/
def Globals.replaying (g : Globals) (known past : List Record) : Comparison where
  World := Links
  Later first second := first ⊆ second
  Holds links x y P := TypeM.Replays g known past links x y P
  later_refl := List.Subset.refl
  later_trans := List.Subset.trans
  pure {_ links a b P} h :=
    { grows := by
        rintro table hfit hwithin _ _ ⟨⟩
        exact ⟨hfit, .refl 1 table, links, b, List.Subset.refl links, hwithin, h⟩
      replayed := fun table table' hlinked =>
        .ok (List.Subset.refl links) hlinked (.refl table') (by rw [sub_self, sub_self]) h }
  throw _ :=
    { grows := nofun
      replayed := fun _ _ _ => .failed }
  bind {α β links x y P next next' Q} h hnext :=
    { grows := by
        intro table hfit hwithin b after hok
        obtain ⟨⟨a, middle⟩, hfirst, hrest⟩ := exists_of_bind_eq_ok hok
        obtain ⟨hmiddle, hgrows, later, a', hlater, hwithin', hP⟩ :=
          h.grows table hfit hwithin a middle hfirst
        obtain ⟨hafter, hgrows', last, b', hlast, hwithin'', hQ⟩ :=
          (hnext later a a' hlater hP).grows middle hmiddle hwithin' b after hrest
        exact ⟨hafter, hgrows.trans hgrows', last, b', List.Subset.trans hlater hlast, hwithin'', hQ⟩
      replayed := by
        intro table table' hlinked
        refine (h.replayed table table' hlinked).bind (fun a middle b after hfirst hrest hsettled => ?_)
          fun later a b middle middle' _ hlater hmiddle hP =>
            (hnext later a b hlater hP).replayed middle middle' hmiddle
        obtain ⟨hmiddle, -, later, a', hlater, hwithin, hP⟩ :=
          h.grows table hlinked.fit hlinked.within a middle hfirst
        obtain ⟨-, hgrows, -⟩ := (hnext later a a' hlater hP).grows middle hmiddle hwithin b after hrest
        exact hsettled.of_grows hmiddle hgrows }
  nameless {α links step} h :=
    { grows := by
        intro table hfit hwithin a after hok
        obtain ⟨outcome, -, hstep⟩ := h
        rw [hstep] at hok
        cases houtcome : outcome table.native with
        | error e =>
          rw [houtcome] at hok
          cases hok
        | ok r =>
          rw [houtcome] at hok
          cases hok
          exact ⟨hfit.note r.2, .note 1 table r.2, links, _, List.Subset.refl links, hwithin, rfl⟩
      replayed := by
        intro table table' hlinked
        obtain ⟨outcome, -, hstep⟩ := h
        rw [hstep, hstep, hlinked.fit.native_eq, hlinked.fit'.native_eq]
        cases outcome g.native with
        | error e => exact .failed
        | ok r =>
          refine .ok (List.Subset.refl links) (hlinked.note r.2) (.refl table') ?_ rfl
          rw [net_note, net_note] }

/-! ## Names -/

namespace Globals

variable {g : Globals} {known past : List Record} {floor : ℕ} {table after : TypeTable} {name : String}

/-- A name is searched in the scope of the whole metadata alone. -/
lemma Fit.nearest?_root (h : g.Fit floor table) (name : String) :
    table.nearest? rootScope name = (table.lookup? rootScope name).map (rootScope, ·) := by
  rw [h.nearest?_eq h.root_lt, h.parent_root, Option.bind_none, Option.or_none]

/-- A compound type becomes known beside the declared names, which are not touched. -/
lemma Fit.withBuilt_root (h : g.Fit 1 table) (hbrought : g.Brought name) (t : FieldType) :
    g.Fit 1 (table.withBuilt rootScope name t) ∧ g.SameNames table (table.withBuilt rootScope name t) ∧
      table.Grows table.scopes.size (table.withBuilt rootScope name t) ∧
      (table.withBuilt rootScope name t).log = table.log := by
  cases hlookup : table.lookup? rootScope name with
  | some entry =>
    rw [withBuilt_of_some t hlookup]
    exact ⟨h, fun _ _ => rfl, .refl _ table, rfl⟩
  | none =>
    rw [withBuilt_of_none t hlookup]
    have hnotMem : name ∉ g.names := fun hname => by
      have hsome := h.isSome_of_mem hname
      rw [hlookup] at hsome
      cases hsome
    refine ⟨h.setEntry (.inr ⟨t, rfl⟩) fun _ _ => ⟨⟨t, rfl⟩, hbrought⟩, sameNames_setEntry_of_notMem hnotMem _,
      .setEntry (.inl rfl) ?_, rfl⟩
    rw [hlookup]
    exact .brought t

/-- What is left of a table when a recorded type has been built again. -/
structure Resettled (g : Globals) (known past : List Record) (table after : TypeTable) : Prop where
  fit : g.Fit 1 after
  ready : g.Ready past after
  kept : g.Kept past table after
  net_eq : net known after = net known table

/-- Types with a record can be built again, unless that takes too many steps. -/
def Reusable (g : Globals) (known past : List Record) : Prop :=
  ∀ record ∈ past, ∀ (depth : ℕ) (table : TypeTable), g.Fit 1 table → g.Ready past table →
    TypeM.resolveNamed (TypeM.buildSpecifiers depth) rootScope record.name table = .error .chainTooLong ∨
      ∃ after, TypeM.resolveNamed (TypeM.buildSpecifiers depth) rootScope record.name table =
        .ok (record.type, after) ∧ g.Resettled known past table after

/-- No specifiers refer to a compound type that is described inside a definition beside the blocks, unless
its name is declared there as well. -/
def Overt (g : Globals) : Prop :=
  ∀ specifiers, g.root.Contains specifiers → specifiers.kind = .typeSpecifierList →
    ∀ name, specifiers.Refers name → g.Brought name → name ∈ g.names

end Globals

namespace TypeM

variable {g : Globals} {known past : List Record} {links : Links} {depth depth' : ℕ}
  {table table' after : TypeTable} {scope scope' home home' : TypeScopeId} {name : String}
  {specifiers specifiers' body body' : Node}

lemma resolveNamed_eq_of_nearest? {build : TypeScopeId → Node → TypeM FieldType}
    (h : table.nearest? scope name = table.nearest? scope' name) :
    resolveNamed build scope name table = resolveNamed build scope' name table := by
  cases hnearest : table.nearest? scope' name with
  | none => rw [resolveNamed_of_none hnearest, resolveNamed_of_none (h.trans hnearest)]
  | some found =>
    obtain ⟨home, entry⟩ := found
    cases entry with
    | inProgress => rw [resolveNamed_of_inProgress hnearest, resolveNamed_of_inProgress (h.trans hnearest)]
    | built t => rw [resolveNamed_of_built hnearest, resolveNamed_of_built (h.trans hnearest)]
    | pending source => rw [resolveNamed_of_pending hnearest, resolveNamed_of_pending (h.trans hnearest)]

/-- The scopes that are there are frozen when a name of the whole metadata is resolved. -/
lemma frozen_of_resolveNamed {t : FieldType} (hfit : g.Fit 1 table)
    (hok : resolveNamed (buildSpecifiers depth) rootScope name table = .ok (t, after)) :
    g.Fit 1 after ∧ table.Grows table.scopes.size after := by
  obtain ⟨hafter, hgrows, -⟩ := grows_of_resolveNamed hfit.freeze hfit.root_lt (.inl rfl) hok
  exact ⟨hafter.thaw, hgrows⟩

/-- The type of a name is known when it has been resolved. -/
lemma lookup?_of_resolveNamed {t : FieldType} (hfit : g.Fit 1 table)
    (hok : resolveNamed (buildSpecifiers depth) rootScope name table = .ok (t, after)) :
    after.lookup? rootScope name = some (.built t) := by
  have hafter := (frozen_of_resolveNamed hfit hok).1.root_lt
  have hnearest := hfit.nearest?_root name
  cases hlookup : table.lookup? rootScope name with
  | none =>
    rw [hlookup] at hnearest
    rw [resolveNamed_of_none hnearest] at hok
    cases hok
  | some entry =>
    rw [hlookup] at hnearest
    cases entry with
    | inProgress =>
      rw [resolveNamed_of_inProgress hnearest] at hok
      cases hok
    | built t =>
      rw [resolveNamed_of_built hnearest] at hok
      cases hok
      exact hlookup
    | pending source =>
      rw [resolveNamed_of_pending hnearest] at hok
      obtain ⟨r, -, hr⟩ := exists_of_bind_eq_ok hok
      cases hr
      rw [size_setEntry] at hafter
      rw [lookup?_setEntry, if_pos ⟨rfl, rfl, hafter⟩]

/-- Specifiers of the tree, in joined scopes. -/
structure Copied (g : Globals) (links : Links) (scope scope' : TypeScopeId)
    (specifiers specifiers' : Node) :
    Prop where
  specifiers_eq : specifiers = specifiers'
  joins : links.Joins scope scope'
  contains : g.root.Contains specifiers
  kind_eq : specifiers.kind = .typeSpecifierList
  brings : scope = rootScope → ∀ name, specifiers.Brings name → g.Brought name

/-- A body of the tree that has been opened as linked scopes. -/
structure CopiedBody (g : Globals) (links : Links) (scope scope' : TypeScopeId)
    (body body' : Node) : Prop where
  body_eq : body = body'
  scope_ne : scope ≠ rootScope
  linked : (scope, scope') ∈ links
  contains : g.root.Contains body

lemma Copied.placed (h : Copied g links scope scope' specifiers specifiers') (hfit : g.Fit 1 table)
    (hwithin : links.Within table) : Placed g 1 ⟨table, hfit⟩ scope scope specifiers specifiers where
  scope_eq := rfl
  specifiers_eq := rfl
  scope_lt := by
    rcases h.joins with ⟨rfl, rfl⟩ | hmem
    · exact hfit.root_lt
    · exact (hwithin scope scope' hmem).2
  floor_le := (Nat.eq_zero_or_pos scope).imp id id
  contains := h.contains
  kind_eq := h.kind_eq
  brings := h.brings

/-- A step that is known to let the table grow. -/
lemma Replays.of_growing {α : Type} {x y : TypeM α}
    (hgrowing : ∀ table, g.Fit 1 table → links.Within table → ∀ a after, x table = .ok (a, after) →
      g.Fit 1 after ∧ table.Grows 1 after ∧ g.Extends table after)
    (hreplayed : ∀ table table', g.Linked past links table table' →
      Replayed g known past links table table' (fun _ a b => a = b) (x table) (y table')) :
    Replays g known past links x y fun _ a b => a = b where
  grows table hfit hwithin a after hok := by
    obtain ⟨hafter, hgrows, -⟩ := hgrowing table hfit hwithin a after hok
    exact ⟨hafter, hgrows, links, a, List.Subset.refl links, hwithin.grows hgrows, rfl⟩
  replayed := hreplayed

lemma net_setEntry_of_ne (hknown : g.Justified known) (hscope : scope ≠ rootScope) (entry : TypeEntry) :
    net known (table.setEntry scope name entry) = net known table := by
  have hsame : g.SameNames table (table.setEntry scope name entry) :=
    Globals.sameNames_setEntry_of_ne hscope name entry
  have hsame := net_sub_net_of_sameNames hknown hsame
  rwa [log_setEntry, sub_self, sub_eq_zero] at hsame

section Resolve

variable (hknown : g.Justified known) (hbuild : ∀ {links scope scope' specifiers specifiers'},
  Copied g links scope scope' specifiers specifiers' →
    (g.replaying known past).Same links (buildSpecifiers depth scope specifiers)
      (buildSpecifiers depth' scope' specifiers'))

include hknown hbuild

/-- A name that is found in linked scopes is resolved in both. -/
lemma replayed_resolveNamed_of_linked (hlinked : g.Linked past links table table')
    (hmem : (home, home') ∈ links) {entry : TypeEntry}
    (hnearest : table.nearest? scope name = some (home, entry))
    (hnearest' : table'.nearest? scope' name = some (home', entry)) :
    Replayed g known past links table table' (fun _ a b => a = b)
      (resolveNamed (buildSpecifiers depth) scope name table)
      (resolveNamed (buildSpecifiers depth') scope' name table') := by
  have hne := (hlinked.within home home' hmem).1
  have hne' := (hlinked.within' home home' hmem).1
  cases entry with
  | inProgress =>
    rw [resolveNamed_of_inProgress hnearest]
    exact .failed
  | built t =>
    rw [resolveNamed_of_built hnearest, resolveNamed_of_built hnearest']
    exact .ok (List.Subset.refl links) hlinked (.refl table') (by rw [sub_self, sub_self]) rfl
  | pending source =>
    rw [resolveNamed_of_pending hnearest, resolveNamed_of_pending hnearest']
    have hdescribes := hlinked.fit.source _ _ _ (lookup?_of_nearest? hnearest)
    have hcopied : Copied g links home home' source.specifiers source.specifiers :=
      ⟨rfl, .inr hmem, hdescribes.1, hdescribes.2, fun hroot => absurd hroot hne⟩
    have hbuilt := (Comparison.buildType .eq (hbuild hcopied)
      (Comparison.rel_eq_refl source.declarator)).replayed _ _ (hlinked.setEntry hmem (.inl rfl) name)
    generalize buildType (buildSpecifiers depth) home source.specifiers source.declarator
      (table.setEntry home name .inProgress) = first, buildType (buildSpecifiers depth') home'
      source.specifiers source.declarator (table'.setEntry home' name .inProgress) = second at hbuilt ⊢
    cases hbuilt with
    | failed => exact .failed
    | unsettled hunsettled =>
      refine .unsettled fun hsettled => hunsettled ?_
      exact hsettled.congr (Globals.sameNames_setEntry_of_ne hne name _).symm
    | stopped => exact .stopped
    | @ok later t _ after after' hlater hafter hkept hnet heq =>
      subst heq
      refine .ok hlater (hafter.setEntry (hlater hmem) (.inr ⟨t, rfl⟩) name) ?_ ?_ rfl
      · exact ((Globals.sameNames_setEntry_of_ne hne' name _).kept.trans hkept).trans
          (Globals.sameNames_setEntry_of_ne hne' name _).kept
      · rw [net_setEntry_of_ne hknown hne', net_setEntry_of_ne hknown hne]
        rwa [net_setEntry_of_ne hknown hne', net_setEntry_of_ne hknown hne] at hnet

omit hknown hbuild in
/-- A declared name is resolved as it has been recorded. -/
lemma replayed_resolveNamed_root (hreusable : g.Reusable known past)
    (hlinked : g.Linked past links table table') (hname : g.Brought name → name ∈ g.names) :
    Replayed g known past links table table' (fun _ a b => a = b)
      (resolveNamed (buildSpecifiers depth) rootScope name table)
      (resolveNamed (buildSpecifiers depth') rootScope name table') := by
  cases hok : resolveNamed (buildSpecifiers depth) rootScope name table with
  | error e => exact .failed
  | ok r =>
    obtain ⟨t, after⟩ := r
    obtain ⟨hafter, hgrows⟩ := frozen_of_resolveNamed hlinked.fit hok
    have hlookup := lookup?_of_resolveNamed hlinked.fit hok
    by_cases hsettled : g.Settled past after
    · have hdeclared : name ∈ g.names := by
        by_contra hnotMem
        exact hnotMem (hname (hafter.other name _ hnotMem hlookup).2)
      obtain ⟨record, hrecord, rfl, rfl⟩ := hsettled name hdeclared t hlookup
      rcases hreusable record hrecord depth table hlinked.fit hlinked.ready with
        hstopped | ⟨_, hagain, hresettled⟩
      · rw [hok] at hstopped
        cases hstopped
      rw [hok] at hagain
      cases hagain
      rcases hreusable record hrecord depth' table' hlinked.fit' hlinked.ready' with
        hstopped | ⟨after', hok', hresettled'⟩
      · rw [hstopped]
        exact .stopped
      · rw [hok']
        refine .ok (List.Subset.refl links) ?_ hresettled'.kept ?_ rfl
        · exact hlinked.frame hafter hresettled'.fit hresettled.ready hresettled'.ready hgrows
            (frozen_of_resolveNamed hlinked.fit' hok').2
        · rw [hresettled.net_eq, hresettled'.net_eq, sub_self, sub_self]
    · exact .unsettled hsettled

/-- A name is resolved in joined scopes. -/
lemma replayed_resolveNamed (hreusable : g.Reusable known past)
    (hlinked : g.Linked past links table table')
    (hjoins : links.Joins scope scope') (hname : g.Brought name → name ∈ g.names) :
    Replayed g known past links table table' (fun _ a b => a = b)
      (resolveNamed (buildSpecifiers depth) scope name table)
      (resolveNamed (buildSpecifiers depth') scope' name table') := by
  rcases hlinked.nearest? hjoins name with
    ⟨home, home', entry, hmem, hnearest, hnearest'⟩ | ⟨hnearest, hnearest'⟩
  · exact replayed_resolveNamed_of_linked hknown hbuild hlinked hmem hnearest hnearest'
  · rw [resolveNamed_eq_of_nearest? hnearest, resolveNamed_eq_of_nearest? hnearest']
    exact replayed_resolveNamed_root hreusable hlinked hname

/-- All names of linked scopes are resolved. -/
lemma replayed_resolveEach (hmem : (scope, scope') ∈ links) (hlinked : g.Linked past links table table')
    {names : List String} (hnames : ∀ name ∈ names, (table.lookup? scope name).isSome = true) :
    Replayed g known past links table table' (fun _ a b => a = b)
      (resolveEach (buildSpecifiers depth) scope names table)
      (resolveEach (buildSpecifiers depth') scope' names table') := by
  induction names generalizing links table table' with
  | nil => exact .ok (List.Subset.refl links) hlinked (.refl table') (by rw [sub_self, sub_self]) rfl
  | cons name rest ih =>
    have hscope := (hlinked.within scope scope' hmem).2
    have hfloor : scope = rootScope ∨ 1 ≤ scope := (Nat.eq_zero_or_pos scope).imp id id
    have hfirst : Replayed g known past links table table' (fun _ a b => a = b)
        (resolveNamed (buildSpecifiers depth) scope name table)
        (resolveNamed (buildSpecifiers depth') scope' name table') := by
      obtain ⟨entry, hentry⟩ := Option.isSome_iff_exists.mp (hnames name List.mem_cons_self)
      have hentry' := (hlinked.lookup_eq scope scope' hmem name).trans hentry
      have hnearest : table.nearest? scope name = some (scope, entry) := by
        rw [hlinked.fit.nearest?_eq hscope, hentry]
        rfl
      refine replayed_resolveNamed_of_linked hknown hbuild hlinked hmem hnearest ?_
      rw [hlinked.fit'.nearest?_eq (hlinked.within' scope scope' hmem).2, hentry']
      rfl
    rw [resolveEach_cons, resolveEach_cons]
    refine hfirst.bind (fun _ middle _ after hmiddle hafter hsettled => ?_)
      fun later _ _ middle middle' hmiddle hlater hlinked' _ =>
        ih (hlater hmem) hlinked' fun name' hname' => ?_
    · obtain ⟨hfit, hgrows, -⟩ := grows_of_resolveNamed hlinked.fit hscope hfloor hmiddle
      have hlt := Nat.lt_of_lt_of_le hscope hgrows.size_le
      exact hsettled.of_grows hfit (grows_of_resolveEach hfit hlt hfloor hafter).2.1
    · obtain ⟨-, hgrows, -⟩ := grows_of_resolveNamed hlinked.fit hscope hfloor hmiddle
      exact (hgrows.evolves scope hscope name').isSome (hnames name' (List.mem_cons_of_mem _ hname'))

lemma replaying_resolveAll (hmem : (scope, scope') ∈ links) :
    (g.replaying known past).Same links (resolveAll (resolveNamed (buildSpecifiers depth)) scope)
      (resolveAll (resolveNamed (buildSpecifiers depth')) scope') := by
  refine .of_growing (fun table hfit hwithin _ after hok => ?_) fun table table' hlinked => ?_
  · exact grows_of_resolveEach hfit (hwithin scope scope' hmem).2
      ((Nat.eq_zero_or_pos scope).imp id id) hok
  · have hnames : table.names scope = table'.names scope' :=
      hlinked.fit.names_eq hlinked.fit'.toOrdered fun name => by rw [hlinked.lookup_eq scope scope' hmem]
    rw [resolveAll_apply, resolveAll_apply, ← hnames]
    exact replayed_resolveEach hknown hbuild hmem hlinked fun name => hlinked.fit.mem_names_iff.mp

omit hbuild in
/-- A body is opened inside joined scopes. -/
lemma replaying_openBody (hjoins : links.Joins scope scope') (hbody : g.root.Contains body) :
    (g.replaying known past).Holds links (Comparison.openBody scope body)
    (Comparison.openBody scope' body)
      fun later t t' => CopiedBody g later t t' body body where
  grows table hfit hwithin opened after hok := by
    have hlt : scope < table.scopes.size := by
      rcases hjoins with ⟨rfl, rfl⟩ | hmem
      · exact hfit.root_lt
      · exact (hwithin scope scope' hmem).2
    have hgrown : (g.growing 1).Holds ⟨table, hfit⟩ (Comparison.openBody scope body)
        (Comparison.openBody scope body) _ :=
      growing_openBody hlt ((Nat.eq_zero_or_pos scope).imp id id) hbody
    obtain ⟨hafter, hgrows, -⟩ := Grown.of_ok hgrown hok
    obtain ⟨rfl, declared, -, -, rfl⟩ := Comparison.openBody_eq_ok_iff.mp hok
    refine ⟨hafter, hgrows, (table.scopes.size, 1) :: links, 1, List.subset_cons_self _ _, ?_,
      ⟨rfl, Nat.ne_of_gt hfit.root_lt, List.mem_cons_self, hbody⟩⟩
    intro other other' hother
    rcases List.mem_cons.mp hother with heq | hother
    · cases heq
      exact ⟨Nat.ne_of_gt hfit.root_lt, by simp⟩
    · exact hwithin.grows hgrows other other' hother
  replayed table table' hlinked := by
    cases hopen : Comparison.openBody scope body table with
    | error e => exact .failed
    | ok r =>
      obtain ⟨opened, after⟩ := r
      obtain ⟨rfl, declared, hdeclared, hnodup, rfl⟩ := Comparison.openBody_eq_ok_iff.mp hopen
      have hopen' := Comparison.openBody_eq_ok_iff.mpr
        ⟨rfl, declared, hdeclared, hnodup, (rfl : _ = (table'.opened scope').entered table'.scopes.size _)⟩
      have hentries : ∀ entry ∈ declared.flatten, g.Describes entry.2 := fun entry hentry =>
        ⟨.declared_flatten (fun node hnode => hbody.of_mem hnode) hdeclared hentry,
          Node.kind_of_declared hdeclared hentry⟩
      rw [hopen']
      refine .ok (List.subset_cons_self _ _) (hlinked.entered hjoins hentries hnodup)
        (Globals.sameNames_entered hlinked.fit' scope' _).kept ?_
        ⟨rfl, Nat.ne_of_gt hlinked.fit.root_lt, List.mem_cons_self, hbody⟩
      rw [net_sub_net_of_sameNames hknown (Globals.sameNames_entered hlinked.fit scope _),
        net_sub_net_of_sameNames hknown (Globals.sameNames_entered hlinked.fit' scope' _)]
      simp

omit hbuild in
/-- A compound type becomes known in joined scopes. -/
lemma replaying_enterBuilt (h : Copied g links scope scope' specifiers specifiers')
    (hname : specifiers.Introduces name) (t : FieldType) :
    (g.replaying known past).Same links (enterBuilt scope name t) (enterBuilt scope' name t) := by
  refine .of_growing (fun table hfit hwithin _ after hok => ?_) fun table table' hlinked => ?_
  · have hself : (g.growing 1).Same ⟨table, hfit⟩ (enterBuilt scope name t) (enterBuilt scope name t) :=
      growing_enterBuilt ((Nat.eq_zero_or_pos scope).imp id id) h.brings hname t
    exact Grown.of_ok hself hok
  change Replayed g known past links table table' _ (.ok ((), table.withBuilt scope name t))
    (.ok ((), table'.withBuilt scope' name t))
  rcases h.joins with ⟨rfl, rfl⟩ | hmem
  · have hbrought := h.brings rfl name (.own hname)
    obtain ⟨hfit, hsame, hgrows, hlog⟩ := hlinked.fit.withBuilt_root hbrought t
    obtain ⟨hfit', hsame', hgrows', hlog'⟩ := hlinked.fit'.withBuilt_root hbrought t
    refine .ok (List.Subset.refl links) (hlinked.frame hfit hfit' (hsame.ready hlinked.ready)
      (hsame'.ready hlinked.ready') hgrows hgrows') hsame'.kept ?_ rfl
    rw [net_sub_net_of_sameNames hknown hsame, net_sub_net_of_sameNames hknown hsame', hlog, hlog', sub_self,
      sub_self]
  · rw [TypeTable.withBuilt, TypeTable.withBuilt, hlinked.lookup_eq scope scope' hmem]
    have hne := (hlinked.within scope scope' hmem).1
    have hne' := (hlinked.within' scope scope' hmem).1
    split
    · exact .ok (List.Subset.refl links) hlinked (.refl table') (by rw [sub_self, sub_self]) rfl
    · refine .ok (List.Subset.refl links) (hlinked.setEntry hmem (.inr ⟨t, rfl⟩) name)
        (Globals.sameNames_setEntry_of_ne hne' name _).kept ?_ rfl
      rw [net_setEntry_of_ne hknown hne, net_setEntry_of_ne hknown hne', sub_self, sub_self]

lemma grounds_replaying (hreusable : g.Reusable known past) (hovert : g.Overt) :
    Comparison.Grounds (g.replaying known past) Eq (resolveNamed (buildSpecifiers depth))
      (resolveNamed (buildSpecifiers depth')) (buildSpecifiers depth) (buildSpecifiers depth')
      (Copied g) (Copied g) (CopiedBody g) where
  like := .eq
  outer_like h := ⟨h.specifiers_eq, h.kind_eq⟩
  outer_later hlater h := { h with joins := h.joins.mono hlater }
  inside_later hlater h := { h with linked := hlater h.linked }
  built h := hbuild h
  resolved := by
    rintro links s s' n n' name h hrefers
    refine .of_growing (fun table hfit hwithin _ after hok => ?_) fun table table' hlinked => ?_
    · have hplaced := h.placed hfit hwithin
      exact grows_of_resolveNamed hfit hplaced.scope_lt hplaced.floor_le hok
    · exact replayed_resolveNamed hknown hbuild hreusable hlinked h.joins
        (hovert n h.contains h.kind_eq name hrefers)
  resolvedAll h := replaying_resolveAll hknown hbuild h.linked
  known t h hname := replaying_enterBuilt hknown h hname t
  container := by
    rintro links s s' n n' c c' ⟨rfl, hjoins, hcontains, -, hbrings⟩ hc - rfl
    exact ⟨rfl, hjoins, hcontains.container hc, hc.kind_eq,
      fun hroot name hname => hbrings hroot name (.container hc hname)⟩
  body := by
    rintro links s s' n n' b b' ⟨rfl, hjoins, hcontains, -, -⟩ hb - rfl
    exact replaying_openBody hknown hjoins (hcontains.body hb)
  member := by
    rintro links s s' b b' m m' ⟨rfl, hne, hlinked, hcontains⟩ hm - rfl
    exact ⟨rfl, .inr hlinked, hcontains.member hm, hm.kind_eq, fun hroot => absurd hroot hne⟩

end Resolve

/-- **Building types is repeated.** -/
theorem replaying_buildSpecifiers (hknown : g.Justified known) (hreusable : g.Reusable known past)
    (hovert : g.Overt) (depth depth' : ℕ) (h : Copied g links scope scope' specifiers specifiers') :
    (g.replaying known past).Same links (buildSpecifiers depth scope specifiers)
      (buildSpecifiers depth' scope' specifiers') := by
  induction depth generalizing links depth' scope scope' specifiers specifiers' with
  | zero => exact ⟨nofun, fun _ _ _ => .failed⟩
  | succ depth ih =>
    cases depth' with
    | zero =>
      refine .of_growing (fun table hfit hwithin _ after hok => ?_) fun table table' hlinked => .stopped
      have hplaced := h.placed hfit hwithin
      have hself : (g.growing 1).Same ⟨table, hfit⟩ (buildSpecifiers (depth + 1) scope specifiers)
          (buildSpecifiers (depth + 1) scope specifiers) :=
        growing_buildSpecifiers (depth + 1) { hplaced with specifiers_eq := rfl }
      exact Grown.of_ok hself hok
    | succ depth' =>
      have G : Comparison.Grounds (g.replaying known past) Eq (resolveNamed (buildSpecifiers depth))
          (resolveNamed (buildSpecifiers depth')) (buildSpecifiers depth) (buildSpecifiers depth')
          (Copied g) (Copied g) (CopiedBody g) :=
        grounds_replaying hknown (fun h => ih depth' h) hreusable hovert
      exact G.interpret h

end TypeM

namespace Globals

variable {g : Globals} {known past : List Record} {record : Record} {table table' after : TypeTable}

lemma Reusable.nil : g.Reusable known [] :=
  nofun

/-- If no types are known but those that are recorded, then it does not matter what will be recorded later. -/
lemma net_eq_of_settled (hknown : g.Justified known) (hsuffix : past <:+ known)
    (h : g.Settled past table) :
    net known table = net past table := by
  obtain ⟨later, rfl⟩ := hsuffix
  have hlater : paid later table = 0 := by
    refine paid_eq_zero fun record hrecord => Bool.eq_false_iff.mpr fun hknows => ?_
    obtain ⟨t, hlookup⟩ := exists_of_knows hknows
    have hname := hknown.mem_names (List.mem_append_left past hrecord)
    obtain ⟨other, hother, heq, -⟩ := h record.name hname t hlookup
    have hnodup := hknown.nodup
    rw [List.map_append] at hnodup
    exact List.disjoint_of_nodup_append hnodup (List.mem_map_of_mem hrecord)
      (heq ▸ List.mem_map_of_mem hother)
  rw [net, net, paid_append, hlater, zero_add]

lemma Resettled.refl (hfit : g.Fit 1 table) (hready : g.Ready past table) :
    g.Resettled known past table table :=
  ⟨hfit, hready, .refl table, rfl⟩

/-- What has happened to earlier types only leaves a later one as it was. -/
lemma Resettled.cons (h : g.Resettled known past table after)
    (hfresh : record.name ∉ past.map Record.name)
    (hready : g.Ready (record :: past) table) : g.Resettled known (record :: past) table after where
  fit := h.fit
  ready other hother source hmem := by
    rcases List.mem_cons.mp hother with rfl | hother
    · rw [h.kept _ (List.mem_map_of_mem hmem) hfresh]
      exact hready _ List.mem_cons_self source hmem
    · exact h.ready other hother source hmem
  kept name hname hnotMem := h.kept name hname fun hmem => hnotMem (List.mem_cons_of_mem _ hmem)
  net_eq := h.net_eq

/-- A type that was pending has been built while its entry was marked, and becomes known. -/
lemma Resettled.of_marked {source : TypeSource} (hknown : g.Justified known) (hrecord : record ∈ known)
    (hfresh : record.name ∉ past.map Record.name) (hfit : g.Fit 1 table) (hfit' : g.Fit 1 after)
    (hready : g.Ready past after)
    (hkept : g.Kept past (table.setEntry rootScope record.name .inProgress) after)
    (hpending : table.lookup? rootScope record.name = some (.pending source))
    (hnet : net known after - net known (table.setEntry rootScope record.name .inProgress) = record.own) :
    g.Resettled known (record :: past) table (after.setEntry rootScope record.name (.built record.type)) := by
  have hdeclared : record.name ∈ g.names := hknown.mem_names hrecord
  have hmarked : (table.setEntry rootScope record.name .inProgress).lookup? rootScope record.name =
      some .inProgress := by rw [lookup?_setEntry, if_pos ⟨rfl, rfl, hfit.root_lt⟩]
  have hprogress : after.lookup? rootScope record.name = some .inProgress := by
    rw [hkept record.name hdeclared hfresh, hmarked]
  have hother (table : TypeTable) (entry : TypeEntry) (name : String) (hname : name ≠ record.name) :
      (table.setEntry rootScope record.name entry).lookup? rootScope name = table.lookup? rootScope name := by
    rw [lookup?_setEntry, if_neg fun hsame => hname hsame.2.1]
  refine ⟨hfit'.setEntry (.inr ⟨_, rfl⟩) fun _ hnotMem => absurd hdeclared hnotMem, ?_, ?_, ?_⟩
  · intro other hmem source hentry
    rcases List.mem_cons.mp hmem with rfl | hmem
    · exact .inr (by rw [lookup?_setEntry, if_pos ⟨rfl, rfl, hfit'.root_lt⟩])
    · rw [hother after _ other.name fun heq => hfresh (heq ▸ List.mem_map_of_mem hmem)]
      exact hready other hmem source hentry
  · intro name hname hnotMem
    rw [List.map_cons, List.mem_cons, not_or] at hnotMem
    rw [hother after _ name hnotMem.1, hkept name hname hnotMem.2, hother table _ name hnotMem.1]
  · have hbefore : net known (table.setEntry rootScope record.name .inProgress) = net known table := by
      refine net_congr rfl fun other _ => ?_
      by_cases heq : other.name = record.name
      · rw [heq, knows_of_inProgress hmarked, knows_of_pending hpending]
      · exact knows_congr (hother table _ other.name heq)
    rw [net_setEntry_of_mem hfit'.root_lt hknown.nodup hrecord (knows_of_inProgress hprogress), ← hnet, hbefore]
    abel

section Record

variable {source : TypeSource} {depth depth' : ℕ} {start finish : TypeTable} (hknown : g.Justified known)
  (hovert : g.Overt) (hsuffix : record :: past <:+ known) (hreusable : g.Reusable known past)
  (hfresh : record.name ∉ past.map Record.name) (hmem : (record.name, source) ∈ g.entries)
  (hfit : g.Fit 1 start) (hready : g.Ready past start)
  (hrun : TypeM.buildType (TypeM.buildSpecifiers depth) rootScope source.specifiers source.declarator start =
    .ok (record.type, finish))
  (hsettled : g.Settled past finish) (hown : record.own = net past finish - net past start)

include hknown hovert hsuffix hreusable hfresh hmem hfit hready hrun hsettled hown

/-- The type of a name that is pending is built as it has been recorded. -/
lemma rebuild_of_pending (hfit' : g.Fit 1 table) (hready' : g.Ready (record :: past) table)
    (hpending : table.lookup? rootScope record.name = some (.pending source)) :
    TypeM.resolveNamed (TypeM.buildSpecifiers depth') rootScope record.name table = .error .chainTooLong ∨
      ∃ after, TypeM.resolveNamed (TypeM.buildSpecifiers depth') rootScope record.name table =
        .ok (record.type, after) ∧ g.Resettled known (record :: past) table after := by
  have hdeclared : record.name ∈ g.names := List.mem_map_of_mem hmem
  have hmarked : g.Fit 1 (table.setEntry rootScope record.name .inProgress) :=
    hfit'.setEntry (.inl rfl) fun _ hnotMem => absurd hdeclared hnotMem
  have hsame (table : TypeTable) (entry : TypeEntry) (name : String) (hname : name ≠ record.name) :
      (table.setEntry rootScope record.name entry).lookup? rootScope name = table.lookup? rootScope name := by
    rw [lookup?_setEntry, if_neg fun hsame => hname hsame.2.1]
  have hready'' : g.Ready past (table.setEntry rootScope record.name .inProgress) := by
    refine Ready.congr (fun other hother => hready' other (List.mem_cons_of_mem _ hother))
      fun other hother _ => ?_
    exact hsame table _ _ fun heq => hfresh (heq ▸ List.mem_map_of_mem hother)
  have hcopied : TypeM.Copied g [] rootScope rootScope source.specifiers source.specifiers :=
    ⟨rfl, .inl ⟨rfl, rfl⟩, (describes_of_mem hmem).1, (describes_of_mem hmem).2, fun _ name h => ⟨_, hmem, h⟩⟩
  have hreplayed := (Comparison.buildType .eq
    (TypeM.replaying_buildSpecifiers hknown hreusable hovert depth depth' hcopied)
    (Comparison.rel_eq_refl source.declarator)).replayed start _ (.nil hfit hmarked hready hready'')
  have hgrows : start.Grows 1 finish := by
    have hself : (g.growing 1).Same ⟨start, hfit⟩ _ _ := Comparison.buildType .eq
      (TypeM.growing_buildSpecifiers depth (hcopied.placed hfit nofun))
      (Comparison.rel_eq_refl source.declarator)
    exact (TypeM.Grown.of_ok hself hrun).2.1
  have hnearest := hfit'.nearest?_root record.name
  rw [hpending] at hnearest
  rw [TypeM.resolveNamed_of_pending hnearest]
  rw [hrun] at hreplayed
  generalize TypeM.buildType (TypeM.buildSpecifiers depth') rootScope source.specifiers source.declarator
    (table.setEntry rootScope record.name .inProgress) = outcome at hreplayed ⊢
  cases hreplayed with
  | unsettled hunsettled => exact absurd hsettled hunsettled
  | stopped => exact .inl rfl
  | @ok later _ t _ after hlater hlinked hkept hnet heq =>
    subst heq
    refine .inr ⟨_, rfl, .of_marked hknown (hsuffix.subset List.mem_cons_self) hfresh hfit' hlinked.fit'
      hlinked.ready' hkept hpending ?_⟩
    have hpast := (List.suffix_cons record past).trans hsuffix
    rw [hnet, hown, net_eq_of_settled hknown hpast hsettled,
      net_eq_of_settled hknown hpast (hsettled.of_grows hfit hgrows)]

/-- A name with a record is built again if the types that were used for it can be. -/
lemma Reusable.cons : g.Reusable known (record :: past) := by
  intro other hother depth' table hfit' hready'
  rcases List.mem_cons.mp hother with rfl | hother
  · rcases hready' other List.mem_cons_self source hmem with hpending | hbuilt
    · exact rebuild_of_pending hknown hovert hsuffix hreusable hfresh hmem hfit hready hrun hsettled hown hfit'
        hready' hpending
    · have hnearest := hfit'.nearest?_root other.name
      rw [hbuilt] at hnearest
      exact .inr ⟨table, TypeM.resolveNamed_of_built hnearest, .refl hfit' hready'⟩
  · rcases hreusable other hother depth' table hfit' fun r hr => hready' r (List.mem_cons_of_mem _ hr) with
      hstopped | ⟨after, hok, hresettled⟩
    · exact .inl hstopped
    · exact .inr ⟨after, hok, hresettled.cons hfresh hready'⟩

end Record

/-- **What has been built once can be built again.** -/
theorem Justified.reusable (hknown : g.Justified known) (hovert : g.Overt) (h : g.Justified past)
    (hsuffix : past <:+ known) : g.Reusable known past := by
  induction h with
  | nil => exact .nil
  | cons hpast hfresh hmem hfit hready hrun hsettled hown ih =>
    exact .cons hknown hovert hsuffix (ih ((List.suffix_cons _ _).trans hsuffix)) hfresh hmem hfit hready hrun
      hsettled hown

end Globals

end CommonTrace
