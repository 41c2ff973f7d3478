import CommonTrace.Proofs.Schema.Records
import CommonTrace.Proofs.Schema.Requests
import CommonTrace.Proofs.Schema.Termination

/-!
# No name is left

The names of a body are entered when the body is opened, and they are all resolved before it is left.  So when
a request has been answered, whichever scopes have been opened for it, none of their names is left to be built
(`TypeTable.Completes`).  This needs nothing of the table from which the request is made.

In the end, when the names under the root have been resolved as well, no name is left at all
(`BlockM.lookup?_ne_pending_of_readEntered`).
-/

namespace CommonTrace

open Tsdl TypeM

/-! ## What is left to be built -/

/-- **What is left to be built was to be built before.** -/
def TypeTable.Completes (table table' : TypeTable) : Prop :=
  ∀ scope name source, table'.lookup? scope name = some (.pending source) →
    table.lookup? scope name = some (.pending source)

namespace TypeTable

variable {table table' table'' : TypeTable} {scope : TypeScopeId} {name : String}

namespace Completes

lemma refl (table : TypeTable) : table.Completes table :=
  fun _ _ _ h => h

lemma trans (h : table.Completes table') (h' : table'.Completes table'') : table.Completes table'' :=
  fun scope name source hpending => h scope name source (h' scope name source hpending)

lemma setEntry (table : TypeTable) (scope : TypeScopeId) (name : String) {entry : TypeEntry}
    (hentry : ∀ source, entry ≠ .pending source) : table.Completes (table.setEntry scope name entry) := by
  intro scope' name' source hpending
  rw [lookup?_setEntry] at hpending
  split at hpending
  · exact absurd (Option.some.inj hpending) (hentry source)
  · exact hpending

end Completes

/-- In its own scope, a name is found first. -/
lemma nearest?_of_lookup? {entry : TypeEntry} (h : table.lookup? scope name = some entry) :
    table.nearest? scope name = some (scope, entry) := by
  obtain ⟨depth, hdepth⟩ := Nat.exists_eq_add_one_of_ne_zero (Nat.ne_zero_of_lt (lt_size_of_lookup? h))
  rw [nearest?, hdepth, outwards, List.findSome?_cons, h]
  rfl

lemma mem_names_of_lookup? {entry : TypeEntry} (h : table.lookup? scope name = some entry) :
    name ∈ table.names scope := by
  unfold lookup? at h
  unfold names
  cases hscope : table.scopes[scope]? with
  | none =>
    rw [hscope] at h
    cases h
  | some s =>
    rw [hscope, Option.bind_some] at h
    exact Dictionary.mem_keys_iff.mpr (by rw [h]; rfl)

end TypeTable

/-- Requests are answered so that nothing new is left to be built, nor the name that is asked for. -/
structure Answers.Complete (answers : Answers) : Prop where
  completes : ∀ request table t after, answers request table = .ok (t, after) → table.Completes after
  named : ∀ scope name table t after, answers (.named scope name) table = .ok (t, after) →
    ∀ source, after.lookup? scope name ≠ some (.pending source)

namespace Answers.Complete

variable {answers : Answers} {table after : TypeTable} {scope : TypeScopeId}

lemma forM (h : answers.Complete) (names : List String)
    (hok : (names.forM fun name => do let _ ← answers.names scope name) table = .ok ((), after)) :
    table.Completes after ∧ ∀ name ∈ names, ∀ source, after.lookup? scope name ≠ some (.pending source) := by
  induction names generalizing table with
  | nil =>
    cases hok
    exact ⟨.refl _, nofun⟩
  | cons name rest ih =>
    obtain ⟨⟨⟨⟩, middle⟩, hfirst, hrest⟩ := exists_of_bind_eq_ok hok
    obtain ⟨⟨t, _⟩, hanswer, hdone⟩ := exists_of_bind_eq_ok hfirst
    cases hdone
    obtain ⟨hcompletes, hnone⟩ := ih hrest
    refine ⟨(h.completes _ _ _ _ hanswer).trans hcompletes, fun name' hname source hpending => ?_⟩
    rcases List.mem_cons.mp hname with rfl | hname
    · exact h.named _ _ _ _ _ hanswer source (hcompletes _ _ _ hpending)
    · exact hnone name' hname source hpending

/-- When all names of a scope have been resolved, none is left. -/
lemma resolveAll (h : answers.Complete) (hok : resolveAll answers.names scope table = .ok ((), after)) :
    table.Completes after ∧ ∀ name source, after.lookup? scope name ≠ some (.pending source) := by
  obtain ⟨hcompletes, hnone⟩ := h.forM (table.names scope) hok
  refine ⟨hcompletes, fun name source hpending => ?_⟩
  have hmem := TypeTable.mem_names_of_lookup? (hcompletes _ _ _ hpending)
  exact hnone name hmem source hpending

end Answers.Complete

/-- **When all is done, nothing new is left to be built.** -/
theorem Inquiry.completes {α : Type} {procedure : Answers → TypeM α} (h : Inquiry procedure)
    {answers : Answers} (hanswers : answers.Complete) {table after : TypeTable} {a : α}
    (hok : procedure answers table = .ok (a, after)) : table.Completes after := by
  induction h generalizing table after with
  | nameless hstep =>
    obtain ⟨notes, rfl⟩ := hstep.exists_note hok
    exact .refl table
  | known scope name t =>
    cases hok
    dsimp only
    split
    · exact .refl table
    · exact .setEntry table scope name nofun
  | ask request => exact hanswers.completes _ _ _ _ hok
  | bind _ _ ih ihnext =>
    obtain ⟨⟨b, middle⟩, hfirst, hrest⟩ := exists_of_bind_eq_ok hok
    exact (ih hfirst).trans (ihnext b hrest)
  | inside outer body _ ih =>
    obtain ⟨⟨scope, opened⟩, hopen, hinside⟩ := exists_of_bind_eq_ok hok
    obtain ⟨⟨b, built⟩, hbody, hleave⟩ := exists_of_bind_eq_ok hinside
    obtain ⟨⟨⟨⟩, _⟩, hnames, hdone⟩ := exists_of_bind_eq_ok hleave
    cases hdone
    obtain ⟨rfl, declared, -, -, rfl⟩ := Comparison.openBody_eq_ok_iff.mp hopen
    obtain ⟨hcompletes, hnone⟩ := hanswers.resolveAll hnames
    intro scope' name source hpending
    have hopened := ih _ hbody _ _ _ (hcompletes _ _ _ hpending)
    -- an entry of the new scope is no longer pending
    have hne : scope' ≠ table.scopes.size := by
      rintro rfl
      exact hnone name source hpending
    rwa [TypeTable.lookup?_entered_of_ne _ _ _ hne, TypeTable.lookup?_opened] at hopened

/-! ## Every request -/

section Resolve

variable {build : TypeScopeId → Node → TypeM FieldType} {scope home : TypeScopeId} {name : String}
  {source : TypeSource} {table after : TypeTable} {t : FieldType}

/-- When the type of a name has been built, its specifiers have been, and little has been done besides. -/
lemma TypeM.exists_of_resolveNamed_of_pending
    (hnearest : table.nearest? scope name = some (home, .pending source))
    (hok : resolveNamed build scope name table = .ok (t, after)) :
    ∃ t' middle notes, build home source.specifiers (table.setEntry home name .inProgress) = .ok (t', middle) ∧
      after = (middle.note notes).setEntry home name (.built t) := by
  rw [resolveNamed_of_pending hnearest] at hok
  obtain ⟨⟨t, made⟩, hmake, hdone⟩ := exists_of_bind_eq_ok hok
  cases hdone
  obtain ⟨⟨t', middle⟩, hbuild, hrest⟩ := exists_of_bind_eq_ok hmake
  cases hdeclarator : source.declarator with
  | none =>
    rw [hdeclarator] at hrest
    cases hrest
    exact ⟨t, made, .none, hbuild, by rw [TypeTable.note_none]⟩
  | some declarator =>
    rw [hdeclarator] at hrest
    obtain ⟨notes, rfl⟩ := (nameless_applyDeclarator t' declarator).exists_note hrest
    exact ⟨t', middle, notes, hbuild, rfl⟩

/-- **What it takes to resolve a name**: its type is known, or it is built. -/
lemma TypeM.resolveNamed_ok_cases (hok : resolveNamed build scope name table = .ok (t, after)) :
    (∃ home, table.nearest? scope name = some (home, .built t) ∧ after = table) ∨
      ∃ home source t' middle notes, table.nearest? scope name = some (home, .pending source) ∧
        build home source.specifiers (table.setEntry home name .inProgress) = .ok (t', middle) ∧
        after = (middle.note notes).setEntry home name (.built t) := by
  cases hnearest : table.nearest? scope name with
  | none =>
    rw [resolveNamed_of_none hnearest] at hok
    cases hok
  | some found =>
    obtain ⟨home, entry⟩ := found
    cases entry with
    | inProgress =>
      rw [resolveNamed_of_inProgress hnearest] at hok
      cases hok
    | built t =>
      rw [resolveNamed_of_built hnearest] at hok
      cases hok
      exact .inl ⟨home, rfl, rfl⟩
    | pending source =>
      obtain ⟨t', middle, notes, hbuild, hafter⟩ := exists_of_resolveNamed_of_pending hnearest hok
      exact .inr ⟨home, source, t', middle, notes, rfl, hbuild, hafter⟩

/-- **How a chain of references keeps a name from being resolved**: it meets a mark, or goes on with the
specifiers of the name. -/
lemma TypeM.resolveNamed_error_cases {e : SchemaError} (he : ¬e.IsLocal)
    (herror : resolveNamed build scope name table = .error e) :
    (∃ home, table.nearest? scope name = some (home, .inProgress) ∧ e = .recursiveType name) ∨
      ∃ home source, table.nearest? scope name = some (home, .pending source) ∧
        build home source.specifiers (table.setEntry home name .inProgress) = .error e := by
  cases hnearest : table.nearest? scope name with
  | none =>
    rw [resolveNamed_of_none hnearest] at herror
    cases herror
    exact absurd trivial he
  | some found =>
    obtain ⟨home, entry⟩ := found
    cases entry with
    | inProgress =>
      rw [resolveNamed_of_inProgress hnearest] at herror
      cases herror
      exact .inl ⟨home, rfl, rfl⟩
    | built t =>
      rw [resolveNamed_of_built hnearest] at herror
      cases herror
    | pending source =>
      refine .inr ⟨home, source, rfl, ?_⟩
      rw [resolveNamed_of_pending hnearest] at herror
      rcases error_of_bind_eq_error herror with hmake | ⟨r, -, hdone⟩
      · rcases error_of_bind_eq_error hmake with hbuild | ⟨r, -, hrest⟩
        · exact hbuild
        · cases hdeclarator : source.declarator with
          | none =>
            rw [hdeclarator] at hrest
            cases hrest
          | some declarator =>
            rw [hdeclarator] at hrest
            exact absurd ((nameless_applyDeclarator r.1 declarator).decisive r.2 e hrest) he
      · cases hdone

end Resolve

namespace Answers

variable {answers : Answers} {table after : TypeTable} {scope : TypeScopeId} {name : String} {t : FieldType}

/-- A name is resolved completely if what specifiers describe is built so. -/
lemma completes_resolveNamed
    (hparts : ∀ scope specifiers table t after, answers.parts scope specifiers table = .ok (t, after) →
      table.Completes after)
    (hok : resolveNamed answers.parts scope name table = .ok (t, after)) :
    table.Completes after ∧ ∀ source, after.lookup? scope name ≠ some (.pending source) := by
  rcases resolveNamed_ok_cases hok with
    ⟨home, hnearest, rfl⟩ | ⟨home, source, _, middle, notes, hnearest, hbuild, rfl⟩
  · refine ⟨.refl after, fun source hpending => ?_⟩
    rw [TypeTable.nearest?_of_lookup? hpending] at hnearest
    cases hnearest
  have hmarked : table.Completes (table.setEntry home name .inProgress) := .setEntry table home name nofun
  have hmiddle := hmarked.trans (hparts _ _ _ _ _ hbuild)
  have hcompletes : middle.Completes ((middle.note notes).setEntry home name (.built t)) :=
    .setEntry (middle.note notes) home name nofun
  refine ⟨hmiddle.trans hcompletes, fun source' hpending => ?_⟩
  -- a name that is pending in its own scope is the one that is marked
  have hlookup := (hmiddle.trans hcompletes) _ _ _ hpending
  rw [TypeTable.nearest?_of_lookup? hlookup] at hnearest
  cases hnearest
  have hleft := hparts _ _ _ _ _ hbuild _ _ _ (hcompletes _ _ _ hpending)
  rw [TypeTable.lookup?_setEntry, if_pos ⟨rfl, rfl, TypeTable.lt_size_of_lookup? hlookup⟩] at hleft
  cases hleft

/-- **All requests are answered completely**, within however many nested steps. -/
theorem complete_within (depth : ℕ) : (within depth).Complete := by
  have hcomplete (depth : ℕ) (hparts : ∀ scope specifiers table t after,
      (within depth).parts scope specifiers table = .ok (t, after) → table.Completes after) :
      (within depth).Complete :=
    { completes := fun request table t after hok => match request with
        | .named _ _ => (completes_resolveNamed hparts hok).1
        | .part _ _ => hparts _ _ _ _ _ hok
      named := fun scope name table t after hok => (completes_resolveNamed hparts hok).2 }
  induction depth with
  | zero => exact hcomplete 0 nofun
  | succ depth ih =>
    exact hcomplete (depth + 1) fun scope specifiers table t after hok =>
      (inquiry_interpret scope specifiers).completes ih hok

end Answers

/-! ## The whole tree -/

/-- **When the whole tree has been read, no name is left to be built.** -/
theorem BlockM.lookup?_ne_pending_of_readAll {depth : ℕ} {root : Node} {native : ByteOrder}
    {passed : List Warning} {read : Blocks × List Warning} {after : TypeTable}
    (hok : readAllWithin depth root passed (.empty native) = .ok (read, after)) (scope : TypeScopeId)
    (name : String) (source : TypeSource) : after.lookup? scope name ≠ some (.pending source) := by
  have hcomplete := Answers.complete_within depth
  rw [readAllWithin_apply] at hok
  obtain ⟨⟨⟨⟩, entered⟩, henter, hread⟩ := exists_of_bind_eq_ok hok
  obtain ⟨declared, -, -, rfl⟩ := (TypeM.enterAll_eq_ok_iff_of_fresh Nat.one_pos
    (TypeTable.lookup?_empty native _)).mp henter
  rw [readEnteredWithin, readEntered_apply] at hread
  obtain ⟨⟨read', built⟩, hnodes, hrest⟩ := exists_of_bind_eq_ok hread
  obtain ⟨⟨⟨⟩, resolved⟩, hresolve, hdone⟩ := exists_of_bind_eq_ok hrest
  cases hdone
  obtain ⟨hcompletes, hnone⟩ := hcomplete.resolveAll hresolve
  intro hpending
  have hentered := (inquiry_readNodes root.children .empty passed).completes hcomplete hnodes _ _ _
    (hcompletes _ _ _ hpending)
  -- before anything is read, all names are those under the root
  have hscope : scope = TypeTable.rootScope := by
    by_contra hne
    rw [TypeTable.lookup?_entered_of_ne _ _ _ hne, TypeTable.lookup?_empty] at hentered
    cases hentered
  exact hnone name source (hscope ▸ hpending)

end CommonTrace
