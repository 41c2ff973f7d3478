import CommonTrace.Proofs.Schema.CallStack
import CommonTrace.Proofs.Schema.Trees
import Mathlib.Logic.Relation

/-!
# Types that are made of themselves

A definition refers to another if the name of the other is requested while its own type is built; which
definition is meant, the scope decides from which the name is requested, for the nearest entry of the name is
taken (`Metadata.Refers`).  A reference that meets a mark is one to a definition whose type is being built.  The
calls under way lead from there to the reference, so the definition reaches itself
(`Metadata.transGen_of_recursiveType`).

The other way round, suppose that a tree is accepted.  Then each definition has been built at some time, and all
to which it refers were known before: when a name has been requested by a definition that is being built, the
entry of the name holds a type while the entry of the definition is still marked.  What is known stays known,
and of two such times one is the earlier; so the same can be said of all that a definition reaches, and none
reaches itself (`Metadata.not_transGen_of_ofTree`).
-/

namespace CommonTrace

open Tsdl TypeM
open Relation (TransGen)

/-- One list is a suffix of another, or there are suffixes that differ in their heads only. -/
lemma suffix_or_suffix_or_exists {α : Type} (xs ys : List α) :
    xs <:+ ys ∨ ys <:+ xs ∨ ∃ common a b, a ≠ b ∧ a :: common <:+ xs ∧ b :: common <:+ ys := by
  induction xs with
  | nil => exact .inl (List.nil_suffix)
  | cons x xs ih =>
    rcases ih with ⟨before, rfl⟩ | hsuffix | ⟨common, a, b, hne, ha, hb⟩
    · rcases List.eq_nil_or_concat before with rfl | ⟨before, b, rfl⟩
      · exact .inr (.inl (List.suffix_cons x xs))
      · have hsuffix : b :: xs <:+ before.concat b ++ xs := ⟨before, by simp⟩
        by_cases hhead : x = b
        · exact .inl (hhead ▸ hsuffix)
        · exact .inr (.inr ⟨xs, x, b, hhead, List.suffix_refl _, hsuffix⟩)
    · exact .inr (.inl (hsuffix.trans (List.suffix_cons x xs)))
    · exact .inr (.inr ⟨common, a, b, hne, ha.trans (List.suffix_cons x xs), hb⟩)

/-! ## What is known stays known -/

/-- What is known in a table is known in another. -/
def TypeTable.Retains (table table' : TypeTable) : Prop :=
  ∀ scope name t, table.lookup? scope name = some (.built t) → table'.lookup? scope name = some (.built t)

namespace TypeTable

variable {table table' table'' : TypeTable} {scope : TypeScopeId} {name : String} {entry : TypeEntry}

lemma Retains.refl (table : TypeTable) : table.Retains table :=
  fun _ _ _ h => h

lemma Retains.trans (h : table.Retains table') (h' : table'.Retains table'') : table.Retains table'' :=
  fun scope name t hbuilt => h' scope name t (h scope name t hbuilt)

lemma Advances.retains (h : table.Advances table') : table.Retains table' :=
  fun _ _ _ hbuilt => h.built hbuilt

/-- Nothing is lost when an entry is set under which no type is known. -/
lemma Retains.setEntry (h : ∀ t, table.lookup? scope name ≠ some (.built t)) :
    table.Retains (table.setEntry scope name entry) := by
  intro scope' name' t hbuilt
  rw [lookup?_setEntry, if_neg]
  · exact hbuilt
  · rintro ⟨rfl, rfl, -⟩
    exact h t hbuilt

lemma lookup?_setEntry_self (h : table.lookup? scope name = some entry) (entry' : TypeEntry) :
    (table.setEntry scope name entry').lookup? scope name = some entry' := by
  rw [lookup?_setEntry, if_pos ⟨rfl, rfl, lt_size_of_lookup? h⟩]

end TypeTable

namespace Metadata

variable {root : Node} {frames frames' : List Frame} {frame frame' : Frame} {entry entry' : EntryId}
  {e : SchemaError} {metadata : Metadata}

/-- **A definition refers to another**: while the type of the one is built, and no other within it, the name of
the other is requested in a scope from which it is the nearest of that name.  What is declared in the bodies of
a definition is requested as well, whether it is used there or not. -/
def Refers (root : Node) (entry entry' : EntryId) : Prop :=
  ∃ scope table frames found, Stack root (⟨.named scope entry'.2, table⟩ :: frames) ∧
    (building frames).head? = some entry ∧ table.nearest? scope entry'.2 = some (entry'.1, found)

/-! ## References that meet a mark -/

/-- The calls under way build definitions that refer to each other. -/
lemma Stack.transGen_of_mem_building (h : Stack root frames)
    (hrefers : ∀ entry, (building frames).head? = some entry → Refers root entry entry') :
    ∀ entry ∈ building frames, TransGen (Refers root) entry entry' := by
  induction h generalizing entry' with
  | nil => nofun
  | @call frames frame h hmakes ih =>
    intro entry hentry
    cases hbuilds : frame.builds? with
    | none =>
      rw [building_cons_of_none hbuilds] at hrefers hentry
      exact ih hrefers entry hentry
    | some inner =>
      rw [building_cons_of_some hbuilds] at hrefers hentry
      have hinner := hrefers inner rfl
      rcases List.mem_cons.mp hentry with rfl | hentry
      · exact .single hinner
      obtain ⟨scope, table, source, rfl, hnearest⟩ := Frame.exists_of_builds? hbuilds
      have houter : ∀ outer, (building frames).head? = some outer → Refers root outer inner :=
        fun outer houter => ⟨scope, table, frames, _, .call h hmakes, houter, hnearest⟩
      exact (ih houter entry hentry).tail hinner

/-- A call that fails because of a chain of references leads to a reference that meets a mark. -/
lemma Stack.exists_inProgress_of_error (h : Stack root (frame :: frames)) (he : ¬e.IsLocal)
    (herror : answers root frame.request frame.table = .error e) :
    ∃ scope name table home frames', Stack root (⟨.named scope name, table⟩ :: frames') ∧
      table.nearest? scope name = some (home, .inProgress) ∧ e = .recursiveType name := by
  revert herror
  refine h.induct (P := fun frame _ => answers root frame.request frame.table = .error e → _)
    fun frame frames h ih herror => ?_
  obtain ⟨request, table⟩ := frame
  cases request with
  | part scope specifiers =>
    obtain ⟨depth, hregular⟩ := h.exists_regular
    obtain ⟨frame', hcalls, hfailed⟩ := hregular.exists_failed (h.answers_eq_steps.symm.trans herror) he
    exact ih frame' (.call h hcalls) hfailed
  | named scope name =>
    rcases resolveNamed_error_cases he herror with ⟨home, hnearest, heq⟩ | ⟨home, source, hnearest, hbuild⟩
    · exact ⟨scope, name, table, home, frames, h, hnearest, heq⟩
    · exact ih _ (h.call_of_pending hnearest) hbuild

/-- **Only a definition that reaches itself is reported to do so.** -/
theorem transGen_of_recursiveType {name : String} (h : ofTree root = .error (.recursiveType name)) :
    ∃ home, TransGen (Refers root) (home, name) (home, name) := by
  have he : ¬(SchemaError.recursiveType name).IsLocal := fun h => h
  obtain ⟨declared, start, hopening, hread⟩ := exists_reading_of_error he h
  obtain ⟨frame, hcalls, hfailed⟩ := hopening.regular.exists_failed hread he
  have hframe : Stack root [frame] := .call .nil (makes_nil_iff.mpr ⟨declared, start, hopening, hcalls⟩)
  obtain ⟨scope, name', table, home, frames, hstack, hnearest, heq⟩ :=
    hframe.exists_inProgress_of_error he hfailed
  obtain rfl := SchemaError.recursiveType.inj heq
  have hmarked := hstack.inProgress_iff.mp (TypeTable.lookup?_of_nearest? hnearest)
  have hrefers : ∀ entry, (building frames).head? = some entry → Refers root entry (home, name) :=
    fun entry hentry => ⟨scope, table, frames, _, hstack, hentry, hnearest⟩
  have hpath := hstack.rest.transGen_of_mem_building hrefers _ hmarked
  exact ⟨home, hpath⟩

/-! ## Accepted trees -/

lemma Stack.of_suffix (h : Stack root frames') (hsuffix : frames <:+ frames') : Stack root frames := by
  induction h with
  | nil => exact (List.suffix_nil.mp hsuffix) ▸ .nil
  | call h hmakes ih =>
    rcases List.suffix_cons_iff.mp hsuffix with rfl | hsuffix
    · exact .call h hmakes
    · exact ih hsuffix

/-- While a call is answered, what is known stays known, from the caller's table to the call's and back. -/
lemma Stack.retains_of_call {caller : Frame} {t t' : FieldType} {after after' : TypeTable}
    (h : Stack root (frame :: caller :: frames))
    (hcaller : answers root caller.request caller.table = .ok (t, after))
    (hanswer : answers root frame.request frame.table = .ok (t', after')) :
    caller.table.Retains frame.table ∧ after'.Retains after := by
  cases h.made with
  | part hregular hcalls =>
    rw [h.rest.answers_eq_steps] at hcaller
    obtain ⟨_, _, hanswer', hadvances⟩ := hregular.exists_of_calls hcaller hcalls
    cases hanswer.symm.trans hanswer'
    exact ⟨(hregular.of_calls hcalls).2.retains, hadvances.retains⟩
  | named hnearest =>
    have hlookup := TypeTable.lookup?_of_nearest? hnearest
    obtain ⟨_, middle, notes, hanswer', rfl⟩ := exists_of_resolveNamed_of_pending hnearest hcaller
    cases hanswer.symm.trans hanswer'
    have hmarked := (h.advances hanswer).inProgress_iff.mpr (TypeTable.lookup?_setEntry_self hlookup _)
    refine ⟨.setEntry fun t hbuilt => ?_, .setEntry fun t hbuilt => ?_⟩
    · cases hlookup.symm.trans hbuilt
    · cases hmarked.symm.trans hbuilt

/-- Of two requests that the same procedure makes, one has been answered before the other is made. -/
lemma Made.retains {t t' : FieldType} {after after' : TypeTable} (h : Made root frames frame)
    (h' : Made root frames frame') (hne : frame ≠ frame')
    (hanswer : answers root frame.request frame.table = .ok (t, after))
    (hanswer' : answers root frame'.request frame'.table = .ok (t', after')) :
    after.Retains frame'.table ∨ after'.Retains frame.table := by
  have hordered (h : (∃ t table, answers root frame.request frame.table = .ok (t, table) ∧
        table.Advances frame'.table) ∨
      ∃ t table, answers root frame'.request frame'.table = .ok (t, table) ∧ table.Advances frame.table) :
      after.Retains frame'.table ∨ after'.Retains frame.table := by
    rcases h with ⟨_, _, hok, hadvances⟩ | ⟨_, _, hok, hadvances⟩
    · cases hanswer.symm.trans hok
      exact .inl hadvances.retains
    · cases hanswer'.symm.trans hok
      exact .inr hadvances.retains
  cases h with
  | reading hopening hcalls =>
    cases h' with
    | reading hopening' hcalls' =>
      obtain ⟨rfl, rfl⟩ := hopening.unique hopening'
      exact hordered (hopening.regular.ordered hcalls hcalls' hne)
  | part hregular hcalls =>
    cases h' with
    | part _ hcalls' => exact hordered (hregular.ordered hcalls hcalls' hne)
  | named hnearest =>
    cases h' with
    | named hnearest' =>
      cases hnearest.symm.trans hnearest'
      exact absurd rfl hne

section Accepted

variable (hok : ofTree root = .ok metadata)
include hok

/-- In the reading of an accepted tree, all calls are answered. -/
lemma Stack.exists_answer (h : Stack root (frame :: frames)) :
    ∃ t after, answers root frame.request frame.table = .ok (t, after) := by
  induction frames generalizing frame with
  | nil =>
    obtain ⟨declared, start, hopening, hcalls⟩ := makes_nil_iff.mp h.makes
    obtain ⟨declared', start', read, after, hopening', hread⟩ := exists_reading_of_ok hok
    obtain ⟨rfl, rfl⟩ := hopening.unique hopening'
    obtain ⟨t, table, hanswer, -⟩ := hopening.regular.exists_of_calls hread hcalls
    exact ⟨t, table, hanswer⟩
  | cons caller rest ih =>
    obtain ⟨t, after, hcaller⟩ := ih h.rest
    cases h.made with
    | part hregular hcalls =>
      rw [h.rest.answers_eq_steps] at hcaller
      obtain ⟨t', table, hanswer, -⟩ := hregular.exists_of_calls hcaller hcalls
      exact ⟨t', table, hanswer⟩
    | named hnearest =>
      obtain ⟨t', middle, notes, hanswer, -⟩ := exists_of_resolveNamed_of_pending hnearest hcaller
      exact ⟨t', middle, hanswer⟩

/-- While a call is answered, what is known stays known, from its table to that of a call that it leads to and
back. -/
lemma Stack.retains_of_suffix {t t' : FieldType} {after after' : TypeTable}
    (h : Stack root (frame' :: frames')) (hsuffix : frame :: frames <:+ frame' :: frames')
    (hanswer : answers root frame.request frame.table = .ok (t, after))
    (hanswer' : answers root frame'.request frame'.table = .ok (t', after')) :
    frame.table.Retains frame'.table ∧ after'.Retains after := by
  induction frames' generalizing frame' t' after' with
  | nil =>
    obtain ⟨rfl, -⟩ : frame = frame' ∧ frames = [] := by simpa [List.suffix_cons_iff] using hsuffix
    cases hanswer.symm.trans hanswer'
    exact ⟨.refl _, .refl _⟩
  | cons caller rest ih =>
    rcases List.suffix_cons_iff.mp hsuffix with heq | hsuffix
    · cases heq
      cases hanswer.symm.trans hanswer'
      exact ⟨.refl _, .refl _⟩
    · obtain ⟨_, _, hcaller⟩ := h.rest.exists_answer hok
      obtain ⟨hbefore, hbehind⟩ := ih h.rest hsuffix hcaller
      obtain ⟨hdown, hup⟩ := h.retains_of_call hcaller hanswer'
      exact ⟨hbefore.trans hdown, hup.trans hbehind⟩

/-- **Of two calls that have been answered, one has been answered first**: what was known then was known
when the other had been answered. -/
theorem Stack.retains_or_retains {t t' : FieldType} {after after' : TypeTable}
    (h : Stack root (frame :: frames)) (hanswer : answers root frame.request frame.table = .ok (t, after))
    (h' : Stack root (frame' :: frames'))
    (hanswer' : answers root frame'.request frame'.table = .ok (t', after')) :
    after.Retains after' ∨ after'.Retains after := by
  rcases suffix_or_suffix_or_exists (frame :: frames) (frame' :: frames') with hsuffix | hsuffix | hapart
  · exact .inr (h'.retains_of_suffix hok hsuffix hanswer hanswer').2
  · exact .inl (h.retains_of_suffix hok hsuffix hanswer' hanswer).2
  obtain ⟨common, first, first', hne, hsuffix, hsuffix'⟩ := hapart
  have hfirst := h.of_suffix hsuffix
  have hfirst' := h'.of_suffix hsuffix'
  obtain ⟨s, table, hanswered⟩ := hfirst.exists_answer hok
  obtain ⟨s', table', hanswered'⟩ := hfirst'.exists_answer hok
  have hinside := h.retains_of_suffix hok hsuffix hanswered hanswer
  have hinside' := h'.retains_of_suffix hok hsuffix' hanswered' hanswer'
  rcases hfirst.made.retains hfirst'.made hne hanswered hanswered' with hbefore | hbefore
  · exact .inl (((hinside.2.trans hbefore).trans hinside'.1).trans (h'.advances hanswer').retains)
  · exact .inr (((hinside'.2.trans hbefore).trans hinside.1).trans (h.advances hanswer).retains)

/-- When a name has been requested, its type is known, while the definitions that refer to it are still being
built. -/
lemma Refers.exists_answer (hrefers : Refers root entry entry') :
    ∃ frame frames t after, Stack root (frame :: frames) ∧
      answers root frame.request frame.table = .ok (t, after) ∧
      after.lookup? entry.1 entry.2 = some .inProgress ∧
      ∃ t', after.lookup? entry'.1 entry'.2 = some (.built t') := by
  obtain ⟨scope, table, frames, found, hstack, hhead, hnearest⟩ := hrefers
  obtain ⟨t, after, hanswer⟩ := hstack.exists_answer hok
  have hmarked := hstack.inProgress_iff.mpr (List.mem_of_head? hhead)
  have hadvances := hstack.advances hanswer
  refine ⟨_, frames, t, after, hstack, hanswer, hadvances.inProgress_iff.mpr hmarked, ?_⟩
  have hlookup := TypeTable.lookup?_of_nearest? hnearest
  have hsize := Nat.lt_of_lt_of_le (TypeTable.lt_size_of_lookup? hlookup) hadvances.within.size_le
  rcases resolveNamed_ok_cases hanswer with ⟨_, hfound, rfl⟩ | ⟨_, _, _, middle, notes, hfound, -, rfl⟩
  · cases hnearest.symm.trans hfound
    exact ⟨t, hlookup⟩
  · cases hnearest.symm.trans hfound
    rw [TypeTable.size_setEntry] at hsize
    exact ⟨t, by rw [TypeTable.lookup?_setEntry, if_pos ⟨rfl, rfl, hsize⟩]⟩

/-- **What a definition reaches is known while the definition is still being built.** -/
lemma exists_answer_of_transGen (hpath : TransGen (Refers root) entry entry') :
    ∃ frame frames t after, Stack root (frame :: frames) ∧
      answers root frame.request frame.table = .ok (t, after) ∧
      after.lookup? entry.1 entry.2 = some .inProgress ∧
      ∃ t', after.lookup? entry'.1 entry'.2 = some (.built t') := by
  induction hpath with
  | single hrefers => exact hrefers.exists_answer hok
  | tail _ hrefers ih =>
    obtain ⟨frame, frames, t, after, hstack, hanswer, hmarked, t', hbuilt⟩ := ih
    obtain ⟨frame', frames', s, after', hstack', hanswer', hmarked', s', hbuilt'⟩ := hrefers.exists_answer hok
    refine ⟨frame, frames, t, after, hstack, hanswer, hmarked, s', ?_⟩
    -- the definition in the middle is known at the one time and marked at the other, which is the earlier
    rcases hstack.retains_or_retains hok hanswer hstack' hanswer' with hretains | hretains
    · cases hmarked'.symm.trans (hretains _ _ _ hbuilt)
    · exact hretains _ _ _ hbuilt'

/-- **In an accepted tree, no definition reaches itself.** -/
theorem not_transGen_of_ofTree (entry : EntryId) : ¬TransGen (Refers root) entry entry := by
  intro hpath
  obtain ⟨_, _, _, after, -, -, hmarked, t, hbuilt⟩ := exists_answer_of_transGen hok hpath
  cases hmarked.symm.trans hbuilt

/-! ## All definitions are built -/

omit hok in
/-- A name that is to be built before a call is answered and that is not afterwards has been built for it. -/
lemma Stack.exists_builds_of_settled {scope : TypeScopeId} {name : String} {source : TypeSource}
    (h : Stack root (frame :: frames)) {t : FieldType} {after : TypeTable}
    (hanswer : answers root frame.request frame.table = .ok (t, after))
    (hpending : frame.table.lookup? scope name = some (.pending source))
    (hsettled : after.lookup? scope name ≠ some (.pending source)) :
    ∃ frame frames, Stack root (frame :: frames) ∧ frame.builds? = some (scope, name) := by
  revert t after
  revert hpending
  refine h.induct (P := fun frame _ => frame.table.lookup? scope name = some (.pending source) →
    ∀ {t : FieldType} {after : TypeTable}, answers root frame.request frame.table = .ok (t, after) →
      after.lookup? scope name ≠ some (.pending source) → _) fun frame frames h ih hpending t after hanswer
        hsettled => ?_
  obtain ⟨request, table⟩ := frame
  cases request with
  | part scope' specifiers =>
    obtain ⟨depth, hregular⟩ := h.exists_regular
    have hsteps := h.answers_eq_steps.symm.trans hanswer
    obtain ⟨frame', hsettling, hcalls⟩ := hregular.exists_settling hsteps hpending hsettled
    obtain ⟨t', after', hanswer', -⟩ := hregular.exists_of_calls hsteps hcalls
    exact ih frame' (.call h hcalls) hsettling.1 hanswer' (hsettling.2 t' after' hanswer')
  | named scope' name' =>
    rcases resolveNamed_ok_cases hanswer with
      ⟨_, -, rfl⟩ | ⟨home, source', t', middle, notes, hnearest, hbuild, rfl⟩
    · exact absurd hpending hsettled
    by_cases hsame : scope = home ∧ name = name'
    · obtain ⟨rfl, rfl⟩ := hsame
      exact ⟨_, frames, h, Frame.builds?_of_pending hnearest⟩
    · have hother (table : TypeTable) (entry : TypeEntry) :
          (table.setEntry home name' entry).lookup? scope name = table.lookup? scope name := by
        rw [TypeTable.lookup?_setEntry, if_neg fun h => hsame ⟨h.1, h.2.1⟩]
      rw [hother] at hsettled
      exact ih _ (h.call_of_pending hnearest) ((hother table _).trans hpending) hbuild hsettled

omit hok in
/-- A name that is to be built when a procedure makes a call and that is not when the procedure has come to its
end has been built for it. -/
lemma exists_builds_of_calls {α : Type} {fits : Frame → Prop} {procedure : Answers → TypeM α}
    {start after : TypeTable} {a : α} {scope : TypeScopeId} {name : String} {source : TypeSource}
    (hregular : Regular fits (answers root) procedure start)
    (hstack : ∀ frame, Calls procedure (answers root) start frame → Stack root (frame :: frames))
    (hdone : procedure (answers root) start = .ok (a, after))
    (hcalls : Calls procedure (answers root) start frame)
    (hpending : frame.table.lookup? scope name = some (.pending source))
    (hsettled : after.lookup? scope name ≠ some (.pending source)) :
    ∃ frame frames, Stack root (frame :: frames) ∧ frame.builds? = some (scope, name) := by
  obtain ⟨frame', hsettling, hcalls'⟩ := hregular.exists_settling_of_calls hdone hcalls hpending hsettled
  obtain ⟨t, after', hanswer, -⟩ := hregular.exists_of_calls hdone hcalls'
  exact (hstack frame' hcalls').exists_builds_of_settled hanswer hsettling.1 (hsettling.2 t after' hanswer)

/-- A name that is to be built when a call is made is built at some time. -/
lemma Stack.exists_builds {scope : TypeScopeId} {name : String} {source : TypeSource}
    (h : Stack root (frame :: frames)) (hpending : frame.table.lookup? scope name = some (.pending source)) :
    ∃ frame frames, Stack root (frame :: frames) ∧ frame.builds? = some (scope, name) := by
  induction frames generalizing frame with
  | nil =>
    obtain ⟨declared, start, hopening, hcalls⟩ := makes_nil_iff.mp h.makes
    obtain ⟨declared', start', read, after, hopening', hread⟩ := exists_reading_of_ok hok
    obtain ⟨rfl, rfl⟩ := hopening.unique hopening'
    have hsettled := BlockM.lookup?_ne_pending_of_readAll ((hopening.readAll_eq (answers root)).trans hread)
    have hstack (frame : Frame) (hcalls : Calls (reading root declared) (answers root) start frame) :
        Stack root [frame] :=
      .call .nil (makes_nil_iff.mpr ⟨declared, start, hopening, hcalls⟩)
    exact exists_builds_of_calls hopening.regular hstack hread hcalls hpending (hsettled scope name source)
  | cons caller rest ih =>
    by_cases hcaller : caller.table.lookup? scope name = some (.pending source)
    · exact ih h.rest hcaller
    obtain ⟨t, after, hanswer⟩ := h.rest.exists_answer hok
    have hcompletes := (Answers.complete_within (root.weight + 1)).completes _ _ _ _ hanswer
    cases h.made with
    | part hregular hcalls =>
      have hsteps := h.rest.answers_eq_steps.symm.trans hanswer
      exact exists_builds_of_calls hregular (fun _ hcalls => .call h.rest hcalls) hsteps hcalls hpending
        fun hleft => hcaller (hcompletes _ _ _ hleft)
    | @named _ home name' _ table _ hnearest =>
      have hmarked : table.Completes (table.setEntry home name' .inProgress) :=
        .setEntry table home name' nofun
      exact absurd (hmarked _ _ _ hpending) hcaller

/-- **All definitions are built**: each name that is still to be built at some time in the reading of an
accepted tree is built at some time. -/
theorem Meets.exists_builds {table : TypeTable} {scope : TypeScopeId} {name : String} {source : TypeSource}
    (h : Meets root frames table) (hpending : table.lookup? scope name = some (.pending source)) :
    ∃ frame frames, Stack root (frame :: frames) ∧ frame.builds? = some (scope, name) := by
  cases h with
  | made h => exact h.exists_builds hok hpending
  | answered h hanswer =>
    have hcompletes := (Answers.complete_within (root.weight + 1)).completes _ _ _ _ hanswer
    exact h.exists_builds hok (hcompletes _ _ _ hpending)
  | finished hopening hread =>
    have hsettled := BlockM.lookup?_ne_pending_of_readAll ((hopening.readAll_eq (answers root)).trans hread)
    exact absurd hpending (hsettled scope name source)

end Accepted

/-! ## Marks find recursion -/

/-- **A definition is found to be recursive by its mark.**  While metadata is read from a tree, the entries
that are marked are those that the calls under way build.  So only a definition that reaches itself is reported
as recursive; and in a tree that is accepted no definition does, of all those that are ever left to be built,
each of which is built at some time. -/
theorem recursion_found_by_marks (root : Node) :
    (∀ frames table, Meets root frames table → ∀ scope name,
      table.lookup? scope name = some .inProgress ↔ (scope, name) ∈ building frames) ∧
    (∀ name, ofTree root = .error (.recursiveType name) →
      ∃ home, TransGen (Refers root) (home, name) (home, name)) ∧
    ∀ metadata, ofTree root = .ok metadata → (∀ entry, ¬TransGen (Refers root) entry entry) ∧
      ∀ frames table, Meets root frames table → ∀ scope name source,
        table.lookup? scope name = some (.pending source) →
          ∃ frame frames, Stack root (frame :: frames) ∧ frame.builds? = some (scope, name) :=
  ⟨fun _ _ h _ _ => h.inProgress_iff, fun _ h => transGen_of_recursiveType h,
    fun _ hok => ⟨not_transGen_of_ofTree hok, fun _ _ h _ _ _ hpending => h.exists_builds hok hpending⟩⟩

/-! ### A structure that contains itself -/

/-- A structure with a member of its own type. -/
def linkedNode : Node :=
  .block .root
    [.block .trace [],
      .block .typeDeclaration
        [.block .typeSpecifierList
          [.block .struct
            [.word .structName "node",
              .block .structBody
                [.member (.integer "8") "value" [],
                  .member (.block .struct [.word .structName "node"]) "next" []]]]]]

/-- It is found to be recursive. -/
example : ofTree linkedNode = .error (.recursiveType "struct node") := by rfl

end Metadata

end CommonTrace
