import CommonTrace.Schema.TypeTable
import Mathlib.Data.Set.Basic
import Mathlib.Tactic.Lemma

/-!
# Steps in building types

What can be said about a step in building types that succeeds: `TypeM.Ensures noted I P step` says that
it goes from tables with `I` to tables with `I`, and that its result has `P`.  Nothing is said
about a step that fails, for the first failure ends the whole.

What holds of a type may depend on the clocks that have been noted by then.  No clock is forgotten, so
`P` speaks of a growing set of clocks, and a loop or a step that goes on starts with at least the clocks
that its predecessor has left.
-/

namespace CommonTrace

/-- A step that goes on after another one has succeeded has done so only if that one has. -/
lemma exists_of_bind_eq_ok {ε α β : Type} {x : Except ε α} {f : α → Except ε β} {b : β}
    (h : (x >>= f) = .ok b) : ∃ a, x = .ok a ∧ f a = .ok b := by
  cases x with
  | error e => cases h
  | ok a => exact ⟨a, rfl, h⟩

/-- Two steps one after the other fail if one does. -/
lemma error_of_bind_eq_error {ε α β : Type} {x : Except ε α} {f : α → Except ε β} {e : ε}
    (h : (x >>= f) = .error e) : x = .error e ∨ ∃ a, x = .ok a ∧ f a = .error e := by
  cases x with
  | error e' =>
    cases h
    exact .inl rfl
  | ok a => exact .inr ⟨a, rfl, h⟩

lemma eq_ok_of_toOption {ε α : Type} {x : Except ε α} {a : α} (h : x.toOption = some a) : x = .ok a := by
  cases x with
  | error e => cases h
  | ok b =>
    cases h
    rfl

/-- A loop that succeeds keeps what each of its rounds keeps. -/
lemma of_foldlM_eq_ok {ε ι α : Type} {P : α → Prop} {step : α → ι → Except ε α} {items : List ι}
    {start result : α} (hstart : P start)
    (hstep : ∀ a b, ∀ item ∈ items, P a → step a item = .ok b → P b)
    (h : items.foldlM step start = .ok result) : P result := by
  induction items generalizing start with
  | nil =>
    cases h
    exact hstart
  | cons item items ih =>
    rw [List.foldlM_cons] at h
    obtain ⟨middle, hfirst, hrest⟩ := exists_of_bind_eq_ok h
    have hmiddle := hstep start middle item List.mem_cons_self hstart hfirst
    exact ih hmiddle (fun a b item hitem => hstep a b item (List.mem_cons_of_mem _ hitem)) hrest

/-- A loop succeeds with what its rounds keep of the items that have been gone through, or it fails in the
round for one of them, behind those before it. -/
lemma foldlM_cases {ε ι α : Type} (step : α → ι → Except ε α) (items : List ι) {P : List ι → α → Prop}
    {start : α} (hstart : P [] start)
    (hstep : ∀ done a b, ∀ item ∈ items, P done a → step a item = .ok b → P (done ++ [item]) b) :
    (∀ result, items.foldlM step start = .ok result → P items result) ∧
      ∀ e, items.foldlM step start = .error e →
        ∃ done item rest a, items = done ++ item :: rest ∧ P done a ∧ step a item = .error e := by
  suffices h : ∀ (rest done : List ι) (a : α), (∀ item ∈ rest, item ∈ items) → P done a →
      (∀ result, rest.foldlM step a = .ok result → P (done ++ rest) result) ∧
        ∀ e, rest.foldlM step a = .error e →
          ∃ before item after b, done ++ rest = before ++ item :: after ∧ P before b ∧
            step b item = .error e from h items [] start (fun _ h => h) hstart
  intro rest
  induction rest with
  | nil =>
    intro done a _ ha
    refine ⟨fun result h => ?_, nofun⟩
    cases h
    rwa [List.append_nil]
  | cons item rest ih =>
    intro done a hitems ha
    obtain ⟨hitem, hrest⟩ := List.forall_mem_cons.mp hitems
    have hone : done ++ item :: rest = (done ++ [item]) ++ rest := by
      rw [List.append_assoc, List.singleton_append]
    refine ⟨fun result h => ?_, fun e h => ?_⟩
    · rw [List.foldlM_cons] at h
      obtain ⟨b, hround, h⟩ := exists_of_bind_eq_ok h
      rw [hone]
      exact (ih _ b hrest (hstep done a b item hitem ha hround)).1 result h
    · rw [List.foldlM_cons] at h
      obtain hround | ⟨b, hround, h⟩ := error_of_bind_eq_error h
      · exact ⟨done, item, rest, a, rfl, ha, hround⟩
      · rw [hone]
        exact (ih _ b hrest (hstep done a b item hitem ha hround)).2 e h

/-! ## Steps with a table -/

/-- The clocks that integers have been found to refer to. -/
def TypeTable.noted (table : TypeTable) : Set String :=
  {clock | clock ∈ table.clocks}

namespace TypeM

variable {α β : Type} {noted : Set String} {I : TypeTable → Prop} {P : Set String → α → Prop}
  {Q : Set String → β → Prop}

/-- From tables with `I` in which the clocks `noted` are noted, the step goes to tables with `I` only, and
it forgets no clock.  With the clocks that are noted in the end, its result has `P`. -/
def Ensures (noted : Set String) (I : TypeTable → Prop) (P : Set String → α → Prop)
    (step : TypeM α) : Prop :=
  ∀ table a table', noted ⊆ table.noted → I table → step table = .ok (a, table') →
    table.noted ⊆ table'.noted ∧ I table' ∧ P table'.noted a

namespace Ensures

lemma pure {a : α} (ha : ∀ later, noted ⊆ later → P later a) :
    (Pure.pure a : TypeM α).Ensures noted I P := by
  intro table a' table' hnoted htable hok
  cases hok
  exact ⟨subset_rfl, htable, ha _ hnoted⟩

lemma throw {error : SchemaError} : (MonadExcept.throw error : TypeM α).Ensures noted I P := by
  intro table a table' _ _ hok
  cases hok

lemma imp {step : TypeM α} {P' : Set String → α → Prop} (h : step.Ensures noted I P)
    (himp : ∀ later a, P later a → P' later a) : step.Ensures noted I P' := by
  intro table a table' hnoted htable hok
  obtain ⟨hgrown, htable', ha⟩ := h table a table' hnoted htable hok
  exact ⟨hgrown, htable', himp _ a ha⟩

/-- A step without access to the table, and what is done with its result. -/
lemma lift_bind {x : Except SchemaError α} {next : α → TypeM β}
    (hnext : ∀ a, x = .ok a → (next a).Ensures noted I Q) :
    ((liftM x : TypeM α) >>= next).Ensures noted I Q := by
  intro table b table' hnoted htable hok
  obtain ⟨⟨a, middle⟩, hfirst, hsecond⟩ := exists_of_bind_eq_ok hok
  obtain ⟨a', hx, hfirst⟩ := exists_of_bind_eq_ok hfirst
  cases hfirst
  exact hnext a hx table b table' hnoted htable hsecond

lemma bind {step : TypeM α} {next : α → TypeM β} (hstep : step.Ensures noted I P)
    (hnext : ∀ later a, noted ⊆ later → P later a → (next a).Ensures later I Q) :
    (step >>= next).Ensures noted I Q := by
  intro table b table' hnoted htable hok
  obtain ⟨⟨a, middle⟩, hfirst, hsecond⟩ := exists_of_bind_eq_ok hok
  obtain ⟨hgrown, hmiddle, ha⟩ := hstep table a middle hnoted htable hfirst
  obtain ⟨hgrown', htable', hb⟩ :=
    hnext _ a (hnoted.trans hgrown) ha middle b table' subset_rfl hmiddle hsecond
  exact ⟨hgrown.trans hgrown', htable', hb⟩

lemma throw_bind {error : SchemaError} {next : α → TypeM β} :
    ((MonadExcept.throw error : TypeM α) >>= next).Ensures noted I Q :=
  bind (P := fun _ _ => False) throw fun _ _ _ h => h.elim

/-- What is read from the table is read from a table with `I`. -/
lemma get_bind {next : TypeTable → TypeM β}
    (hnext : ∀ table, I table → noted ⊆ table.noted → (next table).Ensures table.noted I Q) :
    ((get : TypeM TypeTable) >>= next).Ensures noted I Q := by
  intro table b table' hnoted htable hok
  exact hnext table htable hnoted table b table' subset_rfl htable hok

lemma modify {change : TypeTable → TypeTable} {P : Set String → Prop}
    (h : ∀ table, noted ⊆ table.noted → I table →
      table.noted ⊆ (change table).noted ∧ I (change table) ∧ P (change table).noted) :
    (modify change : TypeM Unit).Ensures noted I fun later _ => P later := by
  intro table a table' hnoted htable hok
  cases hok
  exact h table hnoted htable

/-- A loop keeps what each of its rounds keeps. -/
lemma foldlM {ι : Type} {step : α → ι → TypeM α} {items : List ι} {start : α}
    (hstart : ∀ later, noted ⊆ later → P later start)
    (hstep : ∀ later a, noted ⊆ later → P later a → ∀ item ∈ items,
      (step a item).Ensures later I P) :
    (items.foldlM step start).Ensures noted I P := by
  intro table a table' hnoted htable hok
  have hfirst := hstart _ hnoted
  clear hstart
  induction items generalizing start table with
  | nil =>
    cases hok
    exact ⟨subset_rfl, htable, hfirst⟩
  | cons item items ih =>
    rw [List.foldlM_cons] at hok
    obtain ⟨⟨b, middle⟩, hround, hrest⟩ := exists_of_bind_eq_ok hok
    obtain ⟨hgrown, hmiddle, hb⟩ := hstep _ start hnoted hfirst item List.mem_cons_self table b middle
      subset_rfl htable hround
    have hitems : ∀ later a, noted ⊆ later → P later a → ∀ item ∈ items,
        (step a item).Ensures later I P :=
      fun later a hlater ha item hitem => hstep later a hlater ha item (List.mem_cons_of_mem _ hitem)
    obtain ⟨hgrown', htable', ha⟩ := ih hitems middle (hnoted.trans hgrown) hmiddle hrest hb
    exact ⟨hgrown.trans hgrown', htable', ha⟩

lemma forM {ι : Type} {step : ι → TypeM Unit} {items : List ι}
    (hstep : ∀ later, ∀ item ∈ items, (step item).Ensures later I fun _ _ => True) :
    (items.forM step).Ensures noted I fun _ _ => True := by
  induction items generalizing noted with
  | nil => exact pure fun _ _ => trivial
  | cons item items ih =>
    refine bind (hstep noted item List.mem_cons_self) fun _ _ _ _ => ?_
    exact ih fun later item hitem => hstep later item (List.mem_cons_of_mem _ hitem)

end Ensures

end TypeM

end CommonTrace
