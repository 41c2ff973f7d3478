import CommonTrace.Proofs.Schema.Faults
import CommonTrace.Proofs.Schema.TypeExpression
import Mathlib.Tactic.Choose

/-!
# Steps without names

Much of building types has nothing to do with named types.  Such a step depends on the byte order of the
trace only, and all that it does to the table is to add notes: the clocks that integers refer to, and the
attributes that are passed over (`TypeM.Nameless`).  It may fail, but not because of a chain of references,
be it too long or closed; nor does anything that is read without a table (`Local`).
-/

namespace CommonTrace

open Tsdl

/-! ## Reading without a table -/

/-- What is wrong can be told without following references from type to type. -/
def SchemaError.IsLocal : SchemaError → Prop
  | .recursiveType _ | .chainTooLong => False
  | _ => True

lemma SchemaError.IsLocal.ne_chainTooLong {e : SchemaError} (h : e.IsLocal) : e ≠ .chainTooLong := by
  rintro rfl
  exact h

lemma SchemaError.IsDirect.isLocal {e : SchemaError} (h : e.IsDirect) : e.IsLocal := by
  cases e with
  | recursiveType | chainTooLong => exact h
  | _ => exact trivial

/-- Whatever stops the reader, it is not a chain of references. -/
def Local {α : Type} (x : Except SchemaError α) : Prop :=
  ∀ e, x = .error e → e.IsLocal

section Local

variable {α β : Type}

@[simp] lemma local_ok (a : α) : Local (.ok a) :=
  nofun

@[simp] lemma local_pure (a : α) : Local (pure a) :=
  nofun

@[simp] lemma local_error {e : SchemaError} (h : e.IsLocal) : Local (.error e : Except _ α) := by
  rintro _ ⟨⟩
  exact h

@[simp] lemma local_malformed (fault : Malformed) : Local (malformed fault : Except _ α) :=
  local_error trivial

lemma Local.bind {x : Except SchemaError α} {f : α → Except SchemaError β} (hx : Local x)
    (hf : ∀ a, Local (f a)) : Local (x >>= f) :=
  FailsBy.bind hx hf

lemma Local.map {x : Except SchemaError α} (f : α → β) (hx : Local x) : Local (f <$> x) :=
  FailsBy.map f hx

lemma Direct.isLocal {x : Except SchemaError α} (h : Direct x) : Local x :=
  h.mono fun _ => SchemaError.IsDirect.isLocal

end Local

/-! ## Notes -/

/-- What building types brings to light besides the types. -/
structure Notes where
  /-- The clocks that integers refer to. -/
  clocks : Array String
  /-- What is passed over. -/
  warnings : Array Warning

namespace Notes

/-- Nothing to note. -/
def none : Notes :=
  ⟨#[], #[]⟩

/-- What is noted first, and then more. -/
def append (first second : Notes) : Notes :=
  ⟨first.clocks ++ second.clocks, first.warnings ++ second.warnings⟩

end Notes

namespace TypeTable

/-- The table with more notes. -/
def note (table : TypeTable) (notes : Notes) : TypeTable :=
  { table with
    clocks := table.clocks ++ notes.clocks, warnings := table.warnings ++ notes.warnings }

variable (table : TypeTable) (notes : Notes)

@[simp] lemma note_native : (table.note notes).native = table.native := rfl

@[simp] lemma note_none : table.note .none = table := by
  simp [note, Notes.none]

@[simp] lemma note_note (first second : Notes) :
    (table.note first).note second = table.note (first.append second) := by
  simp [note, Notes.append, Array.append_assoc]

end TypeTable

namespace TypeM

/-- **A step without names.**  What comes out depends on the byte order only, and the table is left as it
is but for what is noted in it. -/
def Nameless {α : Type} (step : TypeM α) : Prop :=
  ∃ outcome : ByteOrder → Except SchemaError (α × Notes), (∀ order, Local (outcome order)) ∧
    ∀ table, step table =
      (outcome table.native).map fun (a, notes) => (a, table.note notes)

namespace Nameless

variable {α β : Type}

lemma pure (a : α) : (Pure.pure a : TypeM α).Nameless := by
  refine ⟨fun _ => .ok (a, .none), fun _ => local_ok _, fun table => ?_⟩
  simp only [Except.map, TypeTable.note_none]
  rfl

lemma throw {error : SchemaError} (h : error.IsLocal) :
    (MonadExcept.throw error : TypeM α).Nameless :=
  ⟨fun _ => .error error, fun _ => local_error h, fun _ => rfl⟩

lemma malformed (fault : Malformed) : (TypeM.malformed fault : TypeM α).Nameless :=
  throw trivial

lemma invalid (fault : Invalid) : (TypeM.invalid fault : TypeM α).Nameless :=
  throw trivial

lemma bind {step : TypeM α} {next : α → TypeM β} (hstep : step.Nameless)
    (hnext : ∀ a, (next a).Nameless) : (step >>= next).Nameless := by
  obtain ⟨outcome, hlocal, hstep⟩ := hstep
  choose outcomeOf hlocalOf hnext using hnext
  refine ⟨fun order => do
    let (a, first) ← outcome order
    let (b, second) ← outcomeOf a order
    return (b, first.append second), fun order => ?_, fun table => ?_⟩
  · exact (hlocal order).bind fun r => (hlocalOf r.1 order).bind fun _ => local_pure _
  · change (step table >>= fun r => next r.1 r.2) = _
    rw [hstep]
    cases hfirst : outcome table.native with
    | error e => simp [hfirst, Except.map, Bind.bind, Except.bind]
    | ok r =>
      obtain ⟨a, first⟩ := r
      change next a (table.note first) = _
      rw [hnext, TypeTable.note_native]
      cases hsecond : outcomeOf a table.native with
      | error e => simp [hfirst, hsecond, Except.map, Bind.bind, Except.bind]
      | ok r => simp [hfirst, hsecond, Except.map, Bind.bind, Except.bind, Pure.pure, Except.pure]

/-- A step that does not look at the table. -/
lemma lift {x : Except SchemaError α} (h : Local x) : (liftM x : TypeM α).Nameless := by
  refine ⟨fun _ => x.map (·, .none), fun _ => h.map _, fun table => ?_⟩
  cases x with
  | error e => rfl
  | ok a =>
    simp only [Except.map, TypeTable.note_none]
    rfl

/-- A step that looks at the byte order of the table. -/
lemma get_bind {next : TypeTable → TypeM β}
    (horder : ∀ table, next table = next (.empty table.native))
    (hnext : ∀ table, (next table).Nameless) : ((get : TypeM TypeTable) >>= next).Nameless := by
  choose outcome hlocal hnext using hnext
  refine ⟨fun order => outcome (.empty order) order, fun order => hlocal _ order, fun table => ?_⟩
  change next table table = _
  rw [horder, hnext]

lemma foldlM {ι : Type} {step : α → ι → TypeM α} (items : List ι) (start : α)
    (hstep : ∀ a item, (step a item).Nameless) : (items.foldlM step start).Nameless := by
  induction items generalizing start with
  | nil => exact pure start
  | cons item items ih =>
    rw [List.foldlM_cons]
    exact (hstep start item).bind ih

/-- The table is left as it is but for what is noted. -/
lemma exists_note {step : TypeM α} (h : step.Nameless) {table after : TypeTable} {a : α}
    (hok : step table = .ok (a, after)) : ∃ notes, after = table.note notes := by
  obtain ⟨outcome, -, hstep⟩ := h
  rw [hstep] at hok
  cases houtcome : outcome table.native with
  | error e =>
    rw [houtcome] at hok
    cases hok
  | ok r =>
    rw [houtcome] at hok
    cases hok
    exact ⟨r.2, rfl⟩

end Nameless

lemma nameless_warnAttribute (owner key : String) : (warnAttribute owner key).Nameless :=
  ⟨fun _ => .ok ((), ⟨#[], #[.attribute owner key]⟩), fun _ => local_ok _, fun table => by
    simp only [Except.map, TypeTable.note, Array.append_empty]
    rfl⟩

lemma nameless_noteClock (clock : String) : (noteClock clock).Nameless :=
  ⟨fun _ => .ok ((), ⟨#[clock], #[]⟩), fun _ => local_ok _, fun table => by
    simp only [Except.map, TypeTable.note, Array.append_empty]
    rfl⟩

/-! ## Scalar types -/

lemma nameless_byteOrderOf (a : Assignment) : (byteOrderOf a).Nameless := by
  refine .bind (.lift a.direct_string.isLocal) fun keyword => ?_
  refine .get_bind (fun _ => rfl) fun table => ?_
  split
  · exact .pure _
  · exact .invalid _

lemma nameless_alignmentOf (a : Assignment) : (alignmentOf a).Nameless := by
  refine .bind (.lift a.direct_number.isLocal) fun value => ?_
  split
  · exact .pure _
  · exact .invalid _

lemma nameless_baseOf (a : Assignment) : (baseOf a).Nameless := by
  unfold baseOf
  split
  · split
    · exact .pure _
    · exact .invalid _
  · refine .bind (.lift a.direct_string.isLocal) fun keyword => ?_
    split <;> first | exact .pure _ | exact .invalid _

lemma nameless_encodingOf (a : Assignment) : (encodingOf a).Nameless := by
  refine .bind (.lift a.direct_string.isLocal) fun keyword => ?_
  split
  · exact .pure _
  · exact .invalid _

lemma nameless_clockOf (a : Assignment) : (clockOf a).Nameless := by
  refine .bind (.lift a.direct_string.isLocal) fun text => ?_
  split
  · exact .pure _
  · exact .invalid _

lemma nameless_assignInteger (draft : IntegerDraft) (a : Assignment) :
    (assignInteger draft a).Nameless := by
  unfold assignInteger
  split
  · exact .bind (.lift a.direct_unsigned.isLocal) fun _ => .pure _
  · exact .bind (.lift a.direct_boolean.isLocal) fun _ => .pure _
  · exact .bind (nameless_byteOrderOf a) fun _ => .pure _
  · exact .bind (nameless_alignmentOf a) fun _ => .pure _
  · exact .bind (nameless_baseOf a) fun _ => .pure _
  · exact .bind (nameless_encodingOf a) fun _ => .pure _
  · exact .bind (nameless_clockOf a) fun clock => .bind (nameless_noteClock clock) fun _ => .pure _
  · exact .bind (nameless_warnAttribute _ _) fun _ => .pure _

lemma nameless_integerType (node : Node) : (integerType node).Nameless := by
  refine .get_bind (fun _ => rfl) fun table => ?_
  refine .bind (.lift (Assignment.direct_ofChildren node).isLocal) fun assignments => ?_
  refine .bind (.foldlM _ _ nameless_assignInteger) fun draft => ?_
  split
  · exact .invalid _
  · split
    · exact .invalid _
    · exact .pure _

lemma nameless_assignFloat (draft : FloatDraft) (a : Assignment) : (assignFloat draft a).Nameless := by
  unfold assignFloat
  split
  · exact .bind (.lift a.direct_unsigned.isLocal) fun _ => .pure _
  · exact .bind (.lift a.direct_unsigned.isLocal) fun _ => .pure _
  · exact .bind (nameless_byteOrderOf a) fun _ => .pure _
  · exact .bind (nameless_alignmentOf a) fun _ => .pure _
  · exact .bind (nameless_warnAttribute _ _) fun _ => .pure _

lemma nameless_floatType (node : Node) : (floatType node).Nameless := by
  refine .get_bind (fun _ => rfl) fun table => ?_
  refine .bind (.lift (Assignment.direct_ofChildren node).isLocal) fun assignments => ?_
  refine .bind (.foldlM _ _ nameless_assignFloat) fun draft => ?_
  split
  · split
    · exact .pure _
    · exact .invalid _
  · exact .invalid _

lemma nameless_stringType (node : Node) : (stringType node).Nameless := by
  refine .bind (.lift (Assignment.direct_ofChildren node).isLocal) fun assignments => ?_
  refine .foldlM _ _ fun encoding a => ?_
  split
  · exact nameless_encodingOf a
  · exact .bind (nameless_warnAttribute _ _) fun _ => .pure _

/-! ## Parts of other types -/

lemma nameless_withLength (element : FieldType) (length : Node) :
    (withLength element length).Nameless := by
  unfold withLength
  split
  · exact .malformed _
  · split
    · refine .bind (.lift (direct_numberOf _).isLocal) fun n => ?_
      split
      · exact .pure _
      · exact .invalid _
    · refine .bind (.lift (direct_joinStrings _).isLocal) fun text => ?_
      split
      · exact .pure _
      · exact .invalid _

lemma nameless_applyDeclarator (t : FieldType) (declarator : Node) :
    (applyDeclarator t declarator).Nameless := by
  have hlengths : ((declarator.childrenOf .length).reverse.foldlM withLength t).Nameless :=
    .foldlM _ _ nameless_withLength
  unfold applyDeclarator
  split
  · exact .bind (.invalid _) fun _ => hlengths
  · exact hlengths

lemma nameless_checkTagged (name : String) (t : FieldType) : (checkTagged name t).Nameless := by
  fun_induction checkTagged name t with
  | case1 => exact .invalid _
  | case2 _ _ ih => exact ih
  | case3 _ _ ih => exact ih
  | case4 => exact .pure ()

lemma nameless_require (node : Node) (kind : NodeKind) (fault : Malformed) :
    (require node kind fault).Nameless := by
  unfold require
  split
  · exact .pure _
  · exact .malformed _

lemma nameless_declaratorName (declarator : Node) : (declaratorName declarator).Nameless := by
  unfold declaratorName
  split
  · exact .malformed _
  · split
    · exact .malformed _
    · exact .pure _

lemma nameless_wordsName (specifiers : Node) : (wordsName specifiers).Nameless := by
  unfold wordsName
  split
  · exact .malformed _
  · exact .pure _

lemma nameless_enumeratorBounds (next : Int) (enumerator : Node) :
    (enumeratorBounds next enumerator).Nameless := by
  unfold enumeratorBounds
  split
  · exact .bind (.lift (direct_onlyNumber _).isLocal) fun _ => .pure _
  · split
    · refine .bind (.lift (direct_numberOf _).isLocal) fun _ => ?_
      exact .bind (.lift (direct_numberOf _).isLocal) fun _ => .pure _
    · exact .malformed _
  · exact .pure _

lemma nameless_addEnumerator (container : IntegerType) (before : List LabelRange × Int)
    (enumerator : Node) : (addEnumerator container before enumerator).Nameless := by
  refine .bind (.lift (direct_joinStrings _).isLocal) fun label => ?_
  refine .bind (nameless_enumeratorBounds _ _) fun bounds => ?_
  dsimp only
  split
  · exact .bind (.invalid _) fun _ => .pure _
  · exact .pure _

lemma nameless_declaredAlignment (node : Node) : (declaredAlignment node).Nameless := by
  unfold declaredAlignment
  split
  · exact .pure _
  · refine .bind (.lift (direct_onlyNumber _).isLocal) fun value => ?_
    split
    · exact .pure _
    · exact .invalid _

lemma nameless_declaredTag (node : Node) : (declaredTag node).Nameless := by
  unfold declaredTag
  split
  · exact .pure _
  · refine .bind (.lift (direct_joinStrings _).isLocal) fun text => ?_
    split
    · exact .pure _
    · exact .invalid _

end TypeM

end CommonTrace
