import CommonTrace.Proofs.Field.IntegerRange
import CommonTrace.Proofs.Schema.Trees
import CommonTrace.Proofs.Schema.TypeExpression

/-!
# Enumerations, from their metadata to their labels

An enumerator without a number goes on counting where the enumerator before it has stopped, and metadata
is refused if a number is none of the container's.  A decoded integer is looked up in the ranges that
come of this.  `TypeM.enum_of_buildEnum` puts the three together, for any container and any mixture of
enumerators.

`Enumerated` says which ranges a list of enumerators describes.  It follows the list, and carries along the
ranges that have been described before, for the next number is found behind the last of them
(`nextInteger`).  The builder keeps that number beside the ranges; that the two agree is the invariant of
its loop (`TypeM.enumerated_of_foldlM`).
-/

namespace CommonTrace

open Tsdl

/-! ## Ranges and labels -/

/-- The integer lies in the range. -/
def LabelRange.Covers (range : LabelRange) (v : ℤ) : Prop :=
  range.low ≤ v ∧ v ≤ range.high

instance (range : LabelRange) (v : ℤ) : Decidable (range.Covers v) :=
  inferInstanceAs (Decidable (_ ∧ _))

/-- **The label of an integer**: that of the first range in which it lies, or none if it lies in no
range. -/
inductive IsLabelOf (ranges : List LabelRange) (v : ℤ) : Option String → Prop where
  | first {before after : List LabelRange} {range : LabelRange} (hranges : ranges = before ++ range :: after)
      (hbefore : ∀ earlier ∈ before, ¬earlier.Covers v) (hcovers : range.Covers v) :
      IsLabelOf ranges v (some range.label)
  | none (hnone : ∀ range ∈ ranges, ¬range.Covers v) : IsLabelOf ranges v none

lemma EnumType.isLabelOf_labelOf? (t : EnumType) (v : ℤ) : IsLabelOf t.ranges v (t.labelOf? v) := by
  have hcovers (range : LabelRange) : (range.low ≤ v && v ≤ range.high) = true ↔ range.Covers v := by
    rw [Bool.and_eq_true, decide_eq_true_iff, decide_eq_true_iff, LabelRange.Covers]
  unfold labelOf?
  cases hfound : t.ranges.find? fun range => range.low ≤ v && v ≤ range.high with
  | none =>
    refine .none fun range hrange => ?_
    rw [← hcovers range]
    exact List.find?_eq_none.mp hfound range hrange
  | some range =>
    obtain ⟨hrange, before, after, hsplit, hbefore⟩ := List.find?_eq_some_iff_append.mp hfound
    refine .first hsplit (fun earlier hearlier => ?_) ((hcovers range).mp hrange)
    rw [← hcovers earlier, Bool.not_eq_true]
    exact (Bool.not_eq_true' _).mp (hbefore earlier hearlier)

/-- The integer behind the last range, or zero if there is none. -/
def nextInteger (ranges : List LabelRange) : ℤ :=
  ranges.getLast?.elim 0 (·.high + 1)

@[simp] lemma nextInteger_concat (ranges : List LabelRange) (range : LabelRange) :
    nextInteger (ranges ++ [range]) = range.high + 1 := by
  rw [nextInteger, List.getLast?_concat, Option.elim_some]

/-! ## What enumerators describe -/

/-- The integers that an enumerator stands for behind the given ranges: its number, the numbers from one
to the other, or the integer that comes next. -/
inductive BoundsOf (before : List LabelRange) (enumerator : Node) : ℤ → ℤ → Prop where
  | single {value : Node} {n : ℤ} (hvalue : enumerator.child? .enumValue = some value)
      (hnumber : onlyNumber value = .ok n) : BoundsOf before enumerator n n
  | range {bounds lowest highest : Node} {low high : ℤ} (hvalue : enumerator.child? .enumValue = none)
      (hrange : enumerator.child? .enumValueRange = some bounds)
      (hchildren : bounds.children = [lowest, highest]) (hlow : numberOf lowest = .ok low)
      (hhigh : numberOf highest = .ok high) : BoundsOf before enumerator low high
  | next (hvalue : enumerator.child? .enumValue = none)
      (hrange : enumerator.child? .enumValueRange = none) :
      BoundsOf before enumerator (nextInteger before) (nextInteger before)

/-- **An enumerator describes a range**, behind the ranges of the enumerators before it. -/
structure Describes (before : List LabelRange) (enumerator : Node) (range : LabelRange) : Prop where
  label : joinStrings (enumerator.children.takeWhile Node.isString) = .ok range.label
  bounds : BoundsOf before enumerator range.low range.high

/-- An enumerator without a number covers the integer that comes next, and no other. -/
lemma Describes.covers_iff {before : List LabelRange} {enumerator : Node} {range : LabelRange}
    (h : Describes before enumerator range) (hvalue : enumerator.child? .enumValue = none)
    (hrange : enumerator.child? .enumValueRange = none) (v : ℤ) :
    range.Covers v ↔ v = nextInteger before := by
  obtain ⟨-, hbounds⟩ := h
  rw [LabelRange.Covers]
  generalize range.low = low, range.high = high at hbounds
  cases hbounds with
  | single hsome => rw [hvalue] at hsome; cases hsome
  | range _ hsome => rw [hrange] at hsome; cases hsome
  | next => omega

/-- Enumerators describe ranges one by one, behind the ranges before them. -/
inductive Enumerated : List LabelRange → List Node → List LabelRange → Prop where
  | nil {before : List LabelRange} : Enumerated before [] []
  | cons {before ranges : List LabelRange} {enumerator : Node} {enumerators : List Node}
      {range : LabelRange} (first : Describes before enumerator range)
      (others : Enumerated (before ++ [range]) enumerators ranges) :
      Enumerated before (enumerator :: enumerators) (range :: ranges)

namespace Enumerated

variable {before ranges : List LabelRange} {enumerators : List Node}

/-- There is one range for each enumerator. -/
lemma length_eq (h : Enumerated before enumerators ranges) : ranges.length = enumerators.length := by
  induction h with
  | nil => rfl
  | cons _ _ ih => rw [List.length_cons, List.length_cons, ih]

/-- An enumerator describes the range at its place, behind those at the places before. -/
lemma describes (h : Enumerated before enumerators ranges) {i : ℕ} {enumerator : Node} {range : LabelRange}
    (henumerator : enumerators[i]? = some enumerator) (hrange : ranges[i]? = some range) :
    Describes (before ++ ranges.take i) enumerator range := by
  induction h generalizing i with
  | nil => cases henumerator
  | cons first _ ih =>
    cases i with
    | zero =>
      cases henumerator
      cases hrange
      rwa [List.take_zero, List.append_nil]
    | succ i =>
      have hrest := ih henumerator hrange
      rwa [List.append_assoc, List.singleton_append] at hrest

end Enumerated

/-! ## Building an enumeration -/

namespace TypeM

variable {α β : Type} {table table' : TypeTable}

/-- A step without access to the table has succeeded if what comes behind it has. -/
lemma exists_of_lift_bind_eq_ok {x : Except SchemaError α} {next : α → TypeM β} {b : β}
    (h : ((liftM x : TypeM α) >>= next) table = .ok (b, table')) :
    ∃ a, x = .ok a ∧ next a table = .ok (b, table') := by
  obtain ⟨⟨a, middle⟩, hfirst, hsecond⟩ := exists_of_bind_eq_ok h
  obtain ⟨a', hx, hreturn⟩ := exists_of_bind_eq_ok hfirst
  cases hreturn
  exact ⟨a, hx, hsecond⟩

lemma boundsOf_of_enumeratorBounds {before : List LabelRange} {enumerator : Node} {low high : ℤ}
    (h : enumeratorBounds (nextInteger before) enumerator table = .ok ((low, high), table')) :
    BoundsOf before enumerator low high := by
  unfold enumeratorBounds at h
  cases hvalue : enumerator.child? .enumValue with
  | some value =>
    rw [hvalue] at h
    obtain ⟨n, hnumber, hreturn⟩ := exists_of_lift_bind_eq_ok h
    cases hreturn
    exact .single hvalue hnumber
  | none =>
    rw [hvalue] at h
    cases hrange : enumerator.child? .enumValueRange with
    | none =>
      rw [hrange] at h
      cases h
      exact .next hvalue hrange
    | some bounds =>
      rw [hrange] at h
      rcases hchildren : bounds.children with _ | ⟨lowest, _ | ⟨highest, _ | ⟨other, others⟩⟩⟩
      case cons.cons.nil =>
        dsimp only at h
        rw [hchildren] at h
        obtain ⟨low, hlow, hrest⟩ := exists_of_lift_bind_eq_ok h
        obtain ⟨high, hhigh, hreturn⟩ := exists_of_lift_bind_eq_ok hrest
        cases hreturn
        exact .range hvalue hrange hchildren hlow hhigh
      all_goals
        dsimp only at h
        rw [hchildren] at h
        cases h

/-- A round of the loop adds the range that its enumerator describes, and the next integer is the one behind
that range. -/
lemma describes_of_addEnumerator {container : IntegerType} {before : List LabelRange} {enumerator : Node}
    {after : List LabelRange × ℤ}
    (h : addEnumerator container (before, nextInteger before) enumerator table = .ok (after, table')) :
    ∃ range, Describes before enumerator range ∧
      after = (before ++ [range], nextInteger (before ++ [range])) := by
  obtain ⟨label, hlabel, hrest⟩ := exists_of_lift_bind_eq_ok h
  obtain ⟨⟨⟨low, high⟩, middle⟩, hbounds, hthen⟩ := exists_of_bind_eq_ok hrest
  dsimp only at hthen
  split at hthen
  · cases hthen
  · cases hthen
    refine ⟨⟨label, low, high⟩, ⟨hlabel, boundsOf_of_enumeratorBounds hbounds⟩, ?_⟩
    rw [nextInteger_concat]

/-- The loop adds the ranges that the enumerators describe. -/
lemma enumerated_of_foldlM {container : IntegerType} {enumerators : List Node}
    (before : List LabelRange) {after : List LabelRange × ℤ}
    (h : enumerators.foldlM (addEnumerator container) (before, nextInteger before) table =
      .ok (after, table')) :
    ∃ ranges, after.1 = before ++ ranges ∧ Enumerated before enumerators ranges := by
  induction enumerators generalizing before table with
  | nil =>
    cases h
    exact ⟨[], (List.append_nil _).symm, .nil⟩
  | cons enumerator enumerators ih =>
    rw [List.foldlM_cons] at h
    obtain ⟨⟨middle, table₁⟩, hround, hrest⟩ := exists_of_bind_eq_ok h
    obtain ⟨range, hfirst, rfl⟩ := describes_of_addEnumerator hround
    obtain ⟨ranges, hafter, hothers⟩ := ih _ hrest
    refine ⟨range :: ranges, ?_, .cons hfirst hothers⟩
    rw [hafter, List.append_assoc, List.singleton_append]

/-- A node with a body describes the enumeration of the ranges that its enumerators describe. -/
lemma enumerated_of_buildEnum {resolve : TypeScopeId → String → TypeM FieldType}
    {build : TypeScopeId → Node → TypeM FieldType} {scope : TypeScopeId} {node body : Node}
    {t : FieldType} (hbody : node.child? .enumBody = some body)
    (h : buildEnum resolve build scope node table = .ok (t, table')) :
    ∃ e : EnumType, t = .enum e ∧ Enumerated [] (body.childrenOf .enumerator) e.ranges := by
  obtain ⟨⟨description, table₁⟩, hdescribe, hrest⟩ := exists_of_bind_eq_ok h
  have hdefinition : ∃ name, description = .definition name body := by
    unfold describe at hdescribe
    rw [hbody] at hdescribe
    cases hdescribe
    exact ⟨_, rfl⟩
  obtain ⟨name, rfl⟩ := hdefinition
  obtain ⟨⟨container, table₂⟩, -, hrest⟩ := exists_of_bind_eq_ok hrest
  obtain ⟨⟨after, table₃⟩, hloop, hrest⟩ := exists_of_bind_eq_ok hrest
  obtain ⟨ranges, hranges, henumerated⟩ := enumerated_of_foldlM [] hloop
  obtain ⟨⟨⟨⟩, table₄⟩, -, hreturn⟩ := exists_of_bind_eq_ok hrest
  cases hreturn
  exact ⟨⟨container, after.1⟩, rfl, hranges ▸ henumerated⟩

end TypeM

/-! ## Decoding labelled integers -/

namespace EnumType

/-- What has been decoded has the label of its integer. -/
lemma isLabelOf_of_decode {e : EnumType} {limit : ℕ} {scope : ScopeId} {name : String}
    {s s' : DecodeState} {f : Field} (h : (FieldType.enum e).decode limit scope name s = .ok f s') :
    ∃ n label, f.value = .enum n label ∧ IsLabelOf e.ranges n.value label := by
  obtain ⟨s₁, -, hvalue, -⟩ := FieldType.of_named_ok h
  rw [FieldType.decodeValue] at hvalue
  obtain ⟨n, s₂, -, hreturn⟩ := DecodeM.ok_of_bind hvalue
  obtain ⟨hlabelled, -⟩ := EStateM.Result.ok.inj hreturn
  exact ⟨n, e.labelOf? n.value, hlabelled.symm, e.isLabelOf_labelOf? n.value⟩

/-- **An integer can be decoded** with the label that it has: there are bits, as many as the container is
wide, from which it is decoded wherever they are ahead behind the padding. -/
def Decodes (e : EnumType) (v : ℤ) : Prop :=
  ∃ bits : List Bool, bits.length = e.container.width ∧
    ∀ (limit : ℕ) (scope : ScopeId) (name : String) (s s₁ : DecodeState),
      DecodeM.align e.container.alignment s = .ok () s₁ → s₁.cursor.Ahead e.container.order bits →
      ∃ n label s', (FieldType.enum e).decode limit scope name s = .ok ⟨name, .enum e, .enum n label⟩ s' ∧
        n.value = v ∧ IsLabelOf e.ranges v label

lemma decodes_of_between {e : EnumType} (he : e.container.WellFormed) {v : ℤ}
    (hlow : e.container.minimum ≤ v) (hhigh : v ≤ e.container.maximum) : e.Decodes v := by
  refine ⟨_, length_integerBits e.container.order e.container.width v, ?_⟩
  intro limit scope name s s₁ halign hahead
  obtain ⟨n, s', hread, rfl, -⟩ := he.readsAs_integerBits hlow hhigh s₁ hahead
  refine ⟨n, e.labelOf? n.value, s', ?_, rfl, e.isLabelOf_labelOf? n.value⟩
  rw [FieldType.decode, FieldType.named, FieldType.alignment, DecodeM.bind_of_ok halign,
    FieldType.decodeValue, EnumType.read]
  have hvalue : (e.container.read >>= fun n => pure (Value.enum n (e.labelOf? n.value))) s₁ =
      .ok (.enum n (e.labelOf? n.value)) s' := DecodeM.bind_of_ok hread _
  rw [DecodeM.bind_of_ok hvalue]
  rfl

end EnumType

/-! ## From metadata to labels -/

/-- **What the metadata of an enumeration says is what its decoding gives.**  Let a node with a body be
built, in any table that building types leads to.

* There is one range for each enumerator, in their order, and an enumerator without a number covers exactly
  the integer behind the range before it, the first one zero.
* In either byte order, the bounds within which metadata accepts integers are those of the integers that
  the bits of the container are read as.
* So every integer of every range can be decoded.  What is decoded has the label of the first range in
  which it lies, or no label if there is no such range. -/
theorem TypeM.enum_of_buildEnum {depth : ℕ} {scope : TypeScopeId} {node body : Node} {t : FieldType}
    {table table' : TypeTable} (htable : table.WellFormed) (hbody : node.child? .enumBody = some body)
    (h : buildEnum (resolveNamed (buildSpecifiers depth)) (buildSpecifiers depth) scope node table =
      .ok (t, table')) :
    ∃ e : EnumType, t = .enum e ∧
      e.ranges.length = (body.childrenOf .enumerator).length ∧
      (∀ (i : ℕ) (enumerator : Node) (range : LabelRange),
        (body.childrenOf .enumerator)[i]? = some enumerator → e.ranges[i]? = some range →
        Describes (e.ranges.take i) enumerator range ∧
          (enumerator.child? .enumValue = none → enumerator.child? .enumValueRange = none →
            ∀ v, range.Covers v ↔ v = nextInteger (e.ranges.take i))) ∧
      (∀ (order : ByteOrder) (v : ℤ),
        (e.container.minimum ≤ v ∧ v ≤ e.container.maximum) ↔
          ∃ bits : List Bool, bits.length = e.container.width ∧
            ({ e.container with order } : IntegerType).ReadsAs bits v) ∧
      (∀ range ∈ e.ranges, ∀ v, range.Covers v → e.Decodes v) ∧
      ∀ (limit : ℕ) (scope : ScopeId) (name : String) (s : DecodeState) (f : Field) (s' : DecodeState),
        (FieldType.enum e).decode limit scope name s = .ok f s' →
        ∃ n label, f.value = .enum n label ∧ IsLabelOf e.ranges n.value label := by
  obtain ⟨e, rfl, henumerated⟩ := enumerated_of_buildEnum hbody h
  have hbuild := buildSpecifiers_ensures depth
  obtain ⟨-, -, hwell⟩ := buildEnum_ensures (resolveNamed_ensures hbuild) hbuild scope node table
    (.enum e) table' (Set.empty_subset _) htable h
  cases hwell with
  | enum hcontainer _ hranges =>
    refine ⟨e, rfl, henumerated.length_eq, ?_, ?_, ?_, ?_⟩
    · intro i enumerator range henumerator hrange
      have hdescribes := henumerated.describes henumerator hrange
      rw [List.nil_append] at hdescribes
      exact ⟨hdescribes, hdescribes.covers_iff⟩
    · intro order v
      exact IntegerType.between_iff_exists_readsAs (hcontainer.withOrder order) v
    · intro range hrange v hcovers
      obtain ⟨hminimum, -, hmaximum⟩ := hranges range hrange
      exact EnumType.decodes_of_between hcontainer (hminimum.trans hcovers.1) (hcovers.2.trans hmaximum)
    · intro limit scope name s f s' hdecode
      exact EnumType.isLabelOf_of_decode hdecode

namespace Tsdl.Node

/-- An enumerator with the given number or numbers. -/
def enumerator (label : String) (numbers : List Node) : Node :=
  block .enumerator (word .unaryString label :: numbers)

/-- An enumeration of signed bytes: `A`, `B = -3`, `C`, `D = 5 ... 7`, `E = 7`, `F`. -/
def mixedLabels : Node :=
  block .enum
    [block .enumContainerType
      [block .typeSpecifierList
        [block .integer
          [value "size" (word .unaryDec "8"), value "signed" (word .unaryString "true")]]],
      block .enumBody
        [enumerator "A" [],
          enumerator "B" [block .enumValue [{ kind := .unaryDec, text := "3", children := [word .minus ""] }]],
          enumerator "C" [],
          enumerator "D" [block .enumValueRange [word .unaryDec "5", word .unaryDec "7"]],
          enumerator "E" [block .enumValue [word .unaryDec "7"]],
          enumerator "F" []]]

end Tsdl.Node

theorem TypeM.enum_of_buildEnum_mixedLabels : ∃ (body : Node) (e : EnumType) (table' : TypeTable),
    Node.mixedLabels.child? .enumBody = some body ∧
    buildEnum (resolveNamed (buildSpecifiers 1)) (buildSpecifiers 1) TypeTable.rootScope Node.mixedLabels
      (.empty .little) = .ok (.enum e, table') ∧
    e.ranges = [⟨"A", 0, 0⟩, ⟨"B", -3, -3⟩, ⟨"C", -2, -2⟩, ⟨"D", 5, 7⟩, ⟨"E", 7, 7⟩, ⟨"F", 8, 8⟩] ∧
    e.ranges.length = (body.childrenOf .enumerator).length ∧
    (∃ bits : List Bool, bits.length = 8 ∧
      ({ e.container with order := .big } : IntegerType).ReadsAs bits (-128)) ∧
    e.Decodes (-2) := by
  have hbuilt : (buildEnum (resolveNamed (buildSpecifiers 1)) (buildSpecifiers 1) TypeTable.rootScope
      Node.mixedLabels (.empty .little)).toOption.any (fun result => match result.1 with
        | .enum e => e.container.width = 8 ∧ e.container.minimum = -128 ∧ e.container.maximum = 127 ∧
            e.ranges = [⟨"A", 0, 0⟩, ⟨"B", -3, -3⟩, ⟨"C", -2, -2⟩, ⟨"D", 5, 7⟩, ⟨"E", 7, 7⟩, ⟨"F", 8, 8⟩]
        | _ => false) = true := by decide +kernel
  obtain ⟨⟨t, table'⟩, hsome, hshape⟩ := (Option.any_eq_true _ _).mp hbuilt
  have hok := eq_ok_of_toOption hsome
  obtain ⟨e, rfl, hlength, -, hbounds, hdecodes, -⟩ :=
    TypeM.enum_of_buildEnum (TypeTable.WellFormed.empty .little) rfl hok
  obtain ⟨hwidth, hminimum, hmaximum, hranges⟩ := of_decide_eq_true hshape
  have hlowest := (hbounds .big (-128)).mp (by omega)
  rw [hwidth] at hlowest
  refine ⟨_, e, table', rfl, hok, hranges, hlength, hlowest, ?_⟩
  exact hdecodes ⟨"C", -2, -2⟩ (by rw [hranges]; decide) (-2) (by decide)

end CommonTrace
