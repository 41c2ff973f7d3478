import CommonTrace.Proofs.Tsdl.Rearranged
import CommonTrace.Schema.TypeExpression

/-!
# Reading like trees

Nothing that is read of a node without regard to names depends on where definitions stand.  Rearranged nodes
have the same texts and numbers in them, make the same assignments, describe the same types without parts,
and give the same names to types.
-/

namespace CommonTrace

open Tsdl

namespace Tsdl.Node.Rearranged

variable {node node' : Node} {nodes nodes' : List Node}

/-! ## Texts and numbers -/

lemma isString_eq (h : node.Rearranged node') : node.isString = node'.isString := by
  rw [isString, isString, h.kind_eq]

lemma isNumber_eq (h : node.Rearranged node') : node.isNumber = node'.isNumber := by
  rw [isNumber, isNumber, h.kind_eq]

lemma linkText_eq (h : node.Rearranged node') : linkText node = linkText node' := by
  rw [linkText, linkText, h.hasChild_eq rfl, h.hasChild_eq rfl]

lemma numberOf_eq (h : node.Rearranged node') : numberOf node = numberOf node' := by
  rw [numberOf, numberOf, h.kind_eq, h.text_eq, h.hasChild_eq rfl]

lemma onlyNumber_eq (h : node.Rearranged node') (hscope : node.kind.isScope = false) :
    onlyNumber node = onlyNumber node' := by
  have hchildren := h.children hscope
  unfold onlyNumber
  generalize node.children = children, node'.children = children' at hchildren
  cases hchildren with
  | nil => rfl
  | cons hfirst hrest =>
    cases hrest with
    | nil => exact hfirst.numberOf_eq
    | cons _ _ => rfl

/-- Related nodes have equal texts. -/
lemma map_eq {α : Type} {f : Node → α} (h : List.Forall₂ Rearranged nodes nodes')
    (hf : ∀ node node', node.Rearranged node' → f node = f node') : nodes.map f = nodes'.map f := by
  induction h with
  | nil => rfl
  | cons hfirst _ ih => rw [List.map_cons, List.map_cons, hf _ _ hfirst, ih]

/-- The strings before anything else. -/
lemma takeWhile_isString (h : List.Forall₂ Rearranged nodes nodes') :
    List.Forall₂ Rearranged (nodes.takeWhile isString) (nodes'.takeWhile isString) := by
  induction h with
  | nil => exact .nil
  | cons hfirst _ ih =>
    rw [List.takeWhile_cons, List.takeWhile_cons, hfirst.isString_eq]
    split
    · exact .cons hfirst ih
    · exact .nil

lemma joinStrings_eq (h : List.Forall₂ Rearranged nodes nodes') :
    joinStrings nodes = joinStrings nodes' := by
  have hother := forall₂_find? h fun _ _ h => congrArg not h.isString_eq
  cases h with
  | nil => rfl
  | @cons first first' rest rest' hfirst hrest =>
    have hpieces : (rest.map fun node => linkText node ++ node.text) =
        rest'.map fun node => linkText node ++ node.text :=
      map_eq hrest fun _ _ h => by rw [h.linkText_eq, h.text_eq]
    unfold joinStrings
    generalize (first :: rest).find? _ = other, (first' :: rest').find? _ = other' at hother
    cases hother with
    | none => simp only [hfirst.text_eq, hpieces]
    | some h => simp only [h.kind_eq]

end Tsdl.Node.Rearranged

/-! ## Assignments -/

/-- Two computations that fail alike, or succeed with related results. -/
def Alike {α β : Type} (R : α → β → Prop) (x : Except SchemaError α) (y : Except SchemaError β) :
    Prop :=
  (∃ error, x = .error error ∧ y = .error error) ∨ ∃ a b, x = .ok a ∧ y = .ok b ∧ R a b

/-- Related loops do the same if each of their rounds does. -/
lemma foldlM_eq {m : Type → Type} [Monad m] {ι α : Type} {R : ι → ι → Prop} {items items' : List ι}
    {step : α → ι → m α} (h : List.Forall₂ R items items')
    (hstep : ∀ a item item', R item item' → step a item = step a item') (start : α) :
    items.foldlM step start = items'.foldlM step start := by
  induction h generalizing start with
  | nil => rfl
  | cons hfirst _ ih =>
    rw [List.foldlM_cons, List.foldlM_cons, hstep _ _ _ hfirst]
    simp only [ih]

namespace Assignment

/-- Like assignments: they have the same key, and their values are like. -/
structure Like (R : Node → Node → Prop) (a a' : Assignment) : Prop where
  key_eq : a.key = a'.key
  value : List.Forall₂ R a.value a'.value

section Likeness

variable {R : Node → Node → Prop} {node node' : Node} {a a' : Assignment}

lemma Like.rearranged (like : Node.Likeness R) (h : a.Like R a') : a.Like Node.Rearranged a' :=
  ⟨h.key_eq, h.value.imp fun _ _ => like.rearranged⟩

lemma alike_ofNode (like : Node.Likeness R) (h : R node node') :
    Alike (Like R) (ofNode node) (ofNode node') := by
  unfold ofNode
  rcases like.child? h (show NodeKind.ctfLeft.isDefinition = false from rfl) with
    ⟨hnone, hnone'⟩ | ⟨left, left', hleft, hleft', hsame⟩
  · rw [hnone, hnone']
    exact .inl ⟨_, rfl, rfl⟩
  rcases like.child? h (show NodeKind.ctfRight.isDefinition = false from rfl) with
    ⟨hnone, hnone'⟩ | ⟨right, right', hright, hright', hvalue⟩
  · rw [hleft, hleft', hnone, hnone']
    exact .inl ⟨_, rfl, rfl⟩
  have hkey := Node.Rearranged.joinStrings_eq
    ((like.rearranged hsame).children (by rw [Node.kind_of_child? hleft]; rfl))
  have hchildren := like.children hvalue (by rw [Node.kind_of_child? hright]; rfl)
  rw [hleft, hleft', hright, hright']
  dsimp only
  rw [hkey]
  cases joinStrings left'.children with
  | error e => exact .inl ⟨_, rfl, rfl⟩
  | ok key => exact .inr ⟨_, _, rfl, rfl, rfl, hchildren⟩

lemma alike_ofChildren (h : node.Rearranged node') :
    Alike (List.Forall₂ (Like Node.Rearranged)) (ofChildren node) (ofChildren node') := by
  have hchildren := h.childrenOf (show NodeKind.ctfExpressionVal.isDefinition = false from rfl)
  unfold ofChildren
  generalize node.childrenOf _ = nodes, node'.childrenOf _ = nodes' at hchildren
  induction hchildren with
  | nil => exact .inr ⟨[], [], rfl, rfl, .nil⟩
  | @cons first first' rest rest' hfirst _ ih =>
    rw [List.mapM_cons, List.mapM_cons]
    rcases alike_ofNode .ofRearranged hfirst with ⟨e, he, he'⟩ | ⟨a, a', ha, ha', hsame⟩
    · rw [he, he']
      exact .inl ⟨e, rfl, rfl⟩
    rw [ha, ha']
    rcases ih with ⟨e, he, he'⟩ | ⟨as, as', has, has', hsames⟩
    · rw [he, he']
      exact .inl ⟨e, rfl, rfl⟩
    · rw [has, has']
      exact .inr ⟨_, _, rfl, rfl, .cons hsame hsames⟩

lemma alike_type (like : Node.Likeness R) (h : a.Like R a') : Alike R a.type a'.type := by
  have hfound := Node.forall₂_find? (p := (·.kind = .typeSpecifierList)) h.value fun _ _ h => by
    rw [(like.rearranged h).kind_eq]
  unfold type
  rw [mustBe, mustBe, h.key_eq]
  generalize a.value.find? _ = specifiers, a'.value.find? _ = specifiers' at hfound
  cases hfound with
  | none => exact .inl ⟨_, rfl, rfl⟩
  | some h => exact .inr ⟨_, _, rfl, rfl, h⟩

lemma like_declarator? (like : Node.Likeness R) (h : a.Like R a') :
    Option.Rel R a.declarator? a'.declarator? :=
  Node.forall₂_find? h.value fun _ _ h => by rw [(like.rearranged h).kind_eq]

end Likeness

namespace Like

variable {a a' : Assignment}

lemma mustBe_eq (h : a.Like Node.Rearranged a') {α : Type} (expected : Expected) :
    (a.mustBe expected : Except _ α) = a'.mustBe expected := by
  rw [mustBe, mustBe, h.key_eq]

lemma string_eq (h : a.Like Node.Rearranged a') : a.string = a'.string := by
  rw [string, string, Node.Rearranged.joinStrings_eq h.value]
  simp only [h.mustBe_eq]

lemma number_eq (h : a.Like Node.Rearranged a') : a.number = a'.number := by
  have hvalue := h.value
  unfold number
  simp only [h.mustBe_eq]
  generalize a.value = value, a'.value = value' at hvalue
  cases hvalue with
  | nil => rfl
  | cons hfirst hrest =>
    cases hrest with
    | nil => simp only [hfirst.numberOf_eq]
    | cons _ _ => rfl

lemma unsigned_eq (h : a.Like Node.Rearranged a') : a.unsigned = a'.unsigned := by
  simp only [unsigned, h.number_eq, h.mustBe_eq]

lemma signed_eq (h : a.Like Node.Rearranged a') : a.signed = a'.signed := by
  simp only [signed, h.number_eq, h.mustBe_eq]

lemma boolean_eq (h : a.Like Node.Rearranged a') : a.boolean = a'.boolean := by
  simp only [boolean, h.number_eq, h.string_eq, h.mustBe_eq]

end Like

end Assignment

/-! ## Types without parts -/

namespace TypeM

variable {node node' : Node} {a a' : Assignment}

/-- What is read alike without a table goes on alike. -/
lemma lift_bind_eq {α β γ : Type} {R : α → β → Prop} {x : Except SchemaError α}
    {y : Except SchemaError β} {next : α → TypeM γ} {next' : β → TypeM γ} (h : Alike R x y)
    (hnext : ∀ a b, R a b → next a = next' b) :
    (liftM x : TypeM α) >>= next = (liftM y : TypeM β) >>= next' := by
  rcases h with ⟨e, rfl, rfl⟩ | ⟨a, b, rfl, rfl, hab⟩
  · rfl
  · exact hnext a b hab

lemma byteOrderOf_eq (h : a.Like Node.Rearranged a') : byteOrderOf a = byteOrderOf a' := by
  rw [byteOrderOf, byteOrderOf, h.string_eq]

lemma alignmentOf_eq (h : a.Like Node.Rearranged a') : alignmentOf a = alignmentOf a' := by
  rw [alignmentOf, alignmentOf, h.number_eq]

lemma baseOf_eq (h : a.Like Node.Rearranged a') : baseOf a = baseOf a' := by
  rw [baseOf, baseOf, h.number_eq, h.string_eq]

lemma encodingOf_eq (h : a.Like Node.Rearranged a') : encodingOf a = encodingOf a' := by
  rw [encodingOf, encodingOf, h.string_eq]

lemma clockOf_eq (h : a.Like Node.Rearranged a') : clockOf a = clockOf a' := by
  rw [clockOf, clockOf, h.string_eq]

lemma assignInteger_eq (draft : IntegerDraft) (a a' : Assignment) (h : a.Like Node.Rearranged a') :
    assignInteger draft a = assignInteger draft a' := by
  rw [assignInteger, assignInteger, h.key_eq, h.unsigned_eq, h.boolean_eq, byteOrderOf_eq h,
    alignmentOf_eq h, baseOf_eq h, encodingOf_eq h, clockOf_eq h]

lemma integerType_eq (h : node.Rearranged node') : integerType node = integerType node' := by
  refine bind_congr fun table => lift_bind_eq (Assignment.alike_ofChildren h) fun as as' hsame => ?_
  rw [foldlM_eq hsame assignInteger_eq]

lemma assignFloat_eq (draft : FloatDraft) (a a' : Assignment) (h : a.Like Node.Rearranged a') :
    assignFloat draft a = assignFloat draft a' := by
  rw [assignFloat, assignFloat, h.key_eq, h.unsigned_eq, byteOrderOf_eq h, alignmentOf_eq h]

lemma floatType_eq (h : node.Rearranged node') : floatType node = floatType node' := by
  refine bind_congr fun table => lift_bind_eq (Assignment.alike_ofChildren h) fun as as' hsame => ?_
  rw [foldlM_eq hsame assignFloat_eq]

lemma stringType_eq (h : node.Rearranged node') : stringType node = stringType node' := by
  refine lift_bind_eq (Assignment.alike_ofChildren h) fun as as' hsame => ?_
  refine foldlM_eq hsame (fun encoding a a' h => ?_) _
  rw [h.key_eq, encodingOf_eq h]

/-! ## Parts of other types -/

lemma withLength_eq (element : FieldType) {length length' : Node} (h : length.Rearranged length')
    (hkind : length.kind = .length) : withLength element length = withLength element length' := by
  have hchildren := h.children (by rw [hkind]; rfl)
  have htext := Node.Rearranged.joinStrings_eq hchildren
  unfold withLength
  generalize length.children = children, length'.children = children' at hchildren htext
  cases hchildren with
  | nil => rfl
  | cons hfirst _ =>
    dsimp only
    rw [hfirst.isNumber_eq, hfirst.numberOf_eq, htext]

lemma applyDeclarator_eq (t : FieldType) {declarator declarator' : Node}
    (h : declarator.Rearranged declarator') :
    applyDeclarator t declarator = applyDeclarator t declarator' := by
  have hlengths := h.childrenOf_kind (show NodeKind.length.isDefinition = false from rfl)
  have hsame := foldlM_eq (List.rel_reverse hlengths)
    (fun element length length' h => withLength_eq element h.1 h.2) t
  rw [applyDeclarator, applyDeclarator, h.hasChild_eq rfl, hsame]

lemma declaratorName_eq {declarator declarator' : Node} (h : declarator.Rearranged declarator') :
    declaratorName declarator = declaratorName declarator' := by
  unfold declaratorName
  rcases h.child? (show NodeKind.identifier.isDefinition = false from rfl) with
    ⟨hnone, hnone'⟩ | ⟨identifier, identifier', hsome, hsome', hsame⟩
  · rw [hnone, hnone']
  · rw [hsome, hsome']
    dsimp only
    rw [hsame.text_eq]

lemma wordsName_eq {specifiers specifiers' : Node} (h : specifiers.Rearranged specifiers') :
    wordsName specifiers = wordsName specifiers' := by
  have hwords := h.childrenOf (show NodeKind.typeName.isDefinition = false from rfl)
  have hkept := Node.forall₂_filter (p := (·.text ≠ "const")) hwords fun _ _ h => by
    rw [h.text_eq]
  have htexts := Node.Rearranged.map_eq hkept fun _ _ h => h.text_eq
  unfold wordsName
  generalize (specifiers.childrenOf _).filter _ = words, (specifiers'.childrenOf _).filter _ = words'
    at hkept htexts
  cases hkept with
  | nil => rfl
  | cons _ _ =>
    dsimp only
    rw [htexts]

lemma aliasName_eq {aliased aliased' : Node} (h : aliased.Rearranged aliased') :
    aliasName aliased = aliasName aliased' := by
  unfold aliasName
  rcases h.child? (show NodeKind.typeSpecifierList.isDefinition = false from rfl) with
    ⟨hnone, hnone'⟩ | ⟨specifiers, specifiers', hsome, hsome', hsame⟩
  · rw [hnone, hnone']
    dsimp only
    unfold require
    rcases h.child? (show NodeKind.typeDeclarator.isDefinition = false from rfl) with
      ⟨hnone, hnone'⟩ | ⟨declarator, declarator', hsome, hsome', hsame⟩
    · rw [hnone, hnone']
    · rw [hsome, hsome']
      exact declaratorName_eq hsame
  · rw [hsome, hsome']
    exact wordsName_eq hsame

lemma compoundName?_eq (h : node.Rearranged node') : compoundName? node = compoundName? node' := by
  have hname (word : String) {nameKind bodyKind : NodeKind} (hname : nameKind.isDefinition = false)
      (hbody : bodyKind.isDefinition = false) :
      ((node.child? bodyKind).bind fun _ => (node.child? nameKind).bind fun name =>
        some s!"{word} {name.text}") =
      (node'.child? bodyKind).bind fun _ => (node'.child? nameKind).bind fun name =>
        some s!"{word} {name.text}" := by
    rcases h.child? hbody with ⟨hnone, hnone'⟩ | ⟨body, body', hsome, hsome', -⟩
    · rw [hnone, hnone']
      rfl
    · rw [hsome, hsome']
      rcases h.child? hname with ⟨hnone, hnone'⟩ | ⟨name, name', hsome, hsome', hsame⟩
      · rw [hnone, hnone']
        rfl
      · rw [hsome, hsome', Option.bind_some, Option.bind_some, hsame.text_eq]
        rfl
  unfold compoundName?
  rw [h.kind_eq]
  split <;> first | exact hname _ rfl rfl | rfl

lemma enumeratorBounds_eq (next : Int) (h : node.Rearranged node') :
    enumeratorBounds next node = enumeratorBounds next node' := by
  unfold enumeratorBounds
  rcases h.child? (show NodeKind.enumValue.isDefinition = false from rfl) with
    ⟨hnone, hnone'⟩ | ⟨value, value', hsome, hsome', hsame⟩
  · rw [hnone, hnone']
    rcases h.child? (show NodeKind.enumValueRange.isDefinition = false from rfl) with
      ⟨hnone, hnone'⟩ | ⟨range, range', hsome, hsome', hsame⟩
    · rw [hnone, hnone']
    · have hbounds := hsame.children (by rw [Node.kind_of_child? hsome]; rfl)
      rw [hsome, hsome']
      dsimp only
      generalize range.children = bounds, range'.children = bounds' at hbounds
      rcases hbounds with _ | ⟨hlow, _ | ⟨hhigh, _ | _⟩⟩
      · rfl
      · rfl
      · dsimp only
        rw [hlow.numberOf_eq, hhigh.numberOf_eq]
      · rfl
  · rw [hsome, hsome']
    dsimp only
    rw [hsame.onlyNumber_eq (by rw [Node.kind_of_child? hsome]; rfl)]

lemma addEnumerator_eq (container : IntegerType) (before : List LabelRange × Int)
    (h : node.Rearranged node') (hkind : node.kind = .enumerator) :
    addEnumerator container before node = addEnumerator container before node' := by
  have hstrings := Node.Rearranged.takeWhile_isString (h.children (by rw [hkind]; rfl))
  rw [addEnumerator, addEnumerator, Node.Rearranged.joinStrings_eq hstrings,
    enumeratorBounds_eq before.2 h]

lemma declaredAlignment_eq (h : node.Rearranged node') :
    declaredAlignment node = declaredAlignment node' := by
  unfold declaredAlignment
  rcases h.child? (show NodeKind.structAlign.isDefinition = false from rfl) with
    ⟨hnone, hnone'⟩ | ⟨align, align', hsome, hsome', hsame⟩
  · rw [hnone, hnone']
  · rw [hsome, hsome']
    dsimp only
    rw [hsame.onlyNumber_eq (by rw [Node.kind_of_child? hsome]; rfl)]

lemma declaredTag_eq (h : node.Rearranged node') : declaredTag node = declaredTag node' := by
  unfold declaredTag
  rcases h.child? (show NodeKind.variantTag.isDefinition = false from rfl) with
    ⟨hnone, hnone'⟩ | ⟨tag, tag', hsome, hsome', hsame⟩
  · rw [hnone, hnone']
  · have hchildren := hsame.children (by rw [Node.kind_of_child? hsome]; rfl)
    rw [hsome, hsome']
    dsimp only
    rw [Node.Rearranged.joinStrings_eq hchildren]

/-! ## Compound types -/

/-- The word before the names of compound types of a kind, with the kinds of the nodes for the name and for
the body. -/
inductive CompoundKinds : NodeKind → String → NodeKind → NodeKind → Prop
  | struct : CompoundKinds .struct "struct" .structName .structBody
  | variant : CompoundKinds .variant "variant" .variantName .variantBody
  | enum : CompoundKinds .enum "enum" .enumName .enumBody

section Describe

variable {R : Node → Node → Prop} {kind nameKind bodyKind : NodeKind} {word name : String}

lemma CompoundKinds.isDefinition_name (h : CompoundKinds kind word nameKind bodyKind) :
    nameKind.isDefinition = false := by
  cases h <;> rfl

lemma CompoundKinds.isDefinition_body (h : CompoundKinds kind word nameKind bodyKind) :
    bodyKind.isDefinition = false := by
  cases h <;> rfl

/-- The name of a compound type that is described elsewhere. -/
inductive ReferredName (node : Node) : String → Prop
  | intro {word : String} {nameKind bodyKind : NodeKind} {name : Node}
      (hkinds : CompoundKinds node.kind word nameKind bodyKind)
      (hbody : node.child? bodyKind = none) (hname : node.child? nameKind = some name) :
      ReferredName node s!"{word} {name.text}"

/-- What like nodes describe: they are both at fault, they refer to the same name, or they have like bodies
and the same name. -/
lemma describe_cases (like : Node.Likeness R) (h : R node node')
    (hkinds : CompoundKinds node.kind word nameKind bodyKind) (fault : Malformed) :
    (describe node word nameKind bodyKind fault = malformed fault ∧
        describe node' word nameKind bodyKind fault = malformed fault) ∨
      (∃ name, describe node word nameKind bodyKind fault = pure (.reference name) ∧
        describe node' word nameKind bodyKind fault = pure (.reference name) ∧
        ReferredName node name) ∨
      ∃ name body body', describe node word nameKind bodyKind fault = pure (.definition name body) ∧
        describe node' word nameKind bodyKind fault = pure (.definition name body') ∧
        R body body' ∧ node.child? bodyKind = some body ∧ node'.child? bodyKind = some body' ∧
        ∀ known ∈ name, compoundName? node = some known := by
  have hcompound : compoundName? node = (node.child? bodyKind).bind fun _ =>
      (node.child? nameKind).bind fun name => some s!"{word} {name.text}" := by
    unfold compoundName?
    generalize hkind : node.kind = kind at hkinds
    cases hkinds <;> rfl
  unfold describe
  rcases like.child? h hkinds.isDefinition_name with
    ⟨hnone, hnone'⟩ | ⟨name, name', hname, hname', hsame⟩
  · rcases like.child? h hkinds.isDefinition_body with
      ⟨hbody, hbody'⟩ | ⟨body, body', hbody, hbody', hlike⟩
    · left
      rw [hnone, hnone', hbody, hbody']
      exact ⟨rfl, rfl⟩
    · right; right
      rw [hnone, hnone', hbody, hbody']
      exact ⟨none, body, body', rfl, rfl, hlike, rfl, rfl, nofun⟩
  · have htext : name'.text = name.text := (like.rearranged hsame).text_eq.symm
    rcases like.child? h hkinds.isDefinition_body with
      ⟨hbody, hbody'⟩ | ⟨body, body', hbody, hbody', hlike⟩
    · right; left
      rw [hname, hname', hbody, hbody', Option.map_some, Option.map_some, htext]
      exact ⟨_, rfl, rfl, .intro hkinds hbody hname⟩
    · right; right
      rw [hname, hname', hbody, hbody', Option.map_some, Option.map_some, htext]
      refine ⟨_, body, body', rfl, rfl, hlike, rfl, rfl, ?_⟩
      rintro _ ⟨⟩
      rw [hcompound, hbody, hname]
      rfl

end Describe

end TypeM

end CommonTrace
