import CommonTrace.Proofs.Schema.ScalarType
import CommonTrace.Schema.TypeExpression

/-!
# All types are well formed

Types are built from smaller ones and from named ones.  If these are well formed, so is the type that
is built; a named type that is built on the way is put into the table, which stays well formed.  So all
types that specifiers describe are well formed (`TypeM.buildSpecifiers_ensures`).
-/

namespace CommonTrace

open Tsdl

namespace TypeM

/-- A way to build types gives well-formed types and keeps tables well formed. -/
def Builds (build : TypeScopeId → Node → TypeM FieldType) : Prop :=
  ∀ noted scope specifiers,
    (build scope specifiers).Ensures noted TypeTable.WellFormed FieldType.WellFormed

/-- A way to find named types gives well-formed types and keeps tables well formed. -/
def Resolves (resolve : TypeScopeId → String → TypeM FieldType) : Prop :=
  ∀ noted scope name, (resolve scope name).Ensures noted TypeTable.WellFormed FieldType.WellFormed

variable {noted : Set String} {build : TypeScopeId → Node → TypeM FieldType}
  {resolve : TypeScopeId → String → TypeM FieldType}

/-! ## Arrays and sequences -/

lemma withLength_ensures {element : FieldType} (h : element.WellFormed noted) (length : Node) :
    (withLength element length).Ensures noted TypeTable.WellFormed FieldType.WellFormed := by
  unfold withLength
  split
  · exact .throw
  · split
    · refine .lift_bind fun n _ => ?_
      split
      · rename_i hfits
        exact .pure fun _ hlater => .array (h.mono hlater) ((Int.toNat_lt hfits.1).mpr hfits.2)
      · exact .throw
    · refine .lift_bind fun text _ => ?_
      split
      · exact .pure fun _ hlater => .sequence (h.mono hlater)
      · exact .throw

lemma applyDeclarator_ensures {t : FieldType} (h : t.WellFormed noted) (declarator : Node) :
    (applyDeclarator t declarator).Ensures noted TypeTable.WellFormed FieldType.WellFormed := by
  have hlengths : ((declarator.childrenOf .length).reverse.foldlM withLength t).Ensures noted
      TypeTable.WellFormed FieldType.WellFormed :=
    .foldlM (fun _ hlater => h.mono hlater) fun _ element _ helement length _ =>
      withLength_ensures helement length
  unfold applyDeclarator
  split
  · exact .throw_bind
  · exact hlengths

lemma buildType_ensures (hbuild : Builds build) (scope : TypeScopeId) (specifiers : Node)
    (declarator : Option Node) :
    (buildType build scope specifiers declarator).Ensures noted TypeTable.WellFormed
      FieldType.WellFormed := by
  refine .bind (hbuild noted scope specifiers) fun later t _ ht => ?_
  split
  · rename_i declarator
    exact applyDeclarator_ensures ht declarator
  · exact .pure fun _ hlater => ht.mono hlater

lemma checkTagged_ensures (name : String) (t : FieldType) :
    (checkTagged name t).Ensures noted TypeTable.WellFormed fun _ _ => t.IsTagged := by
  fun_induction checkTagged name t with
  | case1 => exact .throw
  | case2 _ _ ih => exact ih
  | case3 _ _ ih => exact ih
  | case4 t h₁ h₂ h₃ =>
    refine .pure fun _ _ => ?_
    unfold FieldType.IsTagged
    split <;> simp_all

/-! ## Names -/

lemma setEntry_ensures {scope : TypeScopeId} {name : String} {entry : TypeEntry}
    (hentry : ∀ t, entry = .built t → t.WellFormed noted) :
    (modify fun table => table.setEntry scope name entry : TypeM Unit).Ensures noted
      TypeTable.WellFormed fun _ _ => True := by
  refine .modify fun table hnoted h => ⟨subset_rfl, h.setEntry fun t ht => ?_, trivial⟩
  exact (hentry t ht).mono hnoted

lemma resolveNamed_ensures (hbuild : Builds build) : Resolves (resolveNamed build) := by
  intro noted scope name
  refine .get_bind fun table htable _ => ?_
  split
  · exact .throw
  · rename_i t hnearest
    exact .pure fun _ hlater => (htable.lookup? (TypeTable.lookup?_of_nearest? hnearest)).mono hlater
  · exact .throw
  · rename_i home source _
    refine .bind (setEntry_ensures fun _ h => nomatch h) fun _ _ _ _ => ?_
    refine .bind (buildType_ensures hbuild home source.specifiers source.declarator) fun _ t _ ht => ?_
    refine .bind (setEntry_ensures ?_) fun _ _ hlater _ => .pure fun _ hlater' =>
      ht.mono (hlater.trans hlater')
    rintro _ ⟨⟩
    exact ht

lemma resolveAll_keeps (hresolve : Resolves resolve) (scope : TypeScopeId) :
    (resolveAll resolve scope).Keeps := by
  refine .get_bind fun table _ _ => .forM fun later name _ => ?_
  exact .bind (hresolve later scope name) fun _ _ _ _ => .pure fun _ _ => trivial

lemma openScope_keeps (parent : TypeScopeId) : (openScope parent).Keeps := by
  intro noted table a table' _ htable hok
  cases hok
  exact ⟨subset_rfl, htable.push parent, trivial⟩

lemma enter_keeps (scope : TypeScopeId) (name : String) (source : TypeSource) :
    (enter scope name source).Keeps := by
  refine .get_bind fun table _ _ => ?_
  split
  · exact .throw_bind
  · exact setEntry_ensures fun _ h => nomatch h

lemma require_keeps (node : Node) (kind : NodeKind) (fault : Malformed) :
    (require node kind fault).Keeps := by
  unfold require
  split
  · exact .pure fun _ _ => trivial
  · exact .throw

lemma declaratorName_ensures (declarator : Node) :
    (declaratorName declarator).Ensures noted TypeTable.WellFormed fun _ name => name ≠ "" := by
  unfold declaratorName
  split
  · exact .throw
  · split
    · exact .throw
    · rename_i hnonempty
      exact .pure fun _ _ hempty => hnonempty (String.isEmpty_iff.mpr hempty)

lemma declaratorName_keeps (declarator : Node) : (declaratorName declarator).Keeps :=
  (declaratorName_ensures declarator).imp fun _ _ _ => trivial

lemma wordsName_keeps (specifiers : Node) : (wordsName specifiers).Keeps := by
  unfold wordsName
  split
  · exact .throw
  · exact .pure fun _ _ => trivial

lemma aliasName_keeps (aliased : Node) : (aliasName aliased).Keeps := by
  unfold aliasName
  split
  · exact wordsName_keeps _
  · exact .bind (require_keeps _ _ _) fun _ declarator _ _ => declaratorName_keeps declarator

lemma enterDeclared_keeps (scope : TypeScopeId) (node : Node) :
    (enterDeclared scope node).Keeps := by
  unfold enterDeclared
  split
  · refine .bind (require_keeps _ _ _) fun _ target _ _ => ?_
    refine .bind (require_keeps _ _ _) fun _ aliased _ _ => ?_
    refine .bind (require_keeps _ _ _) fun _ specifiers _ _ => ?_
    exact .bind (aliasName_keeps aliased) fun _ name _ _ => enter_keeps _ _ _
  · refine .bind (require_keeps _ _ _) fun _ specifiers _ _ => ?_
    refine .bind (require_keeps _ _ _) fun _ declarators _ _ => .forM fun _ declarator _ => ?_
    exact .bind (declaratorName_keeps declarator) fun _ name _ _ => enter_keeps _ _ _
  · refine .bind (require_keeps _ _ _) fun _ specifiers _ _ => ?_
    split
    · exact enter_keeps _ _ _
    · exact .pure fun _ _ => trivial
  · exact .pure fun _ _ => trivial

lemma enterAll_keeps (scope : TypeScopeId) (nodes : List Node) : (enterAll scope nodes).Keeps :=
  .forM fun _ node _ => enterDeclared_keeps scope node

/-! ## Enumerations -/

lemma makeKnown_ensures (scope : TypeScopeId) (name : Option String) {t : FieldType}
    (ht : t.WellFormed noted) :
    (makeKnown scope name t).Ensures noted TypeTable.WellFormed fun _ _ => True := by
  unfold makeKnown
  split
  · refine .modify fun table hnoted htable => ?_
    split
    · exact ⟨subset_rfl, htable, trivial⟩
    · refine ⟨subset_rfl, htable.setEntry ?_, trivial⟩
      rintro _ ⟨⟩
      exact ht.mono hnoted
  · exact .pure fun _ _ => trivial

lemma describe_keeps (node : Node) (word : String) (nameKind bodyKind : NodeKind)
    (fault : Malformed) :
    (describe node word nameKind bodyKind fault).Keeps := by
  unfold describe
  dsimp only
  split
  · exact .pure fun _ _ => trivial
  · exact .pure fun _ _ => trivial
  · exact .throw

lemma enumeratorBounds_keeps (next : Int) (enumerator : Node) :
    (enumeratorBounds next enumerator).Keeps := by
  unfold enumeratorBounds
  split
  · exact .lift_bind fun _ _ => .pure fun _ _ => trivial
  · split
    · exact .lift_bind fun _ _ => .lift_bind fun _ _ => .pure fun _ _ => trivial
    · exact .throw
  · exact .pure fun _ _ => trivial

lemma addEnumerator_ensures {container : IntegerType} {before : List LabelRange × Int}
    (h : ∀ range ∈ before.1, range.Within container) (enumerator : Node) :
    (addEnumerator container before enumerator).Ensures noted TypeTable.WellFormed
      fun _ after => ∀ range ∈ after.1, range.Within container := by
  refine .lift_bind fun label _ => ?_
  refine .bind (enumeratorBounds_keeps before.2 enumerator) fun _ bounds _ _ => ?_
  obtain ⟨low, high⟩ := bounds
  dsimp only
  split
  · exact .throw_bind
  · rename_i hbounds
    refine .pure fun _ _ range hrange => ?_
    rcases List.mem_append.mp hrange with hrange | hrange
    · exact h range hrange
    · cases List.mem_singleton.mp hrange
      have hlow : container.minimum ≤ low := by omega
      have hle : low ≤ high := by omega
      have hhigh : high ≤ container.maximum := by omega
      exact ⟨hlow, hle, hhigh⟩

lemma containerType_ensures (hresolve : Resolves resolve) (hbuild : Builds build)
    (scope : TypeScopeId) (node : Node) :
    (containerType resolve build scope node).Ensures noted TypeTable.WellFormed fun later t =>
      t.WellFormed ∧ t.IsTimed later := by
  unfold containerType
  split
  · refine .bind (require_keeps _ _ _) fun later specifiers _ _ => ?_
    refine .bind (hbuild later scope specifiers) fun _ t _ ht => ?_
    cases ht with
    | integer h htimed => exact .pure fun _ hlater => ⟨h, htimed.mono hlater⟩
    | _ => exact .throw
  · refine .bind (hresolve noted scope "int") fun _ t _ ht => ?_
    cases ht with
    | integer h htimed => exact .pure fun _ hlater => ⟨h, htimed.mono hlater⟩
    | _ => exact .throw

lemma buildEnum_ensures (hresolve : Resolves resolve) (hbuild : Builds build)
    (scope : TypeScopeId) (node : Node) :
    (buildEnum resolve build scope node).Ensures noted TypeTable.WellFormed
      FieldType.WellFormed := by
  refine .bind (describe_keeps _ _ _ _ _) fun later description _ _ => ?_
  cases description with
  | reference name => exact hresolve later scope name
  | definition name body =>
    refine .bind (containerType_ensures hresolve hbuild scope node) fun _ container _ hcontainer => ?_
    refine .bind (P := fun _ after => ∀ range ∈ after.1, range.Within container) ?_
      fun _ after hlater hranges => ?_
    · exact .foldlM (fun _ _ _ h => absurd h List.not_mem_nil) fun _ before _ h enumerator _ =>
        addEnumerator_ensures h enumerator
    · have ht : (FieldType.enum { container, ranges := after.1 }).WellFormed _ :=
        .enum hcontainer.1 (hcontainer.2.mono hlater) hranges
      exact .bind (makeKnown_ensures scope name ht) fun _ _ hlater' _ => .pure fun _ hlater'' =>
        ht.mono (hlater'.trans hlater'')

/-! ## Structures and variants -/

/-- What the members of a structure or a variant are like. -/
def MembersSound (noted : Set String) (members : List (String × FieldType)) : Prop :=
  FieldType.Members members ∧ ∀ member ∈ members, member.2.WellFormed noted

lemma MembersSound.mono {later : Set String} {members : List (String × FieldType)}
    (h : MembersSound noted members) (hlater : noted ⊆ later) : MembersSound later members :=
  ⟨h.1, fun member hmember => (h.2 member hmember).mono hlater⟩

lemma not_mem_names_of_lookup {members : List (String × FieldType)} {name : String}
    (h : ¬(members.lookup name).isSome = true) : name ∉ members.map Prod.fst := by
  intro hmem
  obtain ⟨member, hmember, rfl⟩ := List.mem_map.mp hmem
  rw [Option.not_isSome_iff_eq_none, List.lookup_eq_none_iff] at h
  have hne := h member hmember
  simp at hne

lemma MembersSound.concat {members : List (String × FieldType)} {name : String} {t : FieldType}
    (h : MembersSound noted members) (hname : name ∉ members.map Prod.fst) (hnonempty : name ≠ "")
    (ht : t.WellFormed noted) (htagged : t.IsTagged) : MembersSound noted (members ++ [(name, t)]) := by
  obtain ⟨⟨hnames, hothers, htags⟩, htypes⟩ := h
  refine ⟨⟨?_, fun member hmember => ?_, fun member hmember => ?_⟩, fun member hmember => ?_⟩
  · rw [List.map_append, List.nodup_append]
    refine ⟨hnames, List.nodup_singleton _, ?_⟩
    rintro _ hold _ hnew rfl
    cases List.mem_singleton.mp hnew
    exact hname hold
  · rcases List.mem_append.mp hmember with hmember | hmember
    · exact hothers member hmember
    · cases List.mem_singleton.mp hmember
      exact hnonempty
  · rcases List.mem_append.mp hmember with hmember | hmember
    · exact htags member hmember
    · cases List.mem_singleton.mp hmember
      exact htagged
  · rcases List.mem_append.mp hmember with hmember | hmember
    · exact htypes member hmember
    · cases List.mem_singleton.mp hmember
      exact ht

lemma addMember_ensures (hbuild : Builds build) (scope : TypeScopeId) (owner : String)
    (specifiers : Node) {before : List (String × FieldType)} (h : MembersSound noted before)
    (declarator : Node) :
    (addMember build scope owner specifiers before declarator).Ensures noted TypeTable.WellFormed
      MembersSound := by
  refine .bind (declaratorName_ensures declarator) fun later name hlater hnonempty => ?_
  split
  · exact .throw_bind
  · rename_i hlookup
    refine .bind (buildType_ensures hbuild scope specifiers (some declarator))
      fun _ t hlater' ht => ?_
    refine .bind (checkTagged_ensures name t) fun _ _ hlater'' htagged => .pure fun _ hlast => ?_
    have hbefore := h.mono (hlater.trans (hlater'.trans (hlater''.trans hlast)))
    exact hbefore.concat (not_mem_names_of_lookup hlookup) hnonempty (ht.mono (hlater''.trans hlast))
      htagged

lemma addMembers_ensures (hbuild : Builds build) (scope : TypeScopeId) (owner : String)
    {before : List (String × FieldType)} (h : MembersSound noted before) (declaration : Node) :
    (addMembers build scope owner before declaration).Ensures noted TypeTable.WellFormed
      MembersSound := by
  refine .bind (require_keeps _ _ _) fun _ specifiers hlater _ => ?_
  refine .bind (require_keeps _ _ _) fun _ declarators hlater' _ => ?_
  refine .foldlM (fun _ hlater'' => h.mono (hlater.trans (hlater'.trans hlater'')))
    fun _ before _ h declarator _ => ?_
  exact addMember_ensures hbuild scope owner specifiers h declarator

lemma buildMembers_ensures (hresolve : Resolves resolve) (hbuild : Builds build)
    (outer : TypeScopeId) (owner : String) (body : Node) :
    (buildMembers resolve build outer owner body).Ensures noted TypeTable.WellFormed MembersSound := by
  have hstart (later : Set String) : MembersSound later [] :=
    ⟨⟨List.nodup_nil, by simp, by simp⟩, by simp⟩
  refine .bind (openScope_keeps outer) fun _ scope _ _ => ?_
  refine .bind (enterAll_keeps scope body.children) fun _ _ _ _ => ?_
  refine .bind (P := MembersSound) ?_ fun _ members _ hmembers => ?_
  · exact .foldlM (fun later _ => hstart later) fun _ before _ h declaration _ =>
      addMembers_ensures hbuild scope owner h declaration
  · exact .bind (resolveAll_keeps hresolve scope) fun _ _ hlater _ => .pure fun _ hlater' =>
      hmembers.mono (hlater.trans hlater')

lemma declaredAlignment_ensures (node : Node) :
    (declaredAlignment node).Ensures noted TypeTable.WellFormed fun _ => IsAlignment := by
  unfold declaredAlignment
  split
  · exact .pure fun _ _ => isAlignment_one
  · refine .lift_bind fun value _ => ?_
    split
    · rename_i hpower
      exact .pure fun _ _ => isAlignment_of_powerOfTwo? hpower
    · exact .throw

lemma buildStruct_ensures (hresolve : Resolves resolve) (hbuild : Builds build)
    (scope : TypeScopeId) (node : Node) :
    (buildStruct resolve build scope node).Ensures noted TypeTable.WellFormed
      FieldType.WellFormed := by
  refine .bind (describe_keeps _ _ _ _ _) fun later description _ _ => ?_
  cases description with
  | reference name => exact hresolve later scope name
  | definition name body =>
    refine .bind (declaredAlignment_ensures node) fun _ alignment _ halignment => ?_
    refine .bind (buildMembers_ensures hresolve hbuild scope "struct" body) fun _ fields _ hfields => ?_
    have ht : (FieldType.struct alignment fields).WellFormed _ :=
      .struct halignment hfields.1 hfields.2
    exact .bind (makeKnown_ensures scope name ht) fun _ _ hlater _ => .pure fun _ hlater' =>
      ht.mono (hlater.trans hlater')

lemma declaredTag_keeps (node : Node) : (declaredTag node).Keeps := by
  unfold declaredTag
  split
  · exact .pure fun _ _ => trivial
  · refine .lift_bind fun text _ => ?_
    split
    · exact .pure fun _ _ => trivial
    · exact .throw

lemma withTag_wellFormed {t : FieldType} (h : t.WellFormed noted) (tag : Option FieldPath) :
    (withTag t tag).WellFormed noted := by
  unfold withTag
  split
  · cases h with
    | variant hmembers hnonempty htypes => exact .variant hmembers hnonempty htypes
  · exact h

lemma buildVariant_ensures (hresolve : Resolves resolve) (hbuild : Builds build)
    (scope : TypeScopeId) (node : Node) :
    (buildVariant resolve build scope node).Ensures noted TypeTable.WellFormed
      FieldType.WellFormed := by
  refine .bind (declaredTag_keeps node) fun _ tag _ _ => ?_
  refine .bind (describe_keeps _ _ _ _ _) fun later description _ _ => ?_
  cases description with
  | reference name =>
    exact .bind (hresolve later scope name) fun _ t _ ht => .pure fun _ hlater =>
      withTag_wellFormed (ht.mono hlater) tag
  | definition name body =>
    refine .bind (buildMembers_ensures hresolve hbuild scope "variant" body) fun later alternatives _ h => ?_
    dsimp only
    split
    · exact .throw_bind
    · rename_i hnonempty
      have ht : (FieldType.variant tag alternatives).WellFormed later := by
        refine .variant h.1 ?_ h.2
        rintro rfl
        exact hnonempty rfl
      exact .bind (makeKnown_ensures scope name ht) fun _ _ hlater _ => .pure fun _ hlater' =>
        ht.mono (hlater.trans hlater')

/-! ## All types -/

lemma interpret_ensures (hresolve : Resolves resolve) (hbuild : Builds build) :
    Builds (interpret resolve build) := by
  intro noted scope specifiers
  unfold interpret
  split
  · exact .throw
  · rename_i first _ _
    split
    · exact .bind (integerType_ensures first) fun _ t _ ht => .pure fun _ hlater =>
        .integer ht.1 (ht.2.mono hlater)
    · exact .bind (floatType_ensures first) fun _ t _ ht => .pure fun _ _ => .float ht
    · exact .bind (stringType_keeps first) fun _ encoding _ _ => .pure fun _ _ => .string encoding
    · exact buildEnum_ensures hresolve hbuild scope first
    · exact buildStruct_ensures hresolve hbuild scope first
    · exact buildVariant_ensures hresolve hbuild scope first
    · exact .bind (wordsName_keeps specifiers) fun later name _ _ => hresolve later scope name
    · exact .throw

/-- **All types that specifiers describe are well formed**, and so are all types that become known
while they are built. -/
theorem buildSpecifiers_ensures (depth : ℕ) : Builds (buildSpecifiers depth) := by
  induction depth with
  | zero => exact fun noted scope specifiers => .throw
  | succ depth ih => exact interpret_ensures (resolveNamed_ensures ih) ih

end TypeM

end CommonTrace
