import CommonTrace.Proofs.Field.Conformance
import CommonTrace.Proofs.Name.FieldPath
import CommonTrace.Proofs.Schema.Parts

/-!
# Ways through decoded fields

From a block one gets to the fields of its structures, and through a variant to the alternative that was
selected.  Each step has a name, that of the member or that of the selection (`Arena.Step`), and a path makes
the steps that it names.  It may leave out a selection if the alternative is a structure, and go to a member
of it at once (`Arena.LooseStep`).

That a path leads to the field that is meant depends on the names: no two members of a structure may be
called the same, and the alternative of a variant has to be called by its selection.  Then the value is *tidy*
(`Arena.Tidy`).  A member of a structure inside an alternative can still be hidden by the name of the
alternative itself, but only from a path that leaves this name out.

Whatever is decoded is tidy if the names in its type are (`FieldType.tidy_of_decodeBlock`).
-/

namespace CommonTrace

/-! ## Steps -/

/-- Whether no path leads on from a value. -/
def Value.isLeaf : Value → Bool
  | .struct _ => false
  | .variant _ _ => false
  | _ => true

namespace Arena

variable {a : Arena} {f g : Field} {name : String} {names : List String}

/-- **A step down, by name**: to a member of a structure, or to the selected alternative of a variant. -/
inductive Step (a : Arena) : Field → String → Field → Prop
  | member {f g : Field} {scope : ScopeId} (hvalue : f.value = .struct scope)
      (hmem : g ∈ a.fields scope) : Step a f g.name g
  | selected {f g : Field} {selection : String} (hvalue : f.value = .variant selection g) :
      Step a f selection g

/-- **A step down that may leave out a selection**, if the alternative is a structure. -/
inductive LooseStep (a : Arena) : Field → String → Field → Prop
  | step {f g : Field} {name : String} (h : a.Step f name g) : LooseStep a f name g
  | inside {f inner g : Field} {selection name : String} {scope : ScopeId}
      (hvalue : f.value = .variant selection inner) (hstruct : inner.value = .struct scope)
      (h : a.Step inner name g) : LooseStep a f name g

/-- Steps one after the other. -/
inductive Leads (R : Field → String → Field → Prop) : Field → List String → Field → Prop
  | here (f : Field) : Leads R f [] f
  | on {f g h : Field} {name : String} {names : List String} (first : R f name g)
      (rest : Leads R g names h) : Leads R f (name :: names) h

/-! ## Tidy values -/

/-- **A tidy value**: the members of its structures have distinct names, the alternatives of its variants are
called by their selections, and all these names can stand in paths.  The elements of arrays and sequences are
not looked at, because no path leads to them. -/
inductive Tidy (a : Arena) : Value → Prop
  | leaf {v : Value} (hleaf : v.isLeaf = true) : Tidy a v
  | struct {scope : ScopeId} (names : ((a.fields scope).map Field.name).Nodup)
      (segments : ∀ f ∈ a.fields scope, IsSegment f.name)
      (members : ∀ f ∈ a.fields scope, Tidy a f.value) : Tidy a (.struct scope)
  | variant {selection : String} {inner : Field} (name_eq : inner.name = selection)
      (segment : IsSegment selection) (alternative : Tidy a inner.value) :
      Tidy a (.variant selection inner)

namespace Tidy

variable {scope : ScopeId} {selection : String} {inner : Field}

lemma names_nodup (h : a.Tidy (.struct scope)) : ((a.fields scope).map Field.name).Nodup := by
  cases h with
  | leaf hleaf => cases hleaf
  | struct names => exact names

lemma member (h : a.Tidy (.struct scope)) (hmem : g ∈ a.fields scope) :
    IsSegment g.name ∧ a.Tidy g.value := by
  cases h with
  | leaf hleaf => cases hleaf
  | struct _ segments members => exact ⟨segments g hmem, members g hmem⟩

lemma selected (h : a.Tidy (.variant selection inner)) :
    inner.name = selection ∧ IsSegment selection ∧ a.Tidy inner.value := by
  cases h with
  | leaf hleaf => cases hleaf
  | variant name_eq segment alternative => exact ⟨name_eq, segment, alternative⟩

/-- A step in a tidy value has a name that can stand in a path, and leads to a tidy value. -/
lemma of_step (h : a.Tidy f.value) (hstep : a.Step f name g) : IsSegment name ∧ a.Tidy g.value := by
  cases hstep with
  | member hvalue hmem =>
    rw [hvalue] at h
    exact h.member hmem
  | selected hvalue =>
    rw [hvalue] at h
    exact h.selected.2

lemma of_looseStep (h : a.Tidy f.value) (hstep : a.LooseStep f name g) : a.Tidy g.value := by
  cases hstep with
  | step hstep => exact (h.of_step hstep).2
  | inside hvalue _ hstep =>
    rw [hvalue] at h
    exact (h.selected.2.2.of_step hstep).2

end Tidy

lemma Leads.segments (h : Leads a.Step f names g) (htidy : a.Tidy f.value) :
    ∀ name ∈ names, IsSegment name := by
  induction h with
  | here => exact fun _ hname => absurd hname List.not_mem_nil
  | on first _ ih =>
    obtain ⟨hsegment, hnext⟩ := htidy.of_step first
    exact List.forall_mem_cons.mpr ⟨hsegment, ih hnext⟩

/-! ## Descending by names -/

/-- A field of a tidy structure is found by its name. -/
lemma Tidy.field? {scope : ScopeId} (h : a.Tidy (.struct scope)) (hmem : g ∈ a.fields scope) :
    a.field? scope g.name = some g := by
  have hnodup := h.names_nodup
  rw [field?_eq_find?]
  generalize a.fields scope = fs at hnodup hmem
  induction fs with
  | nil => cases hmem
  | cons f fs ih =>
    rw [List.map_cons, List.nodup_cons] at hnodup
    obtain ⟨hnotin, hrest⟩ := hnodup
    rcases List.mem_cons.mp hmem with rfl | hmem
    · simp
    · have hne : f.name ≠ g.name := fun heq => hnotin (heq ▸ List.mem_map_of_mem hmem)
      rw [List.find?_cons, beq_false_of_ne hne]
      exact ih hrest hmem

lemma mem_fields_of_field? {scope : ScopeId} (h : a.field? scope name = some g) :
    g ∈ a.fields scope ∧ g.name = name := by
  rw [field?_eq_find?] at h
  exact ⟨List.mem_of_find?_eq_some h, by simpa using List.find?_some h⟩

/-- **A path makes every step**, and comes to the field that the step leads to. -/
lemma Step.member?_eq (h : a.Step f name g) (htidy : a.Tidy f.value) : a.member? f name = some g := by
  cases h with
  | member hvalue hmem =>
    rw [hvalue] at htidy
    rw [member?, hvalue]
    exact htidy.field? hmem
  | selected hvalue =>
    rw [hvalue] at htidy
    rw [member?, hvalue]
    exact if_pos htidy.selected.1

/-- **A path makes no other steps** than those to members and alternatives, some without a selection. -/
lemma looseStep_of_member? (h : a.member? f name = some g) (htidy : a.Tidy f.value) :
    a.LooseStep f name g := by
  unfold member? at h
  split at h
  · rename_i scope hvalue
    obtain ⟨hmem, rfl⟩ := mem_fields_of_field? h
    exact .step (.member hvalue hmem)
  · rename_i selection inner hvalue
    rw [hvalue] at htidy
    split at h
    · rename_i hname
      cases h
      obtain rfl : selection = name := htidy.selected.1.symm.trans hname
      exact .step (.selected hvalue)
    · split at h
      · rename_i scope hstruct
        obtain ⟨hmem, rfl⟩ := mem_fields_of_field? h
        exact .inside hvalue hstruct (.member hstruct hmem)
      · cases h
  · cases h

/-- Descending follows steps. -/
lemma Leads.descend?_eq (h : Leads a.Step f names g) (htidy : a.Tidy f.value) :
    a.descend? f names = some g := by
  induction h with
  | here => rfl
  | on first _ ih =>
    rw [descend?, List.foldlM_cons, first.member?_eq htidy]
    exact ih (htidy.of_step first).2

/-- Where descending leads, steps lead too. -/
lemma leads_of_descend? (h : a.descend? f names = some g) (htidy : a.Tidy f.value) :
    Leads a.LooseStep f names g := by
  induction names generalizing f with
  | nil =>
    obtain rfl : f = g := Option.some.inj h
    exact .here f
  | cons name names ih =>
    rw [descend?, List.foldlM_cons] at h
    obtain ⟨next, hmember, hrest⟩ := Option.bind_eq_some_iff.mp h
    have hstep := looseStep_of_member? hmember htidy
    exact .on hstep (ih hrest (htidy.of_looseStep hstep))

end Arena

/-! ## Types with names for paths -/

namespace FieldType

variable {t u : FieldType}

/-- The names of the members of a structure, or of the alternatives of a variant. -/
def memberNames : FieldType → List String
  | .struct _ members => members.map Prod.fst
  | .variant _ alternatives => alternatives.map Prod.fst
  | _ => []

/-- **The names in a type can stand in paths**, at any depth, and no two members or alternatives side by
side are called the same. -/
def Navigable (t : FieldType) : Prop :=
  ∀ u, t.Reaches u → u.memberNames.Nodup ∧ ∀ name ∈ u.memberNames, IsSegment name

lemma Navigable.part (h : t.Navigable) (hpart : t.HasPart u) : u.Navigable :=
  fun v hreach => h v (.head hpart hreach)

mutual

/-- Whether no member of a structure and no alternative of a variant has a dot in its name. -/
def dotless : FieldType → Bool
  | .integer _ | .float _ | .string _ | .enum _ => true
  | .array element _ => element.dotless
  | .sequence element _ => element.dotless
  | .struct _ members => membersDotless members
  | .variant _ alternatives => membersDotless alternatives

/-- Whether no member has a dot in its name or in a name in its type. -/
def membersDotless : List (String × FieldType) → Bool
  | [] => true
  | (name, t) :: rest => !name.toList.contains '.' && t.dotless && membersDotless rest

end

lemma of_membersDotless {members : List (String × FieldType)} (h : membersDotless members = true) :
    ∀ member ∈ members, '.' ∉ member.1.toList ∧ member.2.dotless = true := by
  induction members with
  | nil => exact fun _ hmember => absurd hmember List.not_mem_nil
  | cons member members ih =>
    rw [membersDotless, Bool.and_eq_true, Bool.and_eq_true] at h
    obtain ⟨⟨hname, hdotless⟩, hrest⟩ := h
    exact List.forall_mem_cons.mpr ⟨⟨by simpa using hname, hdotless⟩, ih hrest⟩

lemma dotless_of_hasPart (h : t.dotless = true) (hpart : t.HasPart u) : u.dotless = true := by
  cases hpart with
  | element | item => exact h
  | member hmember => exact (of_membersDotless h _ hmember).2
  | alternative halternative => exact (of_membersDotless h _ halternative).2

lemma dotless_of_reaches (h : t.dotless = true) (hreach : t.Reaches u) : u.dotless = true := by
  induction hreach with
  | refl => exact h
  | tail _ hpart ih => exact dotless_of_hasPart ih hpart

/-- In a well-formed type it is enough that no name has a dot. -/
lemma WellFormed.navigable {clocks : Set String} (h : t.WellFormed clocks) (htagged : t.IsTagged)
    (hdotless : t.dotless = true) : t.Navigable := by
  intro u hreach
  have hdotless := dotless_of_reaches hdotless hreach
  cases (h.of_reaches htagged hreach).1 with
  | struct _ hmembers | variant hmembers =>
    refine ⟨hmembers.names, fun name hname => ?_⟩
    obtain ⟨member, hmember, rfl⟩ := List.mem_map.mp hname
    exact ⟨hmembers.nonempty member hmember, (of_membersDotless hdotless member hmember).1⟩
  | _ => exact ⟨List.nodup_nil, fun _ hname => absurd hname List.not_mem_nil⟩

/-! ## What conforms is tidy -/

section Conforms

variable {limit : ℕ} {data : ByteArray} {a : Arena}

lemma tidy_of_elementsConform {p p' : Stand} {element : FieldType} {scope : ScopeId} {length : ℕ}
    {collect : List Field → Value} {v : Value} (hcollect : ∀ fs, a.Tidy (collect fs))
    (h : ElementsConform limit data a p element scope length collect v p') : a.Tidy v := by
  cases h with
  | text => exact .leaf rfl
  | values => exact hcollect _

lemma mem_of_lookup {alternatives : List (String × FieldType)} {selection : String} {t : FieldType}
    (h : alternatives.lookup selection = some t) : (selection, t) ∈ alternatives := by
  obtain ⟨_, _, rfl, -⟩ := List.lookup_eq_some_iff.mp h
  exact List.mem_append_right _ List.mem_cons_self

/-- The fields for members are called like the members. -/
lemma names_of_fieldsConform {p p' : Stand} {members : List (String × FieldType)} {scope : ScopeId}
    {fs : List Field} (h : FieldsConform limit data a p members scope fs p') :
    fs.map Field.name = members.map Prod.fst := by
  induction members generalizing p fs with
  | nil =>
    cases h
    rfl
  | cons member members ih =>
    cases h with
    | cons first others =>
      cases first with
      | mk name_eq => rw [List.map_cons, List.map_cons, name_eq, ih others]

lemma tidy_struct {least : ℕ} {members : List (String × FieldType)} {scope : ScopeId}
    (ht : (FieldType.struct least members).Navigable)
    (hnames : (a.fields scope).map Field.name = members.map Prod.fst)
    (hmembers : ∀ f ∈ a.fields scope, a.Tidy f.value) : a.Tidy (.struct scope) := by
  obtain ⟨hnodup, hsegments⟩ := ht _ .refl
  rw [memberNames, ← hnames] at hnodup hsegments
  exact .struct hnodup (fun f hf => hsegments _ (List.mem_map_of_mem hf)) hmembers

mutual

/-- **A value is tidy if the names in its type are.** -/
theorem tidy_of_conforms {p p' : Stand} {t : FieldType} {scope : ScopeId} {name : String} {v : Value}
    (h : Conforms limit data a p t scope name v p') (ht : t.Navigable) : a.Tidy v :=
  -- By recursion on the rules by which the value conforms, for these give the selected alternative at once.
  match h with
  | .integer _ => .leaf rfl
  | .float => .leaf rfl
  | .string _ => .leaf rfl
  | .enum _ => .leaf rfl
  | .array _ contents => tidy_of_elementsConform (fun _ => .leaf rfl) contents
  | .sequence _ _ _ contents => tidy_of_elementsConform (fun _ => .leaf rfl) contents
  | .struct fields => by
    have hmembers := tidy_of_fieldsConform fields fun member hmember => ht.part (.member hmember)
    exact tidy_struct ht (names_of_fieldsConform fields) hmembers
  | .variant _ _ alternative conforms => by
    have hmem := mem_of_lookup alternative
    obtain ⟨hname, htidy⟩ := tidy_of_fieldConforms conforms (ht.part (.alternative hmem))
    exact .variant hname ((ht _ .refl).2 _ (List.mem_map_of_mem hmem)) htidy
termination_by structural h

theorem tidy_of_fieldConforms {p p' : Stand} {t : FieldType} {scope : ScopeId} {name : String} {f : Field}
    (h : FieldConforms limit data a p t scope name f p') (ht : t.Navigable) :
    f.name = name ∧ a.Tidy f.value :=
  match h with
  | .mk name_eq _ value => ⟨name_eq, tidy_of_conforms value ht⟩
termination_by structural h

theorem tidy_of_fieldsConform {p p' : Stand} {members : List (String × FieldType)} {scope : ScopeId}
    {fs : List Field} (h : FieldsConform limit data a p members scope fs p')
    (hmembers : ∀ member ∈ members, member.2.Navigable) : ∀ f ∈ fs, a.Tidy f.value :=
  match h with
  | .nil => fun _ hf => absurd hf List.not_mem_nil
  | .cons first others => by
    obtain ⟨ht, hrest⟩ := List.forall_mem_cons.mp hmembers
    have hfirst := tidy_of_fieldConforms first ht
    exact List.forall_mem_cons.mpr ⟨hfirst.2, tidy_of_fieldsConform others hrest⟩
termination_by structural h

end

end Conforms

/-! ## Blocks -/

section Blocks

open DecodeM

variable {limit : ℕ} {a : Arena} {block : StaticScope} {scope : ScopeId} {s s' : DecodeState}

/-- **A block is tidy if the names in its layout are**, in any arena that keeps its scopes. -/
theorem tidy_of_decodeBlock (h : t.decodeBlock limit block s = .ok scope s') (hstruct : t.isStruct = true)
    (ht : t.Navigable) (hkeeps : a.Keeps s s') : a.Tidy (.struct scope) := by
  cases t with
  | struct least members =>
    have hfields := fieldsConform_of_decodeBlock h hkeeps
    exact tidy_struct ht (names_of_fieldsConform hfields)
      (tidy_of_fieldsConform hfields fun member hmember => ht.part (.member hmember))
  | _ => cases hstruct

end Blocks

end FieldType

/-! ## Paths through arenas -/

namespace Arena

/-- The blocks of an arena are among the given ones, and what they hold is tidy. -/
def TidyBlocks (a : Arena) (blocks : List StaticScope) : Prop :=
  ∀ block scope, a.block? block = some scope → block ∈ blocks ∧ a.Tidy (.struct scope)

end Arena

namespace ScopeChain

variable {chain : ScopeChain} {block : StaticScope} {names : List String} {g : Field}

/-- **The names that lead to a field from a block**: first that of a field of the block, then those of the
steps from there. -/
def Reaches (chain : ScopeChain) (R : Arena → Field → String → Field → Prop) (block : StaticScope)
    (names : List String) (g : Field) : Prop :=
  ∃ a ∈ chain.arenas, ∃ scope, a.block? block = some scope ∧
    ∃ f ∈ a.fields scope, ∃ rest, names = f.name :: rest ∧ Arena.Leads (R a) f rest g

/-- **A chain in which paths find their way**: each block is in one of the arenas only, and what it holds is
tidy. -/
def Navigable (chain : ScopeChain) : Prop :=
  ∀ a ∈ chain.arenas, ∀ block scope, a.block? block = some scope →
    block ∈ StaticScope.blocks ∧ chain.block? block = some (a, scope) ∧ a.Tidy (.struct scope)

/-- Two arenas form such a chain if they have no block in common. -/
lemma navigable_of_tidyBlocks {inner outer : Arena} {here around : List StaticScope}
    (hinner : inner.TidyBlocks here) (houter : outer.TidyBlocks around)
    (hblocks : here ++ around ⊆ StaticScope.blocks) (hdisjoint : ∀ block ∈ around, block ∉ here) :
    ({ arena := inner, outer := [outer] } : ScopeChain).Navigable := by
  intro a ha block scope hscope
  rcases List.mem_cons.mp ha with rfl | ha
  · obtain ⟨hblock, htidy⟩ := hinner block scope hscope
    refine ⟨hblocks (List.mem_append_left _ hblock), ?_, htidy⟩
    simp [block?, arenas, hscope]
  · obtain rfl := List.mem_singleton.mp ha
    obtain ⟨hblock, htidy⟩ := houter block scope hscope
    have hnone : inner.block? block = none := by
      cases hthere : inner.block? block with
      | none => rfl
      | some other => exact absurd (hinner block other hthere).1 (hdisjoint block hblock)
    refine ⟨hblocks (List.mem_append_right _ hblock), ?_, htidy⟩
    simp [block?, arenas, hscope, hnone]

/-- **The path to a field leads to it.** -/
theorem Navigable.lookup?_eq (h : chain.Navigable) (hreach : chain.Reaches Arena.Step block names g) :
    chain.lookup? (".".intercalate (block.path :: names)) = some g := by
  obtain ⟨a, ha, scope, hscope, f, hf, rest, rfl, hleads⟩ := hreach
  obtain ⟨hblock, hfound, htidy⟩ := h a ha block scope hscope
  obtain ⟨hsegment, hvalue⟩ := htidy.member hf
  have hsegments : ∀ name ∈ f.name :: rest, IsSegment name :=
    List.forall_mem_cons.mpr ⟨hsegment, hleads.segments hvalue⟩
  calc chain.lookup? (".".intercalate (block.path :: f.name :: rest))
    _ = chain.resolveInBlock? block { anchor := .absolute block, head := f.name, tail := rest } := by
      rw [lookup?, FieldPath.ofString?_intercalate hblock hsegments]
      rfl
    _ = a.descend? f rest := by simp [resolveInBlock?, hfound, htidy.field? hf]
    _ = some g := hleads.descend?_eq hvalue

/-- **Where an absolute path leads, steps lead by its names.** -/
theorem Navigable.reaches_of_lookup? (h : chain.Navigable) {text : String} {path : FieldPath}
    (hpath : FieldPath.ofString? text = some path) (hanchor : path.anchor = .absolute block)
    (hlookup : chain.lookup? text = some g) :
    ∃ names, text = ".".intercalate (block.path :: names) ∧
      chain.Reaches Arena.LooseStep block names g := by
  have htext := (FieldPath.eq_intercalate_of_ofString? hpath hanchor).2
  refine ⟨_, htext, ?_⟩
  simp only [lookup?, hpath, Option.bind_eq_bind, Option.bind_some, hanchor, resolveInBlock?,
    Option.bind_eq_some_iff] at hlookup
  obtain ⟨⟨a, scope⟩, hblock, f, hfield, hdescend⟩ := hlookup
  obtain ⟨a', ha, hfound⟩ := List.exists_of_findSome?_eq_some hblock
  obtain ⟨_, hscope, heq⟩ := Option.map_eq_some_iff.mp hfound
  cases heq
  obtain ⟨-, -, htidy⟩ := h a ha block scope hscope
  obtain ⟨hf, hname⟩ := Arena.mem_fields_of_field? hfield
  exact ⟨a, ha, scope, hscope, f, hf, path.tail, by rw [hname],
    Arena.leads_of_descend? hdescend (htidy.member hf).2⟩

end ScopeChain

end CommonTrace
