import CommonTrace.Proofs.Field.Navigation
import CommonTrace.Proofs.Field.Searches
import CommonTrace.Proofs.Text.Json

/-!
# JSON forms of decoded fields

A structure is rendered as an object with one member for each field, a variant as an object whose only member is
the selected alternative, and an array or a sequence element by element.  `Arena.Rendered` says by one rule for
each kind of value what stands where.  It needs that no two fields of a structure are called the same, for an
object keeps one value for each name.

The form does not say what kind of value it is the form of.  A text may look like a label, and the object of an
enumeration could be that of a structure.  With the type it can be told: what has been decoded has the shape of
its type (`Arena.Typed`), and two values of one type with equal forms have the same contents
(`Arena.alike_of_rendered`).
-/

namespace CommonTrace

namespace Arena

variable {a b : Arena}

/-! ## The form of a value -/

/-- **The JSON form of a value.**  An integer, a label and a text are there as they are.  Each field of a
structure, each selected alternative and each element is there once, under its name or at its index. -/
inductive Rendered (a : Arena) : Value → Json → Prop
  | integer (n : IntegerValue) : Rendered a (.integer n) (.integer n.value)
  | float (x : Binary64) : Rendered a (.float x) (Value.floatToJson x)
  | text (s : String) : Rendered a (.text s) (.string s)
  | enum (n : IntegerValue) (label : Option String) :
      Rendered a (.enum n label) (.object [("value", .integer n.value), ("label", .optional .string label)])
  | struct {scope : ScopeId} {members : List (String × Json)}
      (names : members.map Prod.fst = (a.fields scope).map Field.name) (nodup : (members.map Prod.fst).Nodup)
      (each : ∀ f ∈ a.fields scope, ∀ j, (f.name, j) ∈ members → Rendered a f.value j) :
      Rendered a (.struct scope) (.object members)
  | variant {selection : String} {inner : Field} {j : Json} (alternative : Rendered a inner.value j) :
      Rendered a (.variant selection inner) (.object [(selection, j)])
  | array {elements : List Field} {js : List Json} (length_eq : js.length = elements.length)
      (each : ∀ (i : ℕ) f j, elements[i]? = some f → js[i]? = some j → Rendered a f.value j) :
      Rendered a (.array elements) (.array js)
  | sequence {elements : List Field} {js : List Json} (length_eq : js.length = elements.length)
      (each : ∀ (i : ℕ) f j, elements[i]? = some f → js[i]? = some j → Rendered a f.value j) :
      Rendered a (.sequence elements) (.array js)

/-! ## The shape of a value -/

/-- **A value in the shape of a type**, with its structures in the arena `a`. -/
inductive Typed (a : Arena) : FieldType → Value → Prop
  | integer {t : IntegerType} {n : IntegerValue} (width : n.width = t.width) (signed : n.signed = t.signed) :
      Typed a (.integer t) (.integer n)
  | float (t : FloatType) (x : Binary64) : Typed a (.float t) (.float x)
  | string (encoding : Encoding) (s : String) : Typed a (.string encoding) (.text s)
  | enum {t : EnumType} {n : IntegerValue} (width : n.width = t.container.width)
      (signed : n.signed = t.container.signed) (label : Option String) : Typed a (.enum t) (.enum n label)
  | characters {element : FieldType} (character : element.isCharacter = true) (length : ℕ) (s : String) :
      Typed a (.array element length) (.text s)
  | array {element : FieldType} {elements : List Field} (character : element.isCharacter = false)
      (length : ℕ) (each : ∀ f ∈ elements, Typed a element f.value) :
      Typed a (.array element length) (.array elements)
  | text {element : FieldType} (character : element.isCharacter = true) (length : FieldPath) (s : String) :
      Typed a (.sequence element length) (.text s)
  | sequence {element : FieldType} {elements : List Field} (character : element.isCharacter = false)
      (length : FieldPath) (each : ∀ f ∈ elements, Typed a element f.value) :
      Typed a (.sequence element length) (.sequence elements)
  | struct {least : ℕ} {members : List (String × FieldType)} {scope : ScopeId}
      (fields_eq : (a.fields scope).map (fun f => (f.name, f.type)) = members)
      (nodup : (members.map Prod.fst).Nodup) (each : ∀ f ∈ a.fields scope, Typed a f.type f.value) :
      Typed a (.struct least members) (.struct scope)
  | variant {tag : Option FieldPath} {alternatives : List (String × FieldType)} {selection : String}
      {t : FieldType} {inner : Field} (alternative : alternatives.lookup selection = some t)
      (selected : Typed a t inner.value) : Typed a (.variant tag alternatives) (.variant selection inner)

/-- The names of the fields of a structure are those of its members. -/
lemma names_eq_of_fields_eq {scope : ScopeId} {members : List (String × FieldType)}
    (h : (a.fields scope).map (fun f => (f.name, f.type)) = members) :
    (a.fields scope).map Field.name = members.map Prod.fst := by
  rw [← h, List.map_map]
  rfl

end Arena

/-! ## Decoded values have the shape of their types -/

namespace FieldType

variable {limit : ℕ} {data : ByteArray} {a : Arena} {clocks : Set String}

mutual

/-- **What conforms to a type has its shape.** -/
theorem typed_of_conforms {p p' : Stand} {t : FieldType} {scope : ScopeId} {name : String} {v : Value}
    (h : Conforms limit data a p t scope name v p') (hformed : t.WellFormed clocks) (htagged : t.IsTagged) :
    a.Typed t v :=
  match h with
  | .integer reads => .integer reads.width reads.signed
  | .float => .float _ _
  | .string _ => .string _ _
  | .enum reads => .enum reads.width reads.signed _
  | .array _ contents => by
    obtain ⟨helement, htagged'⟩ := hformed.of_hasPart htagged (.element _ _)
    obtain ⟨hcharacter, s, rfl⟩ | ⟨hcharacter, fs, rfl, htyped⟩ :=
      typed_of_elementsConform contents helement htagged'
    · exact .characters hcharacter _ s
    · exact .array hcharacter _ htyped
  | .sequence _ _ _ contents => by
    obtain ⟨helement, htagged'⟩ := hformed.of_hasPart htagged (.item _ _)
    obtain ⟨hcharacter, s, rfl⟩ | ⟨hcharacter, fs, rfl, htyped⟩ :=
      typed_of_elementsConform contents helement htagged'
    · exact .text hcharacter _ s
    · exact .sequence hcharacter _ htyped
  | .struct fields => by
    obtain ⟨hfields, htyped⟩ := typed_of_fieldsConform fields fun member hmember =>
      hformed.of_hasPart htagged (.member hmember)
    exact .struct hfields ((hformed.proper htagged).members _ _ rfl) htyped
  | .variant _ _ alternative conforms => by
    obtain ⟨ht, htagged'⟩ := hformed.of_hasPart htagged (.alternative (mem_of_lookup alternative))
    exact .variant alternative (typed_of_fieldConforms conforms ht htagged').2.2
termination_by structural h

theorem typed_of_fieldConforms {p p' : Stand} {t : FieldType} {scope : ScopeId} {name : String} {f : Field}
    (h : FieldConforms limit data a p t scope name f p') (hformed : t.WellFormed clocks)
    (htagged : t.IsTagged) : f.name = name ∧ f.type = t ∧ a.Typed t f.value :=
  match h with
  | .mk name_eq type_eq value => ⟨name_eq, type_eq, typed_of_conforms value hformed htagged⟩
termination_by structural h

theorem typed_of_elementsConform {p p' : Stand} {element : FieldType} {scope : ScopeId} {length : ℕ}
    {collect : List Field → Value} {v : Value}
    (h : ElementsConform limit data a p element scope length collect v p')
    (hformed : element.WellFormed clocks) (htagged : element.IsTagged) :
    (element.isCharacter = true ∧ ∃ s, v = .text s) ∨
      (element.isCharacter = false ∧ ∃ fs, v = collect fs ∧ ∀ f ∈ fs, a.Typed element f.value) :=
  match h with
  | .text character _ _ _ => .inl ⟨character, _, rfl⟩
  | .values character each => .inr ⟨character, _, rfl, typed_of_eachConforms each hformed htagged⟩
termination_by structural h

theorem typed_of_eachConforms {p p' : Stand} {element : FieldType} {scope : ScopeId} {index : ℕ}
    {fs : List Field} (h : EachConforms limit data a p element scope index fs p')
    (hformed : element.WellFormed clocks) (htagged : element.IsTagged) : ∀ f ∈ fs, a.Typed element f.value :=
  match h with
  | .nil => fun _ hf => absurd hf List.not_mem_nil
  | .cons first others => List.forall_mem_cons.mpr
    ⟨(typed_of_fieldConforms first hformed htagged).2.2, typed_of_eachConforms others hformed htagged⟩
termination_by structural h

theorem typed_of_fieldsConform {p p' : Stand} {members : List (String × FieldType)} {scope : ScopeId}
    {fs : List Field} (h : FieldsConform limit data a p members scope fs p')
    (hmembers : ∀ member ∈ members, member.2.WellFormed clocks ∧ member.2.IsTagged) :
    fs.map (fun f => (f.name, f.type)) = members ∧ ∀ f ∈ fs, a.Typed f.type f.value :=
  match h with
  | .nil => ⟨rfl, fun _ hf => absurd hf List.not_mem_nil⟩
  | .cons first others => by
    obtain ⟨⟨hformed, htagged⟩, hrest⟩ := List.forall_mem_cons.mp hmembers
    obtain ⟨rfl, rfl, htyped⟩ := typed_of_fieldConforms first hformed htagged
    obtain ⟨hfields, hall⟩ := typed_of_fieldsConform others hrest
    exact ⟨by rw [List.map_cons, hfields], List.forall_mem_cons.mpr ⟨htyped, hall⟩⟩
termination_by structural h

end

/-- **A block has the shape of its layout**, in any arena that keeps its scopes. -/
theorem typed_of_decodeBlock {t : FieldType} {block : StaticScope} {scope : ScopeId} {s s' : DecodeState}
    (h : t.decodeBlock limit block s = .ok scope s') (ht : t.IsLayout clocks) (hkeeps : a.Keeps s s') :
    a.Typed t (.struct scope) := by
  have hstruct := ht.isStruct
  cases t with
  | struct least members =>
    have hformed := ht.wellFormed
    have hnames := (hformed.proper ht.isTagged).members _ _ rfl
    obtain ⟨hfields, htyped⟩ := typed_of_fieldsConform (fieldsConform_of_decodeBlock h hkeeps)
      fun member hmember => hformed.of_hasPart ht.isTagged (.member hmember)
    exact .struct hfields hnames htyped
  | _ => cases hstruct

end FieldType

/-! ## Rendering -/

namespace Value

lemma fieldToJson_eq (inScope : ScopeId → Json) (f : Field) : fieldToJson inScope f = f.value.toJson inScope := by
  cases f
  rfl

lemma elementsToJson_eq_map (inScope : ScopeId → Json) (elements : List Field) :
    elementsToJson inScope elements = elements.map fun f => f.value.toJson inScope := by
  induction elements with
  | nil => rfl
  | cons f rest ih =>
    rw [elementsToJson, ih, fieldToJson_eq, List.map_cons]

lemma length_elementsToJson (inScope : ScopeId → Json) (elements : List Field) :
    (elementsToJson inScope elements).length = elements.length := by
  rw [elementsToJson_eq_map, List.length_map]

/-- The form of each element stands at its index. -/
lemma getElem?_elementsToJson {inScope : ScopeId → Json} {elements : List Field} {i : ℕ} {f : Field} {j : Json}
    (hf : elements[i]? = some f) (hj : (elementsToJson inScope elements)[i]? = some j) :
    j = f.value.toJson inScope := by
  rw [elementsToJson_eq_map, List.getElem?_map, hf] at hj
  exact (Option.some.inj hj).symm

end Value

namespace Arena

variable {a b : Arena}

/-- **A value in the shape of its type is rendered as it should be**, in an arena in which every search ends. -/
theorem Typed.rendered {t : FieldType} {v : Value} (h : a.Typed t v) (hsearchable : a.Searchable) :
    a.Rendered v (v.toJson a.scopeToJson) := by
  induction h with
  | integer => exact .integer _
  | float => exact .float _
  | string | characters | text => exact .text _
  | enum => exact .enum _ _
  | array _ _ _ ih =>
    refine .array (Value.length_elementsToJson _ _) fun i f j hf hj => ?_
    rw [Value.getElem?_elementsToJson hf hj]
    exact ih f (List.mem_of_getElem? hf)
  | sequence _ _ _ ih =>
    refine .sequence (Value.length_elementsToJson _ _) fun i f j hf hj => ?_
    rw [Value.getElem?_elementsToJson hf hj]
    exact ih f (List.mem_of_getElem? hf)
  | @struct _ members scope fields_eq nodup _ ih =>
    have hnames : ((a.fields scope).map fun f => (f.name, f.value.toJson a.scopeToJson)).map Prod.fst =
        (a.fields scope).map Field.name := by
      rw [List.map_map]
      rfl
    have hnodup := nodup
    rw [← names_eq_of_fields_eq fields_eq] at hnodup
    change a.Rendered (.struct scope) (a.scopeToJson scope)
    rw [hsearchable.scopeToJson, jsonStep, Json.ofMembers_eq (hnames ▸ hnodup)]
    refine .struct hnames (hnames ▸ hnodup) fun f hf j hj => ?_
    -- the member under the name of the field is that of the field, because no other one is called so
    obtain ⟨g, hg, heq⟩ := List.mem_map.mp hj
    obtain ⟨hname, rfl⟩ := Prod.mk.inj heq
    obtain rfl : g = f := List.inj_on_of_nodup_map hnodup hg hf hname
    exact ih g hg
  | variant _ _ ih =>
    rw [Value.toJson, Value.fieldToJson_eq]
    exact .variant ih

/-! ## Equal forms -/

/-- **The same contents**: equal integers, labels and texts at the same places.  Floating point numbers are equal
or have no JSON form, neither of them. -/
inductive Alike (a b : Arena) : Value → Value → Prop
  | integer (n : IntegerValue) : Alike a b (.integer n) (.integer n)
  | float {x y : Binary64} (h : x.isFinite = true ∨ y.isFinite = true → x = y) : Alike a b (.float x) (.float y)
  | text (s : String) : Alike a b (.text s) (.text s)
  | enum (n : IntegerValue) (label : Option String) : Alike a b (.enum n label) (.enum n label)
  | struct {scope scope' : ScopeId}
      (names : (a.fields scope).map Field.name = (b.fields scope').map Field.name)
      (each : ∀ (i : ℕ) f g, (a.fields scope)[i]? = some f → (b.fields scope')[i]? = some g →
        Alike a b f.value g.value) : Alike a b (.struct scope) (.struct scope')
  | variant {selection : String} {inner inner' : Field} (alternative : Alike a b inner.value inner'.value) :
      Alike a b (.variant selection inner) (.variant selection inner')
  | array {elements elements' : List Field} (length_eq : elements.length = elements'.length)
      (each : ∀ (i : ℕ) f g, elements[i]? = some f → elements'[i]? = some g → Alike a b f.value g.value) :
      Alike a b (.array elements) (.array elements')
  | sequence {elements elements' : List Field} (length_eq : elements.length = elements'.length)
      (each : ∀ (i : ℕ) f g, elements[i]? = some f → elements'[i]? = some g → Alike a b f.value g.value) :
      Alike a b (.sequence elements) (.sequence elements')

lemma eq_of_same_floatToJson {x y : Binary64} (h : (Value.floatToJson x).Same (Value.floatToJson y))
    (hfinite : x.isFinite = true ∨ y.isFinite = true) : x = y := by
  unfold Value.floatToJson at h
  split at h <;> split at h <;> cases h
  · rfl
  · rename_i hx hy
    exact absurd hfinite (not_or.mpr ⟨hx, hy⟩)

lemma eq_of_same_enum {n m : IntegerValue} {label label' : Option String}
    (h : (Json.object [("value", .integer n.value), ("label", .optional .string label)]).Same
      (.object [("value", .integer m.value), ("label", .optional .string label')])) :
    n.value = m.value ∧ label = label' := by
  cases h with
  | object _ each =>
    exact ⟨(each "value" _ _ rfl rfl).of_integer, (each "label" _ _ rfl rfl).of_optional⟩

/-- Integers with equal values that are read alike are equal. -/
lemma eq_of_value_eq {n m : IntegerValue} {t : IntegerType} (hvalue : n.value = m.value)
    (hwidth : n.width = t.width) (hwidth' : m.width = t.width) (hsigned : n.signed = t.signed)
    (hsigned' : m.signed = t.signed) : n = m := by
  obtain ⟨value, width, signed⟩ := n
  obtain ⟨value', width', signed'⟩ := m
  cases hvalue
  rw [← hwidth'] at hwidth
  rw [← hsigned'] at hsigned
  cases hwidth
  cases hsigned
  rfl

lemma alike_text {s s' : String} {j k : Json} (hj : a.Rendered (.text s) j) (hk : b.Rendered (.text s') k)
    (hsame : j.Same k) : Alike a b (.text s) (.text s') := by
  cases hj
  cases hk
  obtain rfl := hsame.of_string
  exact .text s

/-- Elements with equal forms are as many, and have equal forms one by one. -/
lemma forms_of_elements {fs gs : List Field} {js ks : List Json} (hlength : js.length = fs.length)
    (heach : ∀ (i : ℕ) f j, fs[i]? = some f → js[i]? = some j → a.Rendered f.value j)
    (hlength' : ks.length = gs.length)
    (heach' : ∀ (i : ℕ) g k, gs[i]? = some g → ks[i]? = some k → b.Rendered g.value k)
    (hsame : (Json.array js).Same (.array ks)) :
    fs.length = gs.length ∧ ∀ (i : ℕ) f g, fs[i]? = some f → gs[i]? = some g →
      ∃ j k, a.Rendered f.value j ∧ b.Rendered g.value k ∧ j.Same k := by
  cases hsame with
  | array length_eq each =>
    refine ⟨by rw [← hlength, length_eq, hlength'], fun i f g hf hg => ?_⟩
    obtain ⟨hi, -⟩ := List.getElem?_eq_some_iff.mp hf
    obtain ⟨hi', -⟩ := List.getElem?_eq_some_iff.mp hg
    have hj := List.getElem?_eq_getElem (hlength ▸ hi)
    have hk := List.getElem?_eq_getElem (hlength' ▸ hi')
    exact ⟨_, _, heach i f _ hf hj, heach' i g _ hg hk, each i _ _ hj hk⟩

/-- Fields for the same members, in equal objects, have the same types and equal forms one by one. -/
lemma forms_of_fields {fs gs : List Field} {ms ns : List (String × Json)}
    (hsides : fs.map (fun f => (f.name, f.type)) = gs.map fun g => (g.name, g.type))
    (hnames : ms.map Prod.fst = fs.map Field.name) (hnodup : (ms.map Prod.fst).Nodup)
    (heach : ∀ f ∈ fs, ∀ j, (f.name, j) ∈ ms → a.Rendered f.value j)
    (hnames' : ns.map Prod.fst = gs.map Field.name) (hnodup' : (ns.map Prod.fst).Nodup)
    (heach' : ∀ g ∈ gs, ∀ k, (g.name, k) ∈ ns → b.Rendered g.value k)
    (hsame : (Json.object ms).Same (.object ns)) {i : ℕ} {f g : Field} (hf : fs[i]? = some f)
    (hg : gs[i]? = some g) :
    g.type = f.type ∧ ∃ j k, a.Rendered f.value j ∧ b.Rendered g.value k ∧ j.Same k := by
  have hside := congrArg (·[i]?) hsides
  rw [List.getElem?_map, List.getElem?_map, hf, hg] at hside
  obtain ⟨hname, htype⟩ := Prod.mk.inj (Option.some.inj hside)
  have hmem := List.mem_of_getElem? hf
  have hmem' := List.mem_of_getElem? hg
  obtain ⟨j, hj⟩ := Json.exists_mem_of_name (hnames ▸ List.mem_map_of_mem hmem)
  obtain ⟨k, hk⟩ := Json.exists_mem_of_name (hnames' ▸ List.mem_map_of_mem hmem')
  exact ⟨htype.symm, j, k, heach f hmem j hj, heach' g hmem' k hk,
    hsame.of_mem hnodup hnodup' hj (hname ▸ hk)⟩

/-- **Values of one type with equal forms have the same contents.** -/
theorem Typed.alike {t : FieldType} {v w : Value} {j k : Json} (hv : a.Typed t v) (hw : b.Typed t w)
    (hj : a.Rendered v j) (hk : b.Rendered w k) (hsame : j.Same k) : Alike a b v w := by
  -- The type leaves one kind for both values, except that it has to be known whether elements are characters.
  induction hv generalizing w j k with
  | integer width signed =>
    cases hw with
    | integer width' signed' =>
      cases hj
      cases hk
      obtain rfl := eq_of_value_eq hsame.of_integer width width' signed signed'
      exact .integer _
  | float =>
    cases hw
    cases hj
    cases hk
    exact .float (eq_of_same_floatToJson hsame)
  | string =>
    cases hw
    exact alike_text hj hk hsame
  | enum width signed =>
    cases hw with
    | enum width' signed' =>
      cases hj
      cases hk
      obtain ⟨hvalue, rfl⟩ := eq_of_same_enum hsame
      obtain rfl := eq_of_value_eq hvalue width width' signed signed'
      exact .enum _ _
  | characters character =>
    cases hw with
    | array character' => exact absurd (character.symm.trans character') Bool.noConfusion
    | characters => exact alike_text hj hk hsame
  | text character =>
    cases hw with
    | sequence character' => exact absurd (character.symm.trans character') Bool.noConfusion
    | text => exact alike_text hj hk hsame
  | array character _ _ ih =>
    cases hw with
    | characters character' => exact absurd (character.symm.trans character') Bool.noConfusion
    | array _ _ htyped =>
      cases hj with
      | array hlength heach =>
        cases hk with
        | array hlength' heach' =>
          obtain ⟨heq, hforms⟩ := forms_of_elements hlength heach hlength' heach' hsame
          refine .array heq fun i f g hf hg => ?_
          obtain ⟨j, k, hj, hk, hsame⟩ := hforms i f g hf hg
          exact ih f (List.mem_of_getElem? hf) (htyped g (List.mem_of_getElem? hg)) hj hk hsame
  | sequence character _ _ ih =>
    cases hw with
    | text character' => exact absurd (character.symm.trans character') Bool.noConfusion
    | sequence _ _ htyped =>
      cases hj with
      | sequence hlength heach =>
        cases hk with
        | sequence hlength' heach' =>
          obtain ⟨heq, hforms⟩ := forms_of_elements hlength heach hlength' heach' hsame
          refine .sequence heq fun i f g hf hg => ?_
          obtain ⟨j, k, hj, hk, hsame⟩ := hforms i f g hf hg
          exact ih f (List.mem_of_getElem? hf) (htyped g (List.mem_of_getElem? hg)) hj hk hsame
  | struct fields_eq _ _ ih =>
    cases hw with
    | struct fields_eq' _ htyped =>
      cases hj with
      | struct hnames hnodup heach =>
        cases hk with
        | struct hnames' hnodup' heach' =>
          have hsides := fields_eq.trans fields_eq'.symm
          refine .struct ?_ fun i f g hf hg => ?_
          · rw [names_eq_of_fields_eq fields_eq, names_eq_of_fields_eq fields_eq']
          · obtain ⟨htype, j, k, hj, hk, hsame⟩ :=
              forms_of_fields hsides hnames hnodup heach hnames' hnodup' heach' hsame hf hg
            exact ih f (List.mem_of_getElem? hf) (htype ▸ htyped g (List.mem_of_getElem? hg)) hj hk hsame
  | variant alternative _ ih =>
    cases hw with
    | variant alternative' selected =>
      cases hj with
      | variant hj =>
        cases hk with
        | variant hk =>
          obtain ⟨rfl, hinner⟩ := hsame.of_singleton
          obtain rfl := Option.some.inj (alternative.symm.trans alternative')
          exact .variant (ih selected hj hk hinner)

end Arena

end CommonTrace
