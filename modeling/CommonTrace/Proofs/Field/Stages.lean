import CommonTrace.Proofs.Field.Scoping

/-!
# How views keep up with decoding

The relation `ScopeChain.Sees` between a chain of arenas and a view does not say enough to survive the
next step of a decoding, in which scopes are opened and fields are bound.  `ScopeChain.Inside` says
more about the blocks decoded before: in the arena that is being decoded into, all of their scopes lie
before the scope of the present block.  Whatever is decoded now lies behind them, so `Inside` is kept
when the state grows (`ScopeChain.Inside.grow`), when a structure is opened (`openChild`) and when
a field is bound in the innermost structure (`bindField`).

Between two blocks there is no open structure, and `ScopeChain.Between` says the same about all blocks
decoded so far.
-/

namespace CommonTrace

/-! ## Open structures -/

namespace Arena

variable {a a' : Arena} {hi hi' bound bound' : ℕ} {root scope : ScopeId} {name : String}
  {before : List (String × FieldType)} {frames : List (List (String × FieldType))}

lemma parent?_congr (h : a'.scopes[scope]? = a.scopes[scope]?) :
    a'.parent? scope = a.parent? scope := by
  rw [parent?, parent?, h]

lemma Binds.of_agree (h : a.Binds hi scope before) (hhi : hi ≤ hi')
    (hagree : ∀ i < hi, a'.scopes[i]? = a.scopes[i]?) : a'.Binds hi' scope before where
  lt := Nat.lt_of_lt_of_le h.lt hhi
  distinct := h.distinct
  fields := by
    rw [fields_congr (hagree scope h.lt)]
    exact h.fields.of_agree (Nat.le_refl _) hhi fun i _ hi => hagree i hi

/-- Open structures stay as they are if all scopes before `hi` do. -/
lemma Opens.of_agree (h : a.Opens root hi scope frames) (hhi : hi ≤ hi')
    (hagree : ∀ i < hi, a'.scopes[i]? = a.scopes[i]?) : a'.Opens root hi' scope frames := by
  induction h generalizing hi' with
  | block binds parent =>
    have hparent := (parent?_congr (hagree _ binds.lt)).trans parent
    exact .block (binds.of_agree hhi hagree) hparent
  | inner binds parent rest ih =>
    have hparent := (parent?_congr (hagree _ binds.lt)).trans parent
    refine .inner (binds.of_agree hhi hagree) hparent ?_
    exact ih (Nat.le_refl _) fun i hi => hagree i (Nat.lt_trans hi binds.lt)

lemma scopes_openChild_of_lt {parent : ScopeId} {i : ℕ} (hi : i < a.scopes.size) :
    (a.openChild parent name).2.scopes[i]? = a.scopes[i]? := by
  simp [openChild, Array.getElem?_push, Nat.ne_of_lt hi]

/-- A structure that has just been opened has no fields yet. -/
lemma Opens.openChild (h : a.Opens root a.scopes.size scope frames) (name : String) :
    (a.openChild scope name).2.Opens root (a.openChild scope name).2.scopes.size a.scopes.size
      ([] :: frames) := by
  have hsize : (a.openChild scope name).2.scopes.size = a.scopes.size + 1 := by
    simp [Arena.openChild]
  rw [hsize]
  refine .inner ⟨Nat.lt_succ_self _, List.nodup_nil, ?_⟩ ?_
    (h.of_agree (Nat.le_refl _) fun i hi => scopes_openChild_of_lt hi)
  · simp [Arena.openChild, Arena.fields, HoldsFields]
  · simp [Arena.openChild, Arena.parent?]

lemma scopes_insert_of_ne {f : Field} {i : ℕ} (hi : scope ≠ i) :
    (a.insert scope f).scopes[i]? = a.scopes[i]? := by
  simp only [insert, Array.getElem?_modify, if_neg hi]

lemma parent?_insert (f : Field) : (a.insert scope f).parent? scope = a.parent? scope := by
  simp only [insert, parent?, Array.getElem?_modify, if_true]
  cases a.scopes[scope]? <;> rfl

/-- A field that is bound in the innermost structure becomes its latest member. -/
lemma Binds.insert {t : FieldType} {f : Field} (h : a.Binds hi scope before)
    (hsize : scope < a.scopes.size) (hnew : name ∉ before.map Prod.fst) (hname : f.name = name)
    (htype : f.type = t) (hvalue : a.Holds (scope + 1) hi t f.value) :
    (a.insert scope f).Binds hi scope ((name, t) :: before) where
  lt := h.lt
  distinct := List.nodup_cons.mpr ⟨hnew, h.distinct⟩
  fields := by
    have hagree : ∀ i, scope + 1 ≤ i → i < hi → (a.insert scope f).scopes[i]? = a.scopes[i]? :=
      fun i hge _ => scopes_insert_of_ne (Nat.ne_of_lt hge)
    rw [fields_insert_self hsize, List.reverse_cons]
    refine HoldsFields.concat ?_ hname htype ?_
    · exact h.fields.of_agree (Nat.le_refl _) (Nat.le_refl _) hagree
    · exact hvalue.of_agree (Nat.le_refl _) (Nat.le_refl _) hagree

lemma Opens.insert {t : FieldType} {f : Field} (h : a.Opens root hi scope (before :: frames))
    (hsize : scope < a.scopes.size) (hnew : name ∉ before.map Prod.fst) (hname : f.name = name)
    (htype : f.type = t) (hvalue : a.Holds (scope + 1) hi t f.value) :
    (a.insert scope f).Opens root hi scope (((name, t) :: before) :: frames) := by
  cases h with
  | block binds parent =>
    have hbinds := binds.insert hsize hnew hname htype hvalue
    exact .block hbinds ((parent?_insert f).trans parent)
  | inner binds parent rest =>
    have hbinds := binds.insert hsize hnew hname htype hvalue
    refine .inner hbinds ((parent?_insert f).trans parent) ?_
    exact rest.of_agree (Nat.le_refl _) fun i hi => scopes_insert_of_ne (Nat.ne_of_gt hi)

/-! ## Blocks decoded before -/

/-- The scope of a block that has been decoded has its fields, and all scopes of the block lie before
`bound`. -/
def Completes (a : Arena) (bound : ℕ) (entry : StaticScope × ScopeId)
    (block : StaticScope × FieldType) : Prop :=
  entry.1 = block.1 ∧ ∃ least members, block.2 = .struct least members ∧ entry.2 < bound ∧
    a.HoldsFields 0 bound members (a.fields entry.2)

lemma Completes.of_agree {entry : StaticScope × ScopeId} {block : StaticScope × FieldType}
    (h : a.Completes bound entry block) (hbound : bound ≤ bound')
    (hagree : ∀ i < bound, a'.scopes[i]? = a.scopes[i]?) : a'.Completes bound' entry block := by
  obtain ⟨hname, least, members, hstruct, hlt, hfields⟩ := h
  refine ⟨hname, least, members, hstruct, Nat.lt_of_lt_of_le hlt hbound, ?_⟩
  rw [fields_congr (hagree _ hlt)]
  exact hfields.of_agree (Nat.le_refl _) hbound fun i _ hi => hagree i hi

lemma Completes.completed {entry : StaticScope × ScopeId} {block : StaticScope × FieldType}
    (h : a.Completes bound entry block) : ScopeChain.Completed (a, entry) block := by
  obtain ⟨hname, least, members, hstruct, -, hfields⟩ := h
  exact ⟨hname, least, members, hstruct, hfields.mirrors⟩

end Arena

namespace ScopeChain

variable {chain chain' : ScopeChain} {bound bound' : ℕ} {scope root : ScopeId} {view : View}
  {done : List (StaticScope × ScopeId)} {earlier : List (StaticScope × FieldType)}

/-- The blocks in `earlier`, the latest of which is first, have been decoded: those of the innermost
arena are in `done`, and all their scopes lie before `bound`. -/
def Knows (chain : ScopeChain) (bound : ℕ) (done : List (StaticScope × ScopeId))
    (earlier : List (StaticScope × FieldType)) : Prop :=
  ∃ here beyond, earlier = here ++ beyond ∧
    List.Forall₂ (chain.arena.Completes bound) done.reverse here ∧
    List.Forall₂ Completed (chain.outer.flatMap fun a => a.blocks.reverse.map (a, ·)) beyond

lemma Knows.of_agree (h : chain.Knows bound done earlier) (hbound : bound ≤ bound')
    (houter : chain'.outer = chain.outer)
    (hagree : ∀ i < bound, chain'.arena.scopes[i]? = chain.arena.scopes[i]?) :
    chain'.Knows bound' done earlier := by
  obtain ⟨here, beyond, hearlier, hhere, hbeyond⟩ := h
  refine ⟨here, beyond, hearlier, hhere.imp fun entry block hc => hc.of_agree hbound hagree, ?_⟩
  rwa [houter]

lemma Knows.completed (h : chain.Knows bound done earlier) :
    List.Forall₂ Completed (done.reverse.map (chain.arena, ·) ++
      chain.outer.flatMap fun a => a.blocks.reverse.map (a, ·)) earlier := by
  obtain ⟨here, beyond, rfl, hhere, hbeyond⟩ := h
  refine List.rel_append ?_ hbeyond
  rw [List.forall₂_map_left_iff]
  exact hhere.imp fun entry block hc => hc.completed

/-- **Inside a block.**  Around the scope `scope` those structures are open of which the view has the
frames, and the blocks that the view has as earlier lie before the block of the place, whose scope is
`root`. -/
structure Inside (chain : ScopeChain) (scope : ScopeId) (view : View) (root : ScopeId) : Prop where
  opens : chain.arena.Opens root chain.arena.scopes.size scope view.frames
  blocks : ∃ done, chain.arena.blocks = done ++ [(view.place.block, root)] ∧
    chain.Knows root done view.earlier
  distinct : (view.place.block :: view.earlier.map Prod.fst).Nodup

lemma Inside.sees (h : chain.Inside scope view root) :
    ∃ others, chain.Sees scope view root others := by
  obtain ⟨done, hblocks, hknows⟩ := h.blocks
  refine ⟨_, h.opens, ?_, hknows.completed, h.distinct⟩
  simp [registered, arenas, hblocks]

/-- Nothing that is decoded behind the open structures changes what is seen. -/
lemma Inside.of_agree (h : chain.Inside scope view root)
    (hsize : chain.arena.scopes.size ≤ chain'.arena.scopes.size)
    (houter : chain'.outer = chain.outer) (hblocks : chain'.arena.blocks = chain.arena.blocks)
    (hagree : ∀ i < chain.arena.scopes.size, chain'.arena.scopes[i]? = chain.arena.scopes[i]?) :
    chain'.Inside scope view root where
  opens := h.opens.of_agree hsize hagree
  blocks := by
    obtain ⟨done, hdone, hknows⟩ := h.blocks
    have hroot : root < chain.arena.scopes.size := Nat.lt_of_le_of_lt h.opens.root_le h.opens.lt
    refine ⟨done, hblocks.trans hdone, hknows.of_agree (Nat.le_refl _) houter fun i hi => ?_⟩
    exact hagree i (Nat.lt_trans hi hroot)
  distinct := h.distinct

lemma Inside.grow {s s' : DecodeState} (h : s.scopes.Inside scope view root)
    (hgrows : s.Grows none s') : s'.scopes.Inside scope view root :=
  h.of_agree hgrows.size hgrows.outer hgrows.blocks fun i hi => hgrows.scope i hi (by simp)

/-- In a structure that has just been opened, the view has one frame more, without members. -/
lemma Inside.openChild {s s' : DecodeState} {name : String} {inner : ScopeId}
    (h : s.scopes.Inside scope view root)
    (hopen : DecodeM.openChild scope name s = .ok inner s') :
    s'.scopes.Inside inner (view.enter []) root := by
  cases hopen
  have hroot : root < s.scopes.arena.scopes.size := Nat.lt_of_le_of_lt h.opens.root_le h.opens.lt
  obtain ⟨done, hdone, hknows⟩ := h.blocks
  refine ⟨h.opens.openChild name, ⟨done, hdone, ?_⟩, h.distinct⟩
  exact hknows.of_agree (Nat.le_refl _) rfl fun i hi =>
    Arena.scopes_openChild_of_lt (Nat.lt_trans hi hroot)

/-- Behind a field, the view has it as the latest member. -/
lemma Inside.bindField {s s' : DecodeState} {name : String} {t : FieldType} {f : Field}
    {before : List (String × FieldType)} (h : s.scopes.Inside scope (view.enter before) root)
    (hnew : name ∉ before.map Prod.fst) (hname : f.name = name) (htype : f.type = t)
    (hvalue : s.scopes.arena.Holds (scope + 1) s.scopes.arena.scopes.size t f.value)
    (hbind : DecodeM.bindField scope f s = .ok () s') :
    s'.scopes.Inside scope (view.enter ((name, t) :: before)) root := by
  cases hbind
  obtain ⟨done, hdone, hknows⟩ := h.blocks
  have hsize : (s.scopes.arena.insert scope f).scopes.size = s.scopes.arena.scopes.size := by
    simp [Arena.insert]
  refine ⟨?_, ⟨done, hdone, ?_⟩, h.distinct⟩
  · change (s.scopes.arena.insert scope f).Opens root (s.scopes.arena.insert scope f).scopes.size _ _
    rw [hsize]
    exact h.opens.insert h.opens.lt hnew hname htype hvalue
  · refine hknows.of_agree (Nat.le_refl _) rfl fun i hi => Arena.scopes_insert_of_ne ?_
    have hlt : i < scope := Nat.lt_of_lt_of_le hi h.opens.root_le
    exact Nat.ne_of_gt hlt

/-! ## Between blocks -/

/-- **Between blocks.**  The blocks in `earlier`, the latest of which is first, have been decoded. -/
structure Between (chain : ScopeChain) (earlier : List (StaticScope × FieldType)) : Prop where
  knows : chain.Knows chain.arena.scopes.size chain.arena.blocks earlier
  distinct : (earlier.map Prod.fst).Nodup

lemma Between.empty : ScopeChain.empty.Between [] where
  knows := ⟨[], [], rfl, .nil, .nil⟩
  distinct := List.nodup_nil

/-- The blocks of an arena stay visible from an arena inside it. -/
lemma Between.within (h : chain.Between earlier) : chain.within.Between earlier where
  knows := by
    refine ⟨[], earlier, rfl, .nil, ?_⟩
    simpa [ScopeChain.within] using h.knows.completed
  distinct := h.distinct

lemma Knows.names (h : chain.Knows bound done earlier) {entry : StaticScope × ScopeId}
    (hentry : entry ∈ done) : entry.1 ∈ earlier.map Prod.fst := by
  have hnames := names_of_completed h.completed
  rw [← hnames]
  have hhere : (chain.arena, entry) ∈ done.reverse.map (chain.arena, ·) :=
    List.mem_map.mpr ⟨entry, List.mem_reverse.mpr hentry, rfl⟩
  exact List.mem_map.mpr ⟨_, List.mem_append_left _ hhere, rfl⟩

/-- A block is opened behind all others, and it is open without a field. -/
lemma Between.openBlock {s s' : DecodeState} {place : BlockPlace} (h : s.scopes.Between earlier)
    (hnew : place.block ∉ earlier.map Prod.fst)
    (hopen : DecodeM.openBlock place.block s = .ok root s') :
    root = s.scopes.arena.scopes.size ∧ s'.scopes.outer = s.scopes.outer ∧
      s'.scopes.arena.scopes.size = s.scopes.arena.scopes.size + 1 ∧
      s'.scopes.arena.fields root = [] ∧
      s'.scopes.arena.blocks = s.scopes.arena.blocks ++ [(place.block, root)] ∧
      ∀ i < root, s'.scopes.arena.scopes[i]? = s.scopes.arena.scopes[i]? := by
  cases hopen
  refine ⟨rfl, rfl, by simp, by simp [Arena.fields], ?_, ?_⟩
  · have hall : s.scopes.arena.blocks.filter (·.1 ≠ place.block) = s.scopes.arena.blocks := by
      refine List.filter_eq_self.mpr fun entry hentry => ?_
      have hmem := h.knows.names hentry
      refine decide_eq_true ?_
      rintro heq
      exact hnew (heq ▸ hmem)
    change s.scopes.arena.blocks.filter (·.1 ≠ place.block) ++ _ = _
    rw [hall]
  · intro i hi
    simp [Array.getElem?_push, Nat.ne_of_lt hi]

/-- In a block that has just been opened, the view has one frame, without members. -/
lemma Between.inside {s s' : DecodeState} {place : BlockPlace} (h : s.scopes.Between earlier)
    (hnew : place.block ∉ earlier.map Prod.fst)
    (hopen : DecodeM.openBlock place.block s = .ok root s') :
    s'.scopes.Inside root (View.enter ⟨place, earlier, []⟩ []) root := by
  obtain ⟨hroot, houter, hsize, hfields, hblocks, hagree⟩ := h.openBlock hnew hopen
  refine ⟨?_, ⟨s.scopes.arena.blocks, hblocks, ?_⟩, List.nodup_cons.mpr ⟨hnew, h.distinct⟩⟩
  · rw [hsize, ← hroot]
    refine .block ⟨Nat.lt_succ_self _, List.nodup_nil, hfields⟩ ?_
    cases hopen
    simp [Arena.parent?]
  · rw [hroot] at hagree ⊢
    exact h.knows.of_agree (Nat.le_refl _) houter hagree

/-- Behind a block that has been decoded, it is the latest of the blocks decoded so far. -/
theorem Between.decodeBlock {s s' : DecodeState} {limit : ℕ} {block : StaticScope} {least : ℕ}
    {members : List (String × FieldType)} (h : s.scopes.Between earlier)
    (hnew : block ∉ earlier.map Prod.fst)
    (hdecode : (FieldType.struct least members).decodeBlock limit block s = .ok root s') :
    s'.scopes.Between ((block, .struct least members) :: earlier) := by
  obtain ⟨root', s₁, hopen, hdecode⟩ := DecodeM.ok_of_bind hdecode
  obtain ⟨_, s₂, hcontents, hdecode⟩ := DecodeM.ok_of_bind hdecode
  cases hdecode
  let place : BlockPlace := { stream := 0, event := none, block }
  obtain ⟨hroot, houter, hsize, hfields, hblocks, hagree⟩ :=
    h.openBlock (show place.block ∉ _ from hnew) hopen
  have hgrows := (FieldType.decodeContents_grows limit (.struct least members) block root).of_ok
    hcontents
  obtain ⟨_, s₃, halign, hmembers⟩ := DecodeM.ok_of_bind hcontents
  have hscopes := scopes_of_align halign
  have hlt : root < s₁.scopes.arena.scopes.size := by
    rw [hsize, ← hroot]
    exact Nat.lt_succ_self _
  obtain ⟨fs, hfs, hholds⟩ := FieldType.holdsFields_of_decodeFields limit members root
    (by rwa [hscopes]) hmembers
  rw [hscopes, hfields, List.nil_append] at hfs
  refine ⟨?_, List.nodup_cons.mpr ⟨hnew, h.distinct⟩⟩
  rw [hgrows.blocks, hblocks]
  have hbound : s.scopes.arena.scopes.size ≤ s'.scopes.arena.scopes.size := by
    have := hgrows.size
    omega
  have hbehind : ∀ i < s.scopes.arena.scopes.size,
      s'.scopes.arena.scopes[i]? = s.scopes.arena.scopes[i]? := by
    intro i hi
    have hne : some root ≠ some i := by
      rintro heq
      cases heq
      exact Nat.lt_irrefl _ (hroot ▸ hi)
    have hkept := hgrows.scope i (by omega) hne
    exact hkept.trans (hagree i (by rwa [hroot]))
  obtain ⟨here, beyond, hearlier, hhere, hbeyond⟩ :=
    h.knows.of_agree hbound (hgrows.outer.trans houter) hbehind
  refine ⟨(block, .struct least members) :: here, beyond, by rw [hearlier]; rfl, ?_, hbeyond⟩
  rw [List.reverse_append]
  refine .cons ⟨rfl, least, members, rfl, Nat.lt_of_lt_of_le hlt hgrows.size, ?_⟩ hhere
  rw [hfs]
  exact hholds.of_agree (Nat.zero_le _) (Nat.le_refl _) fun _ _ _ => rfl

end ScopeChain

end CommonTrace
