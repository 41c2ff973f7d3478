import CommonTrace.Proofs.Schema.Completion
import CommonTrace.Proofs.Schema.Courses

/-!
# The calls under way

Reading metadata makes requests, and answering them makes more.  At each time some requests wait for others:
they are the calls under way, a stack (`Metadata.Stack`).  Whatever it is made of, a request comes from the
procedure that is innermost at the time, and there are three kinds of these: the reading of the tree itself,
the building of what specifiers describe, and the resolving of a name.  `Metadata.Made` says what is known of
a request from each of them; everything about stacks is derived from it.

Resolving a name is what marks entries.  It marks the entry of the name while its type is being built, and
puts the type in its place afterwards.  So the entries that are marked are those that the calls under way
build, whenever a request is made and whenever one has been answered (`Metadata.Meets.inProgress_iff`).
-/

namespace CommonTrace

open Tsdl TypeM

/-- Where an entry is found: its scope and its name. -/
abbrev EntryId := TypeScopeId × String

/-- The entry whose type a request builds: the nearest one of the name, if it is still to be built. -/
def Frame.builds? (frame : Frame) : Option EntryId :=
  match frame.request with
  | .part _ _ => none
  | .named scope name =>
    match frame.table.nearest? scope name with
    | some (home, .pending _) => some (home, name)
    | _ => none

/-- The entries that some calls build, in the order of the calls. -/
def building (frames : List Frame) : List EntryId :=
  frames.filterMap Frame.builds?

section Building

variable {scope home : TypeScopeId} {name : String} {source : TypeSource} {table : TypeTable} {frame : Frame}
  {entry : EntryId} {frames : List Frame}

lemma Frame.builds?_of_pending (h : table.nearest? scope name = some (home, .pending source)) :
    Frame.builds? ⟨.named scope name, table⟩ = some (home, name) := by
  simp only [Frame.builds?, h]

lemma Frame.exists_of_builds? (h : frame.builds? = some entry) :
    ∃ scope table source, frame = ⟨.named scope entry.2, table⟩ ∧
      table.nearest? scope entry.2 = some (entry.1, .pending source) := by
  obtain ⟨request, table⟩ := frame
  cases request with
  | part => cases h
  | named scope name =>
    simp only [Frame.builds?] at h
    split at h
    · rename_i home source hnearest
      cases h
      exact ⟨scope, table, source, rfl, hnearest⟩
    · cases h

lemma building_cons_of_none (h : frame.builds? = none) : building (frame :: frames) = building frames :=
  List.filterMap_cons_none h

lemma building_cons_of_some (h : frame.builds? = some entry) :
    building (frame :: frames) = entry :: building frames :=
  List.filterMap_cons_some h

end Building

namespace Metadata

/-- How requests are answered when metadata is read from a tree.  How many nested steps are left has no part
in the answers, so it is the same number for all requests, whatever they are made for. -/
def answers (root : Node) : Answers :=
  .within (root.weight + 1)

/-- The requests that are made when some calls are under way, innermost first: the innermost one makes them,
or else the reading of the tree, which is what `Metadata.ofTree` does with these answers. -/
def Makes (root : Node) : List Frame → Frame → Prop
  | [], frame => root.kind = .root ∧ ∃ declared, traceByteOrder? root = .ok declared ∧
    Calls (fun answers => BlockM.readAll answers.names answers.parts root (assumed declared)) (answers root)
      (.empty (declared.getD .little)) frame
  | caller :: _, frame => Calls caller.request.steps (answers root) caller.table frame

/-- **The calls that are under way at some time**, innermost first. -/
inductive Stack (root : Node) : List Frame → Prop
  | nil : Stack root []
  | call {frames : List Frame} {frame : Frame} (h : Stack root frames) (hmakes : Makes root frames frame) :
    Stack root (frame :: frames)

/-- The table from which the blocks are read: the names under the root have been entered. -/
structure Opening (root : Node) (declared : Option ByteOrder) (start : TypeTable) : Prop where
  kind : root.kind = .root
  byteOrder : traceByteOrder? root = .ok declared
  enter : enterAll TypeTable.rootScope root.children (.empty (declared.getD .little)) = .ok ((), start)

/-- What is done from there on. -/
abbrev reading (root : Node) (declared : Option ByteOrder) (answers : Answers) :
    TypeM (Blocks × List Warning) :=
  BlockM.readEntered answers.names answers.parts root (assumed declared)

/-- **The table when some calls are under way**: a request is made just then, or has just been answered, or
all has been read. -/
inductive Meets (root : Node) : List Frame → TypeTable → Prop
  | made {frames : List Frame} {frame : Frame} (h : Stack root (frame :: frames)) :
      Meets root frames frame.table
  | answered {frames : List Frame} {frame : Frame} {t : FieldType} {after : TypeTable}
      (h : Stack root (frame :: frames)) (hanswer : answers root frame.request frame.table = .ok (t, after)) :
      Meets root frames after
  | finished {declared : Option ByteOrder} {start after : TypeTable} {read : Blocks × List Warning}
      (hopening : Opening root declared start)
      (hread : reading root declared (answers root) start = .ok (read, after)) : Meets root [] after

variable {root : Node} {frames : List Frame} {frame : Frame} {depth : ℕ}

/-! ## Answers -/

/-- A request is answered by its steps. -/
lemma answers_eq_steps (hfits : frame.Fits depth) (hdepth : depth ≤ root.weight) :
    answers root frame.request frame.table = frame.request.steps (answers root) frame.table := by
  cases hfits with
  | named => rfl
  | part world h =>
    have hsame := (buildSpecifiers_same (Nat.le_succ_of_le hdepth) h).same fun _ _ _ heq => heq
    have hsame' := (buildSpecifiers_same (Nat.le_add_right_of_le hdepth : depth ≤ root.weight + 2) h).same
      fun _ _ _ heq => heq
    exact hsame.1.symm.trans hsame'.1

/-- What specifiers describe is built regularly. -/
lemma regular_part {world : Comparison.ending.World} {scope : TypeScopeId} {specifiers : Node}
    (hsound : (answers root).Sound (Frame.Fits depth))
    (h : Reached (depth + 1) world scope scope specifiers specifiers) :
    Regular (Frame.Fits depth) (answers root) (Request.part scope specifiers).steps world.1 where
  dialogue := (inquiry_interpret scope specifiers).exists_dialogue world.1
  runs _ _ := (grounds_hearing hsound).interpret h

/-- Names are resolved soundly if what specifiers describe is built so. -/
lemma sound_of_parts
    (hparts : ∀ (world : Comparison.ending.World) scope specifiers,
      Reached depth world scope scope specifiers specifiers →
        Frame.Sound (answers root) ⟨.part scope specifiers, world.1⟩) :
    (answers root).Sound (Frame.Fits depth) := by
  intro frame hfits
  cases hfits with
  | part world h => exact hparts _ _ _ h
  | @named world scope name hscope hstock =>
    constructor
    · intro herror
      have he : ¬SchemaError.chainTooLong.IsLocal := fun h => h
      rcases resolveNamed_error_cases he herror with ⟨_, -, heq⟩ | ⟨home, source, hnearest, hbuild⟩
      · cases heq
      · obtain ⟨_, hreached⟩ := exists_reached_of_pending hscope hstock hnearest
        exact (hparts _ _ _ hreached).ne_chainTooLong hbuild
    · intro t after hok
      rcases resolveNamed_ok_cases hok with
        ⟨_, -, rfl⟩ | ⟨home, source, t', middle, notes, hnearest, hbuild, rfl⟩
      · exact ⟨world.2, .refl _⟩
      · obtain ⟨_, hreached⟩ := exists_reached_of_pending hscope hstock hnearest
        obtain ⟨hprepared, hadvances⟩ := (hparts _ _ _ hreached).advances t' middle hbuild
        have hnoted := hadvances.trans (TypeTable.Quiet.note middle notes).toAdvances
        have hordered := (hprepared.note notes).toOrdered
        exact ⟨(hprepared.note notes).setEntry home name nofun,
          .of_marked world.2.toOrdered hordered (TypeTable.lookup?_of_nearest? hnearest) t hnoted⟩

/-- **Requests are answered soundly.** -/
theorem sound_answers (hdepth : depth ≤ root.weight) : (answers root).Sound (Frame.Fits depth) := by
  induction depth with
  | zero =>
    refine sound_of_parts fun world scope specifiers h => ?_
    have hpos := specifiers.weight_pos
    have hle := h.le
    omega
  | succ depth ih =>
    refine sound_of_parts fun world scope specifiers h => ?_
    have hregular := regular_part (ih (Nat.le_of_succ_le hdepth)) h
    have hsteps := answers_eq_steps (.part world h) hdepth
    exact ⟨hsteps ▸ hregular.ne_chainTooLong, fun t after hok => hregular.advances (hsteps.symm.trans hok)⟩

/-! ## The reading of the tree -/

section Opening

variable {declared : Option ByteOrder} {start : TypeTable}

/-- The blocks are read regularly. -/
lemma Opening.regular (h : Opening root declared start) :
    Regular (Frame.Fits root.weight) (answers root) (reading root declared) start where
  dialogue := BlockM.dialogues_readEntered root (assumed declared) start
  runs stops stops' := by
    obtain ⟨hprepared, hentered⟩ := BlockM.exists_entered (Nat.le_refl root.weight) h.enter
    have hV : Comparison.KeptByWarnings Eq := by
      rintro passed _ warning rfl
      rfl
    have hopen (later : Comparison.ending.World) (node node' : Node)
        (hinside : Entered root.weight later TypeTable.rootScope TypeTable.rootScope root root)
        (hsame : node = node') (hnode : node ∈ Node.others root.children) :
        (Comparison.hearing (Frame.Fits root.weight) (answers root) stops stops').Holds later
          (Comparison.openBody TypeTable.rootScope node) (Comparison.openBody TypeTable.rootScope node')
          fun later t t' => Entered root.weight later t t' node node' := by
      subst hsame
      exact hearing_openBody hinside.scope_lt (hinside.block_le hnode)
    have hread := (grounds_hearing (sound_answers (Nat.le_refl _))).readEntered hV rfl hentered
      fun later node node' hinside hsame hnode _ _ => hopen later node node' hinside hsame hnode
    exact Comparison.weaken (hread (assumed declared) _ rfl) fun _ _ _ _ heq => Prod.ext heq.1 heq.2

lemma Opening.unique {declared' : Option ByteOrder} {start' : TypeTable} (h : Opening root declared start)
    (h' : Opening root declared' start') : declared = declared' ∧ start = start' := by
  obtain rfl := Except.ok.inj (h.byteOrder.symm.trans h'.byteOrder)
  cases h.enter.symm.trans h'.enter
  exact ⟨rfl, rfl⟩

lemma Opening.readAll_eq (h : Opening root declared start) (answers : Answers) :
    BlockM.readAll answers.names answers.parts root (assumed declared) (.empty (declared.getD .little)) =
      reading root declared answers start := by
  rw [BlockM.readAll_apply, h.enter]
  rfl

/-- What the reading of the tree requests, it requests after the names under the root have been entered. -/
lemma makes_nil_iff : Makes root [] frame ↔ ∃ declared start, Opening root declared start ∧
    Calls (reading root declared) (answers root) start frame := by
  constructor
  · rintro ⟨hkind, declared, hdeclared, hcalls⟩
    cases henter : enterAll TypeTable.rootScope root.children (.empty (declared.getD .little)) with
    | error e =>
      have hfails (answers : Answers) : BlockM.readAll answers.names answers.parts root (assumed declared)
          (.empty (declared.getD .little)) = .error e := by
        rw [BlockM.readAll_apply, henter]
        rfl
      exact absurd hcalls (not_calls_of_const fun error => hfails _)
    | ok r =>
      have hopening : Opening root declared r.2 := ⟨hkind, hdeclared, henter⟩
      exact ⟨declared, r.2, hopening, fun error => (hopening.readAll_eq _).symm.trans (hcalls error)⟩
  · rintro ⟨declared, start, hopening, hcalls⟩
    refine ⟨hopening.kind, declared, hopening.byteOrder, fun error => ?_⟩
    exact (hopening.readAll_eq _).trans (hcalls error)

end Opening

/-- Nothing but the reading of the tree fails because of a chain of references. -/
lemma exists_reading_of_error {e : SchemaError} (he : ¬e.IsLocal) (h : ofTree root = .error e) :
    ∃ declared start, Opening root declared start ∧ reading root declared (answers root) start = .error e := by
  rw [ofTree_eq_ofTreeWithin] at h
  by_cases hkind : root.kind = .root
  · rw [ofTreeWithin_of_kind_eq hkind] at h
    rcases error_of_bind_eq_error h with hdeclared | ⟨declared, hdeclared, hrest⟩
    · exact absurd ((direct_traceByteOrder? root).isLocal e hdeclared) he
    rcases error_of_bind_eq_error hrest with hread | ⟨read, -, hbind⟩
    · rw [BlockM.readAllWithin_apply] at hread
      rcases error_of_bind_eq_error hread with henter | ⟨r, henter, hread⟩
      · exact absurd (decisive_enterAll _ _ _ e henter) he
      · exact ⟨declared, r.2, ⟨hkind, hdeclared, henter⟩, hread⟩
    · exact absurd (local_ofRead _ read e hbind) he
  · rw [ofTreeWithin_of_kind_ne hkind] at h
    exact absurd (local_malformed (α := Metadata) _ e h) he

/-- The reading of an accepted tree comes to an end. -/
lemma exists_reading_of_ok {metadata : Metadata} (h : ofTree root = .ok metadata) :
    ∃ declared start read after, Opening root declared start ∧
      reading root declared (answers root) start = .ok (read, after) := by
  rw [ofTree_eq_ofTreeWithin] at h
  by_cases hkind : root.kind = .root
  · rw [ofTreeWithin_of_kind_eq hkind] at h
    obtain ⟨declared, hdeclared, hrest⟩ := exists_of_bind_eq_ok h
    obtain ⟨⟨read, after⟩, hread, -⟩ := exists_of_bind_eq_ok hrest
    rw [BlockM.readAllWithin_apply] at hread
    obtain ⟨⟨⟨⟩, start⟩, henter, hread⟩ := exists_of_bind_eq_ok hread
    exact ⟨declared, start, read, after, ⟨hkind, hdeclared, henter⟩, hread⟩
  · rw [ofTreeWithin_of_kind_ne hkind] at h
    cases h

/-! ## What makes requests -/

/-- To resolve a name, its type is requested if it is still to be built, and the entry is marked before. -/
lemma calls_named_iff {answers : Answers} {scope : TypeScopeId} {name : String} {table : TypeTable} :
    Calls (Request.named scope name).steps answers table frame ↔
      ∃ home source, table.nearest? scope name = some (home, .pending source) ∧
        frame = ⟨.part home source.specifiers, table.setEntry home name .inProgress⟩ := by
  have hconst {outcome : Except SchemaError (FieldType × TypeTable)}
      (h : ∀ answers : Answers, resolveNamed answers.parts scope name table = outcome) :
      ¬Calls (Request.named scope name).steps answers table frame :=
    not_calls_of_const fun error => h _
  cases hnearest : table.nearest? scope name with
  | none =>
    exact ⟨fun hcalls => absurd hcalls (hconst fun _ => resolveNamed_of_none hnearest), nofun⟩
  | some found =>
    obtain ⟨home, entry⟩ := found
    cases entry with
    | inProgress =>
      exact ⟨fun hcalls => absurd hcalls (hconst fun _ => resolveNamed_of_inProgress hnearest), nofun⟩
    | built t =>
      exact ⟨fun hcalls => absurd hcalls (hconst fun _ => resolveNamed_of_built hnearest), nofun⟩
    | pending source =>
      have hdialogue (answers : Answers) : (Request.named scope name).steps answers table =
          (Dialogue.ask ⟨.part home source.specifiers, table.setEntry home name .inProgress⟩ fun t built =>
            .done (buildType (fun _ _ => pure t) home source.specifiers source.declarator built >>= fun r =>
              .ok (r.1, r.2.setEntry home name (.built r.1)))).run answers :=
        (resolveNamed_of_pending hnearest).trans (bind_assoc _ _ _)
      rw [Dialogue.calls_iff_mem answers hdialogue, Dialogue.mem_frames_ask]
      constructor
      · rintro (rfl | ⟨_, -, hmem⟩)
        · exact ⟨home, source, rfl, rfl⟩
        · cases hmem
      · rintro ⟨home', source', hfound, rfl⟩
        cases hfound
        exact .inl rfl

/-- What is requested for specifiers takes fewer nested steps. -/
lemma fits_of_part {world : Comparison.ending.World} {scope : TypeScopeId} {specifiers : Node}
    (hdepth : depth < root.weight) (h : Reached (depth + 1) world scope scope specifiers specifiers)
    (hmakes : Makes root (⟨.part scope specifiers, world.1⟩ :: frames) frame) : frame.Fits depth :=
  ((regular_part (sound_answers (Nat.le_of_lt hdepth)) h).of_calls hmakes).1

/-- What is requested for a name are specifiers. -/
lemma fits_of_named {world : Comparison.ending.World} {scope : TypeScopeId} {name : String}
    (hscope : scope < world.1.scopes.size) (hstock : world.1.stock scope ≤ depth)
    (hmakes : Makes root (⟨.named scope name, world.1⟩ :: frames) frame) :
    ∃ (world' : Comparison.ending.World) (home : TypeScopeId) (specifiers : Node),
      frame = ⟨.part home specifiers, world'.1⟩ ∧ Reached depth world' home home specifiers specifiers := by
  obtain ⟨home, source, hnearest, rfl⟩ := calls_named_iff.mp hmakes
  obtain ⟨_, hreached⟩ := exists_reached_of_pending hscope hstock hnearest
  exact ⟨_, home, source.specifiers, rfl, hreached⟩

/-- **A request that is made when some calls are under way**, by what makes it. -/
inductive Made (root : Node) : List Frame → Frame → Prop
  | reading {declared : Option ByteOrder} {start : TypeTable} {frame : Frame}
      (hopening : Opening root declared start)
      (hcalls : Calls (reading root declared) (answers root) start frame) : Made root [] frame
  | part {depth : ℕ} {scope : TypeScopeId} {specifiers : Node} {table : TypeTable} {frames : List Frame}
      {frame : Frame}
      (hregular : Regular (Frame.Fits depth) (answers root) (Request.part scope specifiers).steps table)
      (hcalls : Calls (Request.part scope specifiers).steps (answers root) table frame) :
      Made root (⟨.part scope specifiers, table⟩ :: frames) frame
  | named {scope home : TypeScopeId} {name : String} {source : TypeSource} {table : TypeTable}
      {frames : List Frame} (hnearest : table.nearest? scope name = some (home, .pending source)) :
      Made root (⟨.named scope name, table⟩ :: frames)
        ⟨.part home source.specifiers, table.setEntry home name .inProgress⟩

lemma exists_depth {world : Comparison.ending.World} {scope : TypeScopeId} {specifiers : Node}
    (h : Reached depth world scope scope specifiers specifiers) : ∃ depth', depth = depth' + 1 := by
  have hpos := specifiers.weight_pos
  have hle := h.le
  exact Nat.exists_eq_add_one_of_ne_zero (by omega)

namespace Stack

lemma rest (h : Stack root (frame :: frames)) : Stack root frames := by
  cases h with
  | call h _ => exact h

lemma makes (h : Stack root (frame :: frames)) : Makes root frames frame := by
  cases h with
  | call _ hmakes => exact hmakes

lemma exists_fits (h : Stack root (frame :: frames)) : ∃ depth ≤ root.weight, frame.Fits depth := by
  induction frames generalizing frame with
  | nil =>
    obtain ⟨declared, start, hopening, hcalls⟩ := makes_nil_iff.mp h.makes
    exact ⟨root.weight, Nat.le_refl _, (hopening.regular.of_calls hcalls).1⟩
  | cons caller rest ih =>
    obtain ⟨depth, hdepth, hcaller⟩ := ih h.rest
    cases hcaller with
    | named world name hscope hstock =>
      obtain ⟨world', home, specifiers, rfl, hreached⟩ := fits_of_named hscope hstock h.makes
      exact ⟨depth, hdepth, .part world' hreached⟩
    | part world hreached =>
      obtain ⟨depth, rfl⟩ := exists_depth hreached
      exact ⟨depth, Nat.le_of_succ_le hdepth, fits_of_part hdepth hreached h.makes⟩

/-- What specifiers describe is built regularly. -/
lemma exists_regular {scope : TypeScopeId} {specifiers : Node} {table : TypeTable}
    (h : Stack root (⟨.part scope specifiers, table⟩ :: frames)) :
    ∃ depth, Regular (Frame.Fits depth) (answers root) (Request.part scope specifiers).steps table := by
  obtain ⟨depth, hdepth, hfits⟩ := h.exists_fits
  cases hfits with
  | part world hreached =>
    obtain ⟨depth, rfl⟩ := exists_depth hreached
    exact ⟨depth, regular_part (sound_answers (Nat.le_of_succ_le hdepth)) hreached⟩

/-- A name that is still to be built makes a call. -/
lemma call_of_pending {scope home : TypeScopeId} {name : String} {source : TypeSource} {table : TypeTable}
    (h : Stack root (⟨.named scope name, table⟩ :: frames))
    (hnearest : table.nearest? scope name = some (home, .pending source)) :
    Stack root (⟨.part home source.specifiers, table.setEntry home name .inProgress⟩ ::
      ⟨.named scope name, table⟩ :: frames) :=
  .call h (calls_named_iff.mpr ⟨home, source, hnearest, rfl⟩)

/-- **What is known of a call under way.** -/
theorem made (h : Stack root (frame :: frames)) : Made root frames frame := by
  match frames, h with
  | [], h =>
    obtain ⟨declared, start, hopening, hcalls⟩ := makes_nil_iff.mp h.makes
    exact .reading hopening hcalls
  | ⟨.part scope specifiers, table⟩ :: rest, h =>
    obtain ⟨depth, hregular⟩ := h.rest.exists_regular
    exact .part hregular h.makes
  | ⟨.named scope name, table⟩ :: rest, h =>
    obtain ⟨home, source, hnearest, rfl⟩ := calls_named_iff.mp h.makes
    exact .named hnearest

/-- **Calls do not nest without end**: what holds of a call if it holds of those that it makes holds of all
calls. -/
theorem induct {P : Frame → List Frame → Prop}
    (hstep : ∀ frame frames, Stack root (frame :: frames) →
      (∀ frame', Stack root (frame' :: frame :: frames) → P frame' (frame :: frames)) → P frame frames)
    (h : Stack root (frame :: frames)) : P frame frames := by
  -- the induction is on the depth; a name leads to specifiers at the same depth, and these to a lower one
  have hall {depth : ℕ} (hparts : ∀ {frames : List Frame} {world : Comparison.ending.World}
      {scope : TypeScopeId} {specifiers : Node}, Reached depth world scope scope specifiers specifiers →
        Stack root (⟨.part scope specifiers, world.1⟩ :: frames) → P ⟨.part scope specifiers, world.1⟩ frames)
      {frame : Frame} {frames : List Frame} (hfits : frame.Fits depth) (h : Stack root (frame :: frames)) :
      P frame frames := by
    cases hfits with
    | part world hreached => exact hparts hreached h
    | named world name hscope hstock =>
      refine hstep _ _ h fun frame' h' => ?_
      obtain ⟨world', home, specifiers, rfl, hreached⟩ := fits_of_named hscope hstock h'.makes
      exact hparts hreached h'
  obtain ⟨depth, hdepth, hfits⟩ := h.exists_fits
  induction depth generalizing frame frames with
  | zero =>
    refine hall (fun hreached _ => ?_) hfits h
    obtain ⟨_, hsucc⟩ := exists_depth hreached
    cases hsucc
  | succ depth ih =>
    refine hall (fun hreached h => hstep _ _ h fun frame' h' => ?_) hfits h
    exact ih h' (Nat.le_of_succ_le hdepth) (fits_of_part hdepth hreached h'.makes)

lemma answers_eq_steps (h : Stack root (frame :: frames)) :
    answers root frame.request frame.table = frame.request.steps (answers root) frame.table := by
  obtain ⟨depth, hdepth, hfits⟩ := h.exists_fits
  exact Metadata.answers_eq_steps hfits hdepth

/-- When a call has been answered, the table has advanced. -/
lemma advances (h : Stack root (frame :: frames)) {t : FieldType} {after : TypeTable}
    (hanswer : answers root frame.request frame.table = .ok (t, after)) : frame.table.Advances after := by
  obtain ⟨depth, hdepth, hfits⟩ := h.exists_fits
  exact ((sound_answers hdepth frame hfits).advances t after hanswer).2

end Stack

/-! ## Marks -/

/-- Nothing is marked when the names under the root have been entered. -/
lemma Opening.not_inProgress {declared : Option ByteOrder} {start : TypeTable}
    (h : Opening root declared start) (scope : TypeScopeId) (name : String) :
    start.lookup? scope name ≠ some .inProgress := by
  obtain ⟨_, -, -, rfl⟩ := (enterAll_eq_ok_iff_of_fresh Nat.one_pos (TypeTable.lookup?_empty _ _)).mp h.enter
  rcases TypeTable.lookup?_entered_cases _ TypeTable.rootScope _ scope name with heq | ⟨entry, -, heq⟩
  · rw [heq, TypeTable.lookup?_empty]
    nofun
  · rw [heq]
    nofun

/-- When a request is made, the entries are marked that the calls under way build. -/
lemma Stack.inProgress_iff (h : Stack root (frame :: frames)) {scope : TypeScopeId} {name : String} :
    frame.table.lookup? scope name = some .inProgress ↔ (scope, name) ∈ building frames := by
  induction frames generalizing frame with
  | nil =>
    cases h.made with
    | reading hopening hcalls =>
      rw [(hopening.regular.of_calls hcalls).2.inProgress_iff]
      exact ⟨fun hmarked => absurd hmarked (hopening.not_inProgress scope name), nofun⟩
  | cons caller rest ih =>
    have hcaller := ih h.rest
    cases h.made with
    | part hregular hcalls =>
      rw [(hregular.of_calls hcalls).2.inProgress_iff, building_cons_of_none rfl]
      exact hcaller
    | @named _ home name' source table _ hnearest =>
      have hsize := TypeTable.lt_size_of_lookup? (TypeTable.lookup?_of_nearest? hnearest)
      rw [building_cons_of_some (Frame.builds?_of_pending hnearest), List.mem_cons, Prod.mk.injEq, ← hcaller,
        TypeTable.lookup?_setEntry]
      by_cases hsame : scope = home ∧ name = name'
      · simp only [hsame, hsize, and_self, if_true, true_or]
      · rw [if_neg fun h => hsame ⟨h.1, h.2.1⟩]
        simp only [hsame, false_or]

/-- **The entries that are marked are those that the calls under way build.** -/
theorem Meets.inProgress_iff {table : TypeTable} (h : Meets root frames table) {scope : TypeScopeId}
    {name : String} : table.lookup? scope name = some .inProgress ↔ (scope, name) ∈ building frames := by
  cases h with
  | made h => exact h.inProgress_iff
  | answered h hanswer => exact (h.advances hanswer).inProgress_iff.trans h.inProgress_iff
  | finished hopening hread =>
    rw [(hopening.regular.advances hread).2.inProgress_iff]
    exact ⟨fun hmarked => absurd hmarked (hopening.not_inProgress scope name), nofun⟩

end Metadata

end CommonTrace
