import CommonTrace.Proofs.Schema.BlockComparison
import CommonTrace.Proofs.Schema.CheckFaults
import CommonTrace.Proofs.Schema.Weights
import CommonTrace.Schema.OfTree

/-!
# Building types comes to an end

Types are built in nested steps, and the number of nested steps is given beforehand.  It does not matter how
large it is, as long as it is larger than the weight of the tree: no chain of steps is ever too long, and the
result is always the same (`Metadata.conclusive_ofTree`, `Metadata.ofTreeWithin_eq_ofTree`).  So the steps
come to an end by themselves, in whatever way types refer to each other.

A step either goes on with a part of a description or with a name.  A part weighs less than the description,
and a name uses up the weight of what it stands for.  The weight of a description and what is still to be
built from its scope on (`TypeTable.stock`) therefore bound together how far the steps can be nested
(`TypeM.buildSpecifiers_same`).
-/

namespace CommonTrace

open Tsdl

/-! ## Entering names -/

/-- Whatever comes out, it is not that types refer to each other in too long a chain. -/
def Conclusive {α : Type} (x : Except SchemaError α) : Prop :=
  x ≠ .error .chainTooLong

section Conclusive

variable {α β : Type} {x : Except SchemaError α}

lemma Local.conclusive (h : Local x) : Conclusive x :=
  fun heq => (h _ heq).ne_chainTooLong rfl

lemma conclusive_ok (a : α) : Conclusive (.ok a) :=
  nofun

lemma Conclusive.bind {f : α → Except SchemaError β} (hx : Conclusive x) (hf : ∀ a, Conclusive (f a)) :
    Conclusive (x >>= f) := by
  intro herror
  rcases error_of_bind_eq_error herror with h | ⟨a, -, h⟩
  · exact hx h
  · exact hf a h

end Conclusive

namespace TypeM

/-- A step that no chain of references stops, whatever is in the table. -/
def Decisive {α : Type} (step : TypeM α) : Prop :=
  ∀ table, Local (step table)

namespace Decisive

variable {α β : Type}

lemma pure (a : α) : (Pure.pure a : TypeM α).Decisive :=
  fun _ => local_pure _

lemma bind {step : TypeM α} {next : α → TypeM β} (h : step.Decisive)
    (hnext : ∀ a, (next a).Decisive) : (step >>= next).Decisive :=
  fun table => (h table).bind fun r => hnext r.1 r.2

end Decisive

lemma Nameless.decisive {α : Type} {step : TypeM α} (h : step.Nameless) : step.Decisive := by
  obtain ⟨outcome, hlocal, hstep⟩ := h
  intro table
  rw [hstep]
  exact (hlocal table.native).map _

lemma decisive_enterAll (scope : TypeScopeId) (nodes : List Node) : (enterAll scope nodes).Decisive :=
  fun table => Direct.isLocal (direct_enterAll scope nodes table)

end TypeM

/-! ## Two bounds -/

/-- A table as it comes up: its scopes are in order, and the types of its names are lists of specifiers. -/
structure TypeTable.Prepared (table : TypeTable) : Prop extends table.Ordered where
  kind_eq : ∀ scope name source, table.lookup? scope name = some (.pending source) →
    source.specifiers.kind = .typeSpecifierList

namespace TypeTable.Prepared

variable {table : TypeTable}

lemma empty (native : ByteOrder) : (TypeTable.empty native).Prepared where
  toOrdered := .empty native
  kind_eq scope name source h := by
    cases scope <;> cases h

lemma note (h : table.Prepared) (notes : Notes) : (table.note notes).Prepared :=
  ⟨h.toOrdered.note notes, h.kind_eq⟩

lemma setEntry (h : table.Prepared) (scope : TypeScopeId) (name : String) {entry : TypeEntry}
    (hentry : ∀ source, entry = .pending source → source.specifiers.kind = .typeSpecifierList) :
    (table.setEntry scope name entry).Prepared where
  toOrdered := h.toOrdered.setEntry scope name entry
  kind_eq scope' name' source hlookup := by
    rw [lookup?_setEntry] at hlookup
    split at hlookup
    · cases hlookup
      exact hentry source rfl
    · exact h.kind_eq scope' name' source hlookup

lemma opened (h : table.Prepared) {parent : TypeScopeId} (hparent : parent < table.scopes.size) :
    (table.opened parent).Prepared where
  toOrdered := h.toOrdered.opened hparent
  kind_eq scope name source hlookup := by
    rw [lookup?_opened] at hlookup
    exact h.kind_eq scope name source hlookup

lemma entered (h : table.Prepared) (scope : TypeScopeId) {entries : List (String × TypeSource)}
    (hentries : ∀ entry ∈ entries, entry.2.specifiers.kind = .typeSpecifierList) :
    (table.entered scope entries).Prepared where
  toOrdered := h.toOrdered.entered scope entries
  kind_eq scope' name source hlookup := by
    rcases lookup?_entered_cases table scope entries scope' name with heq | ⟨entry, hentry, heq⟩
    · exact h.kind_eq scope' name source (heq ▸ hlookup)
    · rw [heq] at hlookup
      cases hlookup
      exact hentries entry hentry

end TypeTable.Prepared

/-- Two outcomes of steps that start from a table: they stop for the same reason, which is not that a chain
is too long, or they end in the same table. -/
inductive TypeM.Ends {α : Type} (start : TypeTable)
    (P : { table : TypeTable // table.Prepared } → α → α → Prop) :
    Except SchemaError (α × TypeTable) → Except SchemaError (α × TypeTable) → Prop
  | error {e : SchemaError} (he : e ≠ .chainTooLong) : Ends start P (.error e) (.error e)
  | ok {a b : α} {table : TypeTable} (hprepared : table.Prepared) (hwithin : start.Within table)
      (hP : P ⟨table, hprepared⟩ a b) : Ends start P (.ok (a, table)) (.ok (b, table))

lemma TypeM.Ends.same {α : Type} {start : TypeTable}
    {P : { table : TypeTable // table.Prepared } → α → α → Prop}
    {x y : Except SchemaError (α × TypeTable)} (h : Ends start P x y)
    (hP : ∀ later a b, P later a b → a = b) : x = y ∧ Conclusive x := by
  cases h with
  | error he => exact ⟨rfl, fun heq => he (Except.error.inj heq)⟩
  | ok _ _ hab => exact ⟨by rw [hP _ _ _ hab], conclusive_ok _⟩

/-- **Two steps that do the same and come to an end.**  Known is the table that they start from. -/
def Comparison.ending : Comparison where
  World := { table : TypeTable // table.Prepared }
  Later bound table := bound.1.Within table.1
  Holds world x y P := TypeM.Ends world.1 P (x world.1) (y world.1)
  later_refl world := .refl world.1
  later_trans := .trans
  pure {_ world _ _ _} h := .ok world.2 (.refl world.1) h
  throw h := .error h.ne_chainTooLong
  bind {α β world x y P next next' Q} h hnext := by
    change TypeM.Ends world.1 Q (x world.1 >>= fun r => next r.1 r.2)
      (y world.1 >>= fun r => next' r.1 r.2)
    generalize x world.1 = first, y world.1 = first' at h
    cases h with
    | error he => exact .error he
    | @ok a b table hprepared hwithin hP =>
      have hnext : TypeM.Ends table Q (next a table) (next' b table) :=
        hnext ⟨table, hprepared⟩ a b hwithin hP
      change TypeM.Ends world.1 Q (next a table) (next' b table)
      generalize next a table = second, next' b table = second' at hnext
      cases hnext with
      | error he => exact .error he
      | ok hprepared' hwithin' hQ => exact .ok hprepared' (hwithin.trans hwithin') hQ
  nameless {α world step} h := by
    obtain ⟨outcome, hlocal, hstep⟩ := h
    rw [hstep]
    cases houtcome : outcome world.1.native with
    | error e => exact .error (hlocal world.1.native e houtcome).ne_chainTooLong
    | ok r => exact .ok (world.2.note r.2) (.note world.1 r.2) rfl


/-! ## Names and bodies -/

namespace TypeM

variable {world : Comparison.ending.World} {build build' : TypeScopeId → Node → TypeM FieldType}
  {depth : ℕ} {scope : TypeScopeId} {specifiers body : Node}

/-- Specifiers that can be built in a scope within the given number of nested steps. -/
structure Reached (depth : ℕ) (world : Comparison.ending.World) (scope scope' : TypeScopeId)
    (specifiers specifiers' : Node) : Prop where
  scope_eq : scope = scope'
  specifiers_eq : specifiers = specifiers'
  kind_eq : specifiers.kind = .typeSpecifierList
  scope_lt : scope < world.1.scopes.size
  le : world.1.stock scope + specifiers.weight ≤ depth

/-- A body that has been opened, and in which everything can be built within the given number of nested
steps. -/
structure Entered (depth : ℕ) (world : Comparison.ending.World) (scope scope' : TypeScopeId)
    (body body' : Node) : Prop where
  scope_eq : scope = scope'
  body_eq : body = body'
  scope_lt : scope < world.1.scopes.size
  le : world.1.stock scope + Node.weightOfAll (Node.others body.children) ≤ depth

lemma ending_get_bind {α : Type} {next next' : TypeTable → TypeM α}
    {P : Comparison.ending.World → α → α → Prop}
    (h : Comparison.ending.Holds world (next world.1) (next' world.1) P) :
    Comparison.ending.Holds world (get >>= next) (get >>= next') P := h

lemma ending_modify {f : TypeTable → TypeTable} {P : Comparison.ending.World → Unit → Unit → Prop}
    (hprepared : (f world.1).Prepared) (hwithin : world.1.Within (f world.1))
    (hP : P ⟨f world.1, hprepared⟩ () ()) :
    Comparison.ending.Holds world (modify f) (modify f) P :=
  .ok hprepared hwithin hP

/-- Setting an entry with which nothing is to be built. -/
lemma ending_setEntry (home : TypeScopeId) (name : String) {entry : TypeEntry}
    (hentry : entry.weight = 0) {P : Comparison.ending.World → Unit → Unit → Prop}
    (hP : ∀ h : (world.1.setEntry home name entry).Prepared, P ⟨_, h⟩ () ()) :
    Comparison.ending.Holds world (modify fun table => table.setEntry home name entry)
      (modify fun table => table.setEntry home name entry) P := by
  refine ending_modify (world.2.setEntry home name ?_) (.setEntry world.2.toOrdered home name hentry)
    (hP _)
  rintro source rfl
  exact absurd hentry (Nat.ne_of_gt source.specifiers.weight_pos)

/-- What a name stands for can be built, once its entry is marked, within as many nested steps as there is
still to be built around the name. -/
lemma exists_reached_of_pending {name : String} {home : TypeScopeId} {source : TypeSource}
    (hscope : scope < world.1.scopes.size) (hle : world.1.stock scope ≤ depth)
    (hnearest : world.1.nearest? scope name = some (home, .pending source)) :
    ∃ h : (world.1.setEntry home name .inProgress).Prepared,
      Reached depth ⟨_, h⟩ home home source.specifiers source.specifiers := by
  have hordered := world.2.toOrdered
  have hlookup := TypeTable.lookup?_of_nearest? hnearest
  have hstock : (world.1.setEntry home name .inProgress).stock home + source.specifiers.weight ≤
      world.1.stock home :=
    TypeTable.stock_setEntry_add_le hordered hlookup rfl
  have hhome := TypeTable.stock_le_of_mem hordered (hordered.mem_around hscope hnearest)
  exact ⟨world.2.setEntry home name nofun, rfl, rfl, world.2.kind_eq home name source hlookup,
    by simpa using TypeTable.lt_size_of_lookup? hlookup, Nat.le_trans hstock (Nat.le_trans hhome hle)⟩

/-- **A name is resolved within as many nested steps as there is still to be built around it.** -/
lemma ending_resolveNamed
    (hbuild : ∀ later scope specifiers, Reached depth later scope scope specifiers specifiers →
      Comparison.ending.Same later (build scope specifiers) (build' scope specifiers))
    (hscope : scope < world.1.scopes.size) (hle : world.1.stock scope ≤ depth) (name : String) :
    Comparison.ending.Same world (resolveNamed build scope name) (resolveNamed build' scope name) := by
  unfold resolveNamed
  refine ending_get_bind ?_
  split
  · exact Ends.error nofun
  · exact Comparison.ending.pure rfl
  · exact Ends.error nofun
  rename_i home source hnearest
  obtain ⟨_, hmarked⟩ := exists_reached_of_pending hscope hle hnearest
  refine Comparison.ending.bind (P := fun later _ _ =>
    Reached depth later home home source.specifiers source.specifiers)
    (ending_setEntry home name rfl fun _ => hmarked) fun later _ _ _ hreached => ?_
  refine Comparison.ending.bind
    (Comparison.buildType .eq (hbuild _ _ _ hreached) (Comparison.rel_eq_refl source.declarator))
    fun last t t' _ heq => ?_
  subst heq
  refine Comparison.ending.bind (P := fun _ _ _ => True) ?_ fun _ _ _ _ _ => Comparison.ending.pure rfl
  exact ending_setEntry home name rfl fun _ => trivial

lemma ending_resolveAll
    (hbuild : ∀ later scope specifiers, Reached depth later scope scope specifiers specifiers →
      Comparison.ending.Same later (build scope specifiers) (build' scope specifiers))
    (hscope : scope < world.1.scopes.size) (hle : world.1.stock scope ≤ depth) :
    Comparison.ending.Same world (resolveAll (resolveNamed build) scope)
      (resolveAll (resolveNamed build') scope) := by
  unfold resolveAll
  refine ending_get_bind (Comparison.forM_resolve _ fun later name hlater => ?_)
  have hstock := hlater.stock_le world.2.toOrdered later.2.toOrdered hscope
  exact ending_resolveNamed hbuild (Nat.lt_of_lt_of_le hscope hlater.size_le) (Nat.le_trans hstock hle) name

lemma decisive_openBody (outer : TypeScopeId) (body : Node) :
    (Comparison.openBody outer body).Decisive :=
  .bind (fun _ => local_ok _) fun scope => .bind (decisive_enterAll scope _) fun _ => .pure _

/-- When a body has been opened, what it declares can be built with the rest of it. -/
lemma exists_entered_of_openBody (hscope : scope < world.1.scopes.size)
    (hle : world.1.stock scope + Node.weightOfAll body.children ≤ depth) {opened : TypeScopeId}
    {table : TypeTable} (hopen : Comparison.openBody scope body world.1 = .ok (opened, table)) :
    ∃ h : table.Prepared, Entered depth ⟨table, h⟩ opened opened body body := by
  obtain ⟨rfl, declared, hdeclared, -, rfl⟩ := Comparison.openBody_eq_ok_iff.mp hopen
  have hweight := Node.weight_add_others_le hdeclared
  have hstock := TypeTable.stock_entered_le world.2.toOrdered hscope declared.flatten
  have hprepared := (world.2.opened hscope).entered world.1.scopes.size
    fun entry => Node.kind_of_declared hdeclared
  exact ⟨hprepared, rfl, rfl, by simp, by dsimp only; omega⟩

/-- A body is opened, and what it declares can be built with the rest of it. -/
lemma ending_openBody (hscope : scope < world.1.scopes.size)
    (hle : world.1.stock scope + Node.weightOfAll body.children ≤ depth) :
    Comparison.ending.Holds world (Comparison.openBody scope body) (Comparison.openBody scope body)
      fun later t t' => Entered depth later t t' body body := by
  change Ends world.1 _ (Comparison.openBody scope body world.1) (Comparison.openBody scope body world.1)
  cases hopen : Comparison.openBody scope body world.1 with
  | error e => exact .error (decisive_openBody scope body world.1 e hopen).ne_chainTooLong
  | ok r =>
    obtain ⟨opened, table⟩ := r
    obtain ⟨hprepared, hentered⟩ := exists_entered_of_openBody hscope hle hopen
    obtain ⟨-, declared, -, -, rfl⟩ := Comparison.openBody_eq_ok_iff.mp hopen
    exact .ok hprepared (.entered scope _) hentered

/-! ## Parts of descriptions -/

section Parts

variable {later : Comparison.ending.World} {s s' : TypeScopeId} {n n' b b' : Node}

lemma Reached.mono (h : Reached depth world s s' n n') (hlater : world.1.Within later.1) :
    Reached depth later s s' n n' := by
  have hstock := hlater.stock_le world.2.toOrdered later.2.toOrdered h.scope_lt
  exact { h with
    scope_lt := Nat.lt_of_lt_of_le h.scope_lt hlater.size_le
    le := Nat.le_trans (Nat.add_le_add_right hstock _) h.le }

lemma Entered.mono (h : Entered depth world s s' b b') (hlater : world.1.Within later.1) :
    Entered depth later s s' b b' := by
  have hstock := hlater.stock_le world.2.toOrdered later.2.toOrdered h.scope_lt
  exact { h with
    scope_lt := Nat.lt_of_lt_of_le h.scope_lt hlater.size_le
    le := Nat.le_trans (Nat.add_le_add_right hstock _) h.le }

/-- A name that specifiers refer to. -/
lemma Reached.stock_le (h : Reached (depth + 1) world s s' n n') : world.1.stock s ≤ depth := by
  have hpos := n.weight_pos
  have hle := h.le
  omega

lemma Reached.container (h : Reached (depth + 1) world s s' n n') {c : Node} (hc : n.HasContainer c) :
    Reached depth world s s' c c := by
  have hle := h.le
  obtain ⟨first, holder, hfirst, -, hholder, hcontainer⟩ := id hc
  have hfirst := Node.weight_lt_of_mem (List.mem_of_head? hfirst)
  have hholder := Node.weight_lt_of_child? hholder
  have hcontainer := Node.weight_lt_of_child? hcontainer
  exact ⟨h.scope_eq, rfl, hc.kind_eq, h.scope_lt, by omega⟩

lemma Reached.body_le (h : Reached (depth + 1) world s s' n n') {body : Node} (hb : n.HasBody body) :
    world.1.stock s + Node.weightOfAll body.children ≤ depth := by
  have hle := h.le
  obtain ⟨first, hfirst, hbody⟩ := hb
  have hfirst := Node.weight_lt_of_mem (List.mem_of_head? hfirst)
  have hbody : body.weight < first.weight := by
    rcases hbody with ⟨-, hbody⟩ | ⟨-, hbody⟩ <;> exact Node.weight_lt_of_child? hbody
  have hchildren := body.weightOfAll_lt
  omega

lemma Entered.stock_le (h : Entered depth world s s' b b') : world.1.stock s ≤ depth :=
  Nat.le_trans (Nat.le_add_right _ _) h.le

lemma Entered.member (h : Entered depth world s s' b b') {m : Node} (hm : b.HasMember m) :
    Reached depth world s s' m m := by
  have hle := h.le
  have hweight := hm.weight_lt
  exact ⟨h.scope_eq, rfl, hm.kind_eq, h.scope_lt, by omega⟩

/-- A block under the root. -/
lemma Entered.block_le {root : Node} (h : Entered depth world s s' root root) {node : Node}
    (hnode : node ∈ Node.others root.children) :
    world.1.stock s + Node.weightOfAll node.children ≤ depth := by
  have hle := h.le
  have hweight := Node.weight_le_of_mem hnode
  have hchildren := node.weightOfAll_lt
  omega

end Parts

/-! ## All types -/

/-- Two bounds on the number of nested steps give grounds to compare what is built within one more. -/
lemma grounds_ending
    (hbuild : ∀ later scope specifiers, Reached depth later scope scope specifiers specifiers →
      Comparison.ending.Same later (build scope specifiers) (build' scope specifiers)) :
    Comparison.Grounds Comparison.ending Eq (resolveNamed build) (resolveNamed build') build build'
      (Reached (depth + 1)) (Reached depth) (Entered depth) where
  like := .eq
  outer_like h := ⟨h.specifiers_eq, h.kind_eq⟩
  outer_later hlater h := h.mono hlater
  inside_later hlater h := h.mono hlater
  built := by
    rintro world s s' n n' ⟨rfl, rfl, hkind, hscope, hle⟩
    exact hbuild world s n ⟨rfl, rfl, hkind, hscope, hle⟩
  resolved := by
    rintro world s s' n n' name h -
    cases h.scope_eq
    exact ending_resolveNamed hbuild h.scope_lt h.stock_le name
  resolvedAll := by
    rintro world s s' b b' h
    cases h.scope_eq
    exact ending_resolveAll hbuild h.scope_lt h.stock_le
  known := by
    rintro world s s' n n' name t ⟨rfl, rfl, -, -, -⟩ -
    unfold enterBuilt
    refine ending_modify ?_ ?_ rfl
    · split
      · exact world.2
      · exact world.2.setEntry s name nofun
    · split
      · exact .refl world.1
      · exact .setEntry world.2.toOrdered s name rfl
  container := by
    rintro world s s' n n' c c' h hc - rfl
    exact h.container hc
  body := by
    rintro world s s' n n' b b' h hb - rfl
    cases h.scope_eq
    exact ending_openBody h.scope_lt (h.body_le hb)
  member := by
    rintro world s s' b b' m m' h hm - rfl
    exact h.member hm

/-- **Nested steps come to an end by themselves**: what is built within a bound that is large enough is built
within any larger one. -/
theorem buildSpecifiers_same {depth depth' : ℕ} (hdepth : depth ≤ depth')
    {world : Comparison.ending.World} {scope : TypeScopeId} {specifiers : Node}
    (h : Reached depth world scope scope specifiers specifiers) :
    Comparison.ending.Same world (buildSpecifiers depth scope specifiers)
      (buildSpecifiers depth' scope specifiers) := by
  induction depth generalizing depth' world scope specifiers with
  | zero =>
    have hpos := specifiers.weight_pos
    have hle := h.le
    omega
  | succ depth ih =>
    obtain ⟨depth', rfl⟩ := Nat.exists_eq_add_one_of_ne_zero (Nat.ne_zero_of_lt hdepth)
    exact (grounds_ending fun later scope specifiers h =>
      ih (Nat.le_of_succ_le_succ hdepth) h).interpret h

end TypeM

/-! ## The whole tree -/

namespace BlockM

open Comparison

/-- What is read when the names under the root have been entered is read to the end. -/
lemma readEntered_same {root : Node} {depth depth' : ℕ} {world : ending.World}
    (h : TypeM.Entered depth world TypeTable.rootScope TypeTable.rootScope root root)
    (hle : depth ≤ depth') (passed : List Warning) :
    readEnteredWithin depth root passed world.1 =
        readEnteredWithin depth' root passed world.1 ∧
      Conclusive (readEnteredWithin depth root passed world.1) := by
  have hV : KeptByWarnings Eq := by
    rintro passed _ warning rfl
    rfl
  have hread : ending.SameBlock Eq world (readEnteredWithin depth root)
      (readEnteredWithin depth' root) := by
    refine (TypeM.grounds_ending fun later scope specifiers h =>
      TypeM.buildSpecifiers_same hle h).readEntered hV rfl h ?_
    rintro later node _ hinside rfl hnode - -
    exact TypeM.ending_openBody hinside.scope_lt (hinside.block_le hnode)
  exact (hread passed passed rfl).same fun _ _ _ heq => Prod.ext heq.1 heq.2

/-- When the names under the root have been entered, everything can be built within as many nested steps as
the tree weighs. -/
lemma exists_entered {root : Node} {depth : ℕ} (hdepth : root.weight ≤ depth) {native : ByteOrder}
    {table : TypeTable}
    (henter : TypeM.enterAll TypeTable.rootScope root.children (.empty native) = .ok ((), table)) :
    ∃ h : table.Prepared,
      TypeM.Entered depth ⟨table, h⟩ TypeTable.rootScope TypeTable.rootScope root root := by
  have hscope : TypeTable.rootScope < (TypeTable.empty native).scopes.size := Nat.one_pos
  obtain ⟨declared, hdeclared, -, rfl⟩ :=
    (TypeM.enterAll_eq_ok_iff_of_fresh hscope (TypeTable.lookup?_empty native _)).mp henter
  have hprepared := (TypeTable.Prepared.empty native).entered TypeTable.rootScope
    fun entry => Node.kind_of_declared hdeclared
  have hordered := hprepared.toOrdered
  have hstock : ((TypeTable.empty native).entered TypeTable.rootScope declared.flatten).stock
      TypeTable.rootScope ≤ Node.weightOfEntries declared.flatten := by
    have hwaiting : _ ≤ _ + Node.weightOfEntries declared.flatten :=
      TypeTable.waiting_entered_le (TypeTable.Ordered.empty native) hscope _
    have hnothing : (TypeTable.empty native).waiting TypeTable.rootScope = 0 := rfl
    have hparent : (TypeTable.empty native).parent? TypeTable.rootScope = none := rfl
    rw [TypeTable.stock_eq hordered, TypeTable.parent?_entered, hparent]
    rw [hnothing, Nat.zero_add] at hwaiting
    exact hwaiting
  have hweight := Node.weight_add_others_le hdeclared
  have hchildren := root.weightOfAll_lt
  exact ⟨hprepared, rfl, rfl, by simpa using hscope, by dsimp only; omega⟩

/-- **Blocks are read to the end**, and the bound on the number of nested steps has no part in it. -/
theorem readAll_same {root : Node} {depth depth' : ℕ} (hdepth : root.weight ≤ depth)
    (hle : depth ≤ depth') (native : ByteOrder) (passed : List Warning) :
    readAllWithin depth root passed (.empty native) =
        readAllWithin depth' root passed (.empty native) ∧
      Conclusive (readAllWithin depth root passed (.empty native)) := by
  rw [readAllWithin_apply, readAllWithin_apply]
  cases henter : TypeM.enterAll TypeTable.rootScope root.children (.empty native) with
  | error e =>
    have hlocal := TypeM.decisive_enterAll TypeTable.rootScope root.children (.empty native) e henter
    have hstop {β : Type} (next : Unit × TypeTable → Except SchemaError β) :
        (Except.error e >>= next) = .error e := rfl
    rw [hstop, hstop]
    exact ⟨rfl, (local_error hlocal).conclusive⟩
  | ok r =>
    obtain ⟨⟨⟩, table⟩ := r
    obtain ⟨hprepared, hentered⟩ := exists_entered hdepth henter
    exact readEntered_same hentered hle passed

end BlockM

/-! ## Metadata -/

lemma FieldType.CheckFault.isLocal {place : BlockPlace} {t : FieldType} {e : SchemaError}
    (h : t.CheckFault place e) : e.IsLocal := by
  cases h <;> exact trivial

lemma Metadata.local_checkPaths (metadata : Metadata) : Local metadata.checkPaths := by
  intro e herror
  cases fault_of_checkPaths herror with
  | layout _ hfault => exact hfault.isLocal
  | event => exact trivial

/-! ## The whole of the metadata -/

namespace Metadata

/-- The metadata that a syntax tree describes, where types are built within a number of nested steps. -/
def ofTreeWithin (depth : ℕ) (root : Node) : Except SchemaError Metadata := do
  if root.kind ≠ .root then malformed .rootExpected
  let declared ← traceByteOrder? root
  let byteOrder := declared.getD .little
  let assumed := if declared.isSome then [] else [.byteOrderMissing]
  let build := TypeM.buildSpecifiers depth
  let ((blocks, passedOver), table) ←
    ((BlockM.readAll (TypeM.resolveNamed build) build root).run assumed).run (.empty byteOrder)
  checkClocks blocks.clocks table.clocks.toList
  let streams ← bindEvents blocks.streams blocks.events
  let metadata := Metadata.ofBlocks byteOrder blocks streams (passedOver ++ table.warnings.toList)
  metadata.checkPaths
  return metadata

lemma ofTree_eq_ofTreeWithin (root : Node) : ofTree root = ofTreeWithin (root.weight + 1) root := rfl

/-- What is passed over before any block is read. -/
def assumed (declared : Option ByteOrder) : List Warning :=
  if declared.isSome then [] else [.byteOrderMissing]

/-- The metadata that consists of the blocks that have been read. -/
def ofRead (byteOrder : ByteOrder) (read : (Blocks × List Warning) × TypeTable) :
    Except SchemaError Metadata := do
  checkClocks read.1.1.clocks read.2.clocks.toList
  let streams ← bindEvents read.1.1.streams read.1.1.events
  let metadata := Metadata.ofBlocks byteOrder read.1.1 streams (read.1.2 ++ read.2.warnings.toList)
  metadata.checkPaths
  return metadata

variable {root : Node}

lemma ofTreeWithin_of_kind_ne (h : root.kind ≠ .root) (depth : ℕ) :
    ofTreeWithin depth root = malformed .rootExpected := by
  rw [ofTreeWithin, if_pos h]
  rfl

lemma ofTreeWithin_of_kind_eq (h : root.kind = .root) (depth : ℕ) :
    ofTreeWithin depth root = traceByteOrder? root >>= fun declared =>
      BlockM.readAllWithin depth root (assumed declared)
        (.empty (declared.getD .little)) >>= ofRead (declared.getD .little) := by
  rw [ofTreeWithin, if_neg (not_not.mpr h)]
  rfl

lemma local_ofRead (byteOrder : ByteOrder) (read : (Blocks × List Warning) × TypeTable) :
    Local (ofRead byteOrder read) := by
  refine (direct_checkClocks _ _).isLocal.bind fun _ => ?_
  refine (direct_bindEvents _ _).isLocal.bind fun streams => ?_
  exact (local_checkPaths _).bind fun _ => local_pure _

/-- Within as many nested steps as the tree weighs, everything is built. -/
lemma ofTreeWithin_same (root : Node) {depth depth' : ℕ} (hdepth : root.weight ≤ depth)
    (hle : depth ≤ depth') :
    ofTreeWithin depth root = ofTreeWithin depth' root ∧ Conclusive (ofTreeWithin depth root) := by
  by_cases hkind : root.kind = .root
  · have hread (declared : Option ByteOrder) :=
      BlockM.readAll_same hdepth hle (declared.getD .little) (assumed declared)
    rw [ofTreeWithin_of_kind_eq hkind, ofTreeWithin_of_kind_eq hkind]
    refine ⟨bind_congr fun declared => by rw [(hread declared).1], ?_⟩
    refine (direct_traceByteOrder? root).isLocal.conclusive.bind fun declared => ?_
    exact (hread declared).2.bind fun read => (local_ofRead _ read).conclusive
  · rw [ofTreeWithin_of_kind_ne hkind, ofTreeWithin_of_kind_ne hkind]
    exact ⟨rfl, (local_malformed _).conclusive⟩

lemma conclusive_ofTree (root : Node) : Conclusive (ofTree root) :=
  (ofTreeWithin_same root (Nat.le_succ _) (Nat.le_refl _)).2

/-- Any bound will do that is at least as large as the tree weighs. -/
lemma ofTreeWithin_eq_ofTree {root : Node} {depth : ℕ} (hdepth : root.weight ≤ depth) :
    ofTreeWithin depth root = ofTree root := by
  rw [ofTree_eq_ofTreeWithin, ← (ofTreeWithin_same root (Nat.le_refl _) hdepth).1,
    (ofTreeWithin_same root (Nat.le_refl _) (Nat.le_succ _)).1]

/-- **Building types comes to an end on every tree.**  No chain of nested steps is too long, and with any
other number of nested steps that is as large as the weight of the tree the result is the same: it is not the
bound that ends the building. -/
theorem ofTree_terminates (root : Node) :
    ofTree root ≠ .error .chainTooLong ∧
      ∀ depth, root.weight ≤ depth → ofTreeWithin depth root = ofTree root :=
  ⟨conclusive_ofTree root, fun _ => ofTreeWithin_eq_ofTree⟩

end Metadata

end CommonTrace
