import CommonTrace.Proofs.Schema.AlikeTables
import CommonTrace.Proofs.Schema.Termination
import CommonTrace.Proofs.Schema.Trees

/-!
# Where definitions stand

The names of types may be introduced anywhere in the block or the body in which they are used: a rearranged
tree describes the same metadata (`Metadata.ofTree_rearranged`).

Names are entered before anything refers to them, so that a scope knows the same names wherever the
definitions stand.  From there on two rearranged trees are read in the same steps from tables that are alike
(`Comparison.together`).
-/

namespace CommonTrace

open Tsdl

/-! ## Steps -/

/-- Two outcomes that are accepted together: in tables that are alike and have at least as many scopes as
before, and with related results. -/
inductive TypeM.Agree {α : Type} (size : ℕ) (P : ℕ → α → α → Prop) :
    Except SchemaError (α × TypeTable) → Except SchemaError (α × TypeTable) → Prop
  | error {e e' : SchemaError} : Agree size P (.error e) (.error e')
  | ok {later : ℕ} {a b : α} {table table' : TypeTable} (hsize : size ≤ later)
      (hlater : later ≤ table.scopes.size) (halike : table.Alike table') (hP : P later a b) :
      Agree size P (.ok (a, table)) (.ok (b, table'))

/-- **Two steps that succeed or fail together**, from tables that are alike.  Known is a number of scopes. -/
def Comparison.together : Comparison where
  World := ℕ
  Later := (· ≤ ·)
  Holds size x y P := ∀ table table', table.Alike table' → size ≤ table.scopes.size →
    TypeM.Agree size P (x table) (y table')
  later_refl := Nat.le_refl
  later_trans := Nat.le_trans
  pure h table table' halike hsize := .ok (Nat.le_refl _) hsize halike h
  throw _ _ _ _ _ := .error
  bind {α β size x y P next next' Q} h hnext table table' halike hsize := by
    have h := h table table' halike hsize
    change TypeM.Agree size Q (x table >>= fun r => next r.1 r.2) (y table' >>= fun r => next' r.1 r.2)
    generalize x table = first, y table' = first' at h
    cases h with
    | error => exact .error
    | @ok later a b table table' hle hlater halike hP =>
      have hnext : TypeM.Agree later Q (next a table) (next' b table') :=
        hnext later a b hle hP table table' halike hlater
      change TypeM.Agree size Q (next a table) (next' b table')
      generalize next a table = second, next' b table' = second' at hnext
      cases hnext with
      | error => exact .error
      | ok hle' hlater halike hQ => exact .ok (Nat.le_trans hle hle') hlater halike hQ
  nameless {α size step} h table table' halike hsize := by
    obtain ⟨outcome, -, hstep⟩ := h
    rw [hstep, hstep, ← halike.native_eq]
    cases outcome table.native with
    | error e => exact .error
    | ok r => exact .ok (Nat.le_refl _) hsize (halike.note r.2) rfl

namespace TypeM

variable {size : ℕ} {build build' : TypeScopeId → Node → TypeM FieldType} {scope : TypeScopeId}

/-- Specifiers that are rearranged, in the same scope. -/
structure Moved (size : ℕ) (scope scope' : TypeScopeId) (specifiers specifiers' : Node) : Prop where
  scope_eq : scope = scope'
  like : specifiers.Rearranged specifiers'
  kind_eq : specifiers.kind = .typeSpecifierList
  scope_lt : scope < size

/-- Bodies that are rearranged and have been opened as the same scope. -/
structure MovedBody (size : ℕ) (scope scope' : TypeScopeId) (body body' : Node) : Prop where
  scope_eq : scope = scope'
  like : body.Rearranged body'
  scope_lt : scope < size

/-- What is done with a table is done with all of its scopes known. -/
lemma together_get_bind {α : Type} {next next' : TypeTable → TypeM α} {P : ℕ → α → α → Prop}
    (h : ∀ table table', table.Alike table' → size ≤ table.scopes.size →
      Agree table.scopes.size P (next table table) (next' table' table')) :
    Comparison.together.Holds size (get >>= next) (get >>= next') P := by
  intro table table' halike hsize
  have h := h table table' halike hsize
  change Agree size P (next table table) (next' table' table')
  generalize next table table = outcome, next' table' table' = outcome' at h
  cases h with
  | error => exact .error
  | ok hle hlater halike hP => exact .ok (Nat.le_trans hsize hle) hlater halike hP

/-- Setting like entries. -/
lemma together_setEntry (home : TypeScopeId) (name : String) {entry entry' : TypeEntry}
    (hentry : entry.Like entry') :
    Comparison.together.Holds size (modify fun table => table.setEntry home name entry)
      (modify fun table => table.setEntry home name entry') fun _ _ _ => True :=
  fun table _ halike hsize =>
    .ok (Nat.le_refl _) ((TypeTable.size_setEntry table home name entry).symm ▸ hsize)
    (halike.setEntry home name hentry) trivial

/-- A name stands for the same type, or for none in both tables. -/
lemma together_resolveNamed
    (hbuild : ∀ later scope specifiers specifiers', Moved later scope scope specifiers specifiers' →
      Comparison.together.Same later (build scope specifiers) (build' scope specifiers')) (name : String) :
    Comparison.together.Same size (resolveNamed build scope name) (resolveNamed build' scope name) := by
  unfold resolveNamed
  refine together_get_bind fun table table' halike hsize => ?_
  have hnearest := halike.nearest? scope name
  have hlookup {home : TypeScopeId} {entry : TypeEntry}
      (h : table.nearest? scope name = some (home, entry)) : home < table.scopes.size :=
    TypeTable.lt_size_of_lookup? (TypeTable.lookup?_of_nearest? h)
  generalize table.nearest? scope name = found, table'.nearest? scope name = found' at hnearest hlookup
  cases hnearest with
  | none => exact .error
  | @some found found' hfound =>
    obtain ⟨home, entry⟩ := found
    obtain ⟨_, entry'⟩ := found'
    obtain ⟨rfl, hlike⟩ := hfound
    have hhome := hlookup rfl
    cases hlike with
    | inProgress => exact .error
    | built t => exact .ok (Nat.le_refl _) (Nat.le_refl _) halike rfl
    | @pending source source' hsource hkind =>
      refine (Comparison.together.bind (together_setEntry home name .inProgress)
        fun later _ _ hlater _ => ?_) table table' halike (Nat.le_refl _)
      have hmoved : Moved later home home source.specifiers source'.specifiers :=
        ⟨rfl, hsource.specifiers, hkind, Nat.lt_of_lt_of_le hhome hlater⟩
      refine Comparison.together.bind
        (Comparison.buildType .ofRearranged (hbuild later home _ _ hmoved) hsource.declarator)
        fun last t t' _ heq => ?_
      subst heq
      exact Comparison.together.bind (together_setEntry home name (.built t))
        fun _ _ _ _ _ => Comparison.together.pure rfl

lemma together_resolveAll
    (hbuild : ∀ later scope specifiers specifiers', Moved later scope scope specifiers specifiers' →
      Comparison.together.Same later (build scope specifiers) (build' scope specifiers'))
    (scope : TypeScopeId) :
    Comparison.together.Same size (resolveAll (resolveNamed build) scope)
      (resolveAll (resolveNamed build') scope) := by
  unfold resolveAll
  refine together_get_bind fun table table' halike hsize => ?_
  rw [halike.names_eq scope]
  have hnames : Comparison.together.Same table.scopes.size
      ((table'.names scope).forM fun name => do let _ ← resolveNamed build scope name)
      ((table'.names scope).forM fun name => do let _ ← resolveNamed build' scope name) :=
    Comparison.forM_resolve _ fun _ name _ => together_resolveNamed hbuild name
  exact hnames table table' halike (Nat.le_refl _)

lemma exists_openBody {body body' : Node} {table table' after : TypeTable} {outer : TypeScopeId}
    (hlike : body.Rearranged body') (halike : table.Alike table') (hscope : outer < table.scopes.size)
    (h : Comparison.openBody outer body table = .ok (scope, after)) :
    ∃ after', Comparison.openBody outer body' table' = .ok (scope, after') ∧ after.Alike after' := by
  obtain ⟨rfl, declared, hdeclared, hnodup, rfl⟩ := Comparison.openBody_eq_ok_iff.mp h
  have hfresh (name : String) : (table.opened outer).lookup? table.scopes.size name = none := by
    rw [TypeTable.lookup?_opened, TypeTable.lookup?_eq_none _ _ _ (Nat.le_refl _)]
  obtain ⟨declared', hdeclared', hnodup', hentered⟩ :=
    (halike.opened hscope).exists_entered (by simp) hfresh hlike hdeclared hnodup
  refine ⟨_, Comparison.openBody_eq_ok_iff.mpr ⟨halike.size_eq, declared', hdeclared', hnodup', rfl⟩, ?_⟩
  rwa [← halike.size_eq]

/-- Rearranged bodies are opened together. -/
lemma together_openBody {body body' : Node} (hlike : body.Rearranged body') (hscope : scope < size) :
    Comparison.together.Holds size (Comparison.openBody scope body) (Comparison.openBody scope body')
      fun later t t' => MovedBody later t t' body body' := by
  intro table table' halike hsize
  have hlt := Nat.lt_of_lt_of_le hscope hsize
  cases hopen : Comparison.openBody scope body table with
  | ok r =>
    obtain ⟨opened, after⟩ := r
    obtain ⟨after', hopen', hafter⟩ := exists_openBody hlike halike hlt hopen
    obtain ⟨rfl, declared, -, -, rfl⟩ := Comparison.openBody_eq_ok_iff.mp hopen
    rw [hopen']
    exact .ok (Nat.le_succ_of_le hsize) (by simp) hafter ⟨rfl, hlike, Nat.lt_succ_self _⟩
  | error e =>
    cases hopen' : Comparison.openBody scope body' table' with
    | error e' => exact .error
    | ok r =>
      obtain ⟨after, hafter, -⟩ :=
        exists_openBody hlike.symm halike.symm (halike.size_eq ▸ hlt) hopen'
      rw [hopen] at hafter
      cases hafter

/-! ## All types -/

lemma grounds_together
    (hbuild : ∀ later scope specifiers specifiers', Moved later scope scope specifiers specifiers' →
      Comparison.together.Same later (build scope specifiers) (build' scope specifiers')) :
    Comparison.Grounds Comparison.together Node.Rearranged (resolveNamed build) (resolveNamed build')
      build build' Moved Moved MovedBody where
  like := .ofRearranged
  outer_like h := ⟨h.like, h.kind_eq⟩
  outer_later hlater h := { h with scope_lt := Nat.lt_of_lt_of_le h.scope_lt hlater }
  inside_later hlater h := { h with scope_lt := Nat.lt_of_lt_of_le h.scope_lt hlater }
  built := by
    rintro size s s' n n' ⟨rfl, hlike, hkind, hscope⟩
    exact hbuild size s n n' ⟨rfl, hlike, hkind, hscope⟩
  resolved := by
    rintro size s s' n n' name ⟨rfl, -, -, -⟩ -
    exact together_resolveNamed hbuild name
  resolvedAll := by
    rintro size s s' b b' ⟨rfl, -, -⟩
    exact together_resolveAll hbuild s
  known := by
    rintro size s s' n n' name t ⟨rfl, -, -, -⟩ - table table' halike hsize
    have hentry := halike.entry s name
    change Agree size _ (.ok ((), if (table.lookup? s name).isSome then table else _))
      (.ok ((), if (table'.lookup? s name).isSome then table' else _))
    generalize table.lookup? s name = entry, table'.lookup? s name = entry' at hentry
    cases hentry with
    | none =>
      have hsize' := Nat.le_trans hsize (Nat.le_of_eq (TypeTable.size_setEntry table s name (.built t)).symm)
      exact .ok (Nat.le_refl _) hsize' (halike.setEntry s name (.built t)) rfl
    | some _ => exact .ok (Nat.le_refl _) hsize halike rfl
  container := by
    rintro size s s' n n' c c' ⟨rfl, -, -, hscope⟩ hc - hlike
    exact ⟨rfl, hlike, hc.kind_eq, hscope⟩
  body := by
    rintro size s s' n n' b b' ⟨rfl, -, -, hscope⟩ - - hlike
    exact together_openBody hlike hscope
  member := by
    rintro size s s' b b' m m' ⟨rfl, -, hscope⟩ hm - hlike
    exact ⟨rfl, hlike, hm.kind_eq, hscope⟩

/-- **Rearranged specifiers are built together.** -/
theorem together_buildSpecifiers (depth : ℕ) {specifiers specifiers' : Node}
    (h : Moved size scope scope specifiers specifiers') :
    Comparison.together.Same size (buildSpecifiers depth scope specifiers)
      (buildSpecifiers depth scope specifiers') := by
  induction depth generalizing size scope specifiers specifiers' with
  | zero =>
    intro table table' _ _
    change Agree size _ (.error .chainTooLong) (.error .chainTooLong)
    exact .error
  | succ depth ih =>
    have G : Comparison.Grounds Comparison.together Node.Rearranged (resolveNamed (buildSpecifiers depth))
        (resolveNamed (buildSpecifiers depth)) (buildSpecifiers depth) (buildSpecifiers depth) Moved Moved
        MovedBody := grounds_together fun _ _ _ _ h => ih h
    exact G.interpret h

end TypeM

/-! ## The whole tree -/

namespace BlockM

open Comparison

lemma readEntered_together {root root' : Node} (hlike : root.Rearranged root') (depth : ℕ)
    {table table' : TypeTable} (halike : table.Alike table') (hsize : 1 ≤ table.scopes.size)
    (passed : List Warning) :
    TypeM.Agree 1 (fun _ read read' => read = read')
      (readEnteredWithin depth root passed table)
      (readEnteredWithin depth root' passed table') := by
  have hV : KeptByWarnings Eq := by
    rintro passed _ warning rfl
    rfl
  have G : Grounds together Node.Rearranged (TypeM.resolveNamed (TypeM.buildSpecifiers depth))
      (TypeM.resolveNamed (TypeM.buildSpecifiers depth)) (TypeM.buildSpecifiers depth)
      (TypeM.buildSpecifiers depth) TypeM.Moved TypeM.Moved TypeM.MovedBody :=
    TypeM.grounds_together fun _ _ _ _ h => TypeM.together_buildSpecifiers depth h
  have hread : together.SameBlock Eq (1 : ℕ) (readEnteredWithin depth root)
      (readEnteredWithin depth root') := by
    refine G.readEntered hV hlike ⟨rfl, hlike, Nat.one_pos⟩ ?_
    rintro later node node' hinside hnode - - -
    exact TypeM.together_openBody hnode hinside.scope_lt
  have hsame := weaken (hread passed passed rfl)
    (fun _ read read' _ heq => (Prod.ext heq.1 heq.2 : read = read'))
  exact hsame table table' halike hsize

lemma exists_enterAll {root root' : Node} (hlike : root.Rearranged root') {native : ByteOrder}
    {table : TypeTable}
    (h : TypeM.enterAll TypeTable.rootScope root.children (.empty native) = .ok ((), table)) :
    ∃ table', TypeM.enterAll TypeTable.rootScope root'.children (.empty native) = .ok ((), table') ∧
      table.Alike table' ∧ 1 ≤ table.scopes.size := by
  have hscope : TypeTable.rootScope < (TypeTable.empty native).scopes.size := Nat.one_pos
  have hfresh := TypeTable.lookup?_empty native TypeTable.rootScope
  obtain ⟨declared, hdeclared, hnodup, rfl⟩ := (TypeM.enterAll_eq_ok_iff_of_fresh hscope hfresh).mp h
  obtain ⟨declared', hdeclared', hnodup', halike⟩ :=
    (TypeTable.Alike.empty native).exists_entered hscope hfresh hlike hdeclared hnodup
  refine ⟨_, (TypeM.enterAll_eq_ok_iff_of_fresh hscope hfresh).mpr
    ⟨declared', hdeclared', hnodup', rfl⟩, halike, ?_⟩
  rw [TypeTable.size_entered]
  exact hscope

/-- **Rearranged trees are read together.** -/
theorem readAll_together {root root' : Node} (hlike : root.Rearranged root') (depth : ℕ)
    (native : ByteOrder) (passed : List Warning) :
    TypeM.Agree 1 (fun _ read read' => read = read')
      (readAllWithin depth root passed (.empty native))
      (readAllWithin depth root' passed (.empty native)) := by
  rw [readAllWithin_apply, readAllWithin_apply]
  cases henter : TypeM.enterAll TypeTable.rootScope root.children (.empty native) with
  | ok r =>
    obtain ⟨⟨⟩, table⟩ := r
    obtain ⟨table', henter', halike, hsize⟩ := exists_enterAll hlike henter
    rw [henter']
    exact readEntered_together hlike depth halike hsize passed
  | error e =>
    cases henter' : TypeM.enterAll TypeTable.rootScope root'.children (.empty native) with
    | error e' => exact .error
    | ok r =>
      obtain ⟨table, hother, -⟩ := exists_enterAll hlike.symm henter'
      rw [henter] at hother
      cases hother

end BlockM

namespace Metadata

variable {root root' : Node}

lemma traceByteOrder?_eq (h : root.Rearranged root') : traceByteOrder? root = traceByteOrder? root' := by
  have hfirst {nodes nodes' : List Node} (h : List.Forall₂ Node.Rearranged nodes nodes') :
      firstByteOrder? nodes = firstByteOrder? nodes' := by
    induction h with
    | nil => rfl
    | cons hnode _ ih =>
      rw [firstByteOrder?, firstByteOrder?]
      rcases Assignment.alike_ofNode .ofRearranged hnode with ⟨e, he, he'⟩ | ⟨a, a', ha, ha', hsame⟩
      · rw [he, he']
        rfl
      · have hknown {α : Type} (a : Assignment) (next : Assignment → Except SchemaError α) :
            Except.ok a >>= next = next a := rfl
        rw [ha, ha', hknown, hknown, hsame.key_eq, hsame.string_eq, ih]
  unfold traceByteOrder?
  rcases h.child? (show NodeKind.trace.isDefinition = false from rfl) with
    ⟨hnone, hnone'⟩ | ⟨trace, trace', hsome, hsome', hsame⟩
  · rw [hnone, hnone']
  · rw [hsome, hsome']
    exact hfirst (hsame.childrenOf rfl)

/-- What is read together makes the same metadata. -/
lemma ofRead_eq_ok_iff {size : ℕ} {byteOrder : ByteOrder} {metadata : Metadata}
    {x y : Except SchemaError ((Blocks × List Warning) × TypeTable)}
    (h : TypeM.Agree size (fun _ read read' => read = read') x y) :
    (x >>= ofRead byteOrder) = .ok metadata ↔ (y >>= ofRead byteOrder) = .ok metadata := by
  cases h with
  | error => exact ⟨nofun, nofun⟩
  | @ok _ read _ table table' _ _ halike heq =>
    subst heq
    have hsame : ofRead byteOrder (read, table) = ofRead byteOrder (read, table') := by
      rw [ofRead, ofRead, halike.clocks_eq, halike.warnings_eq]
    exact Iff.of_eq (congrArg (· = _) hsame)

/-- **It does not matter where definitions stand.**  A rearranged tree is accepted if the tree is, and it
describes the same metadata. -/
theorem ofTree_rearranged (h : root.Rearranged root') (metadata : Metadata) :
    ofTree root = .ok metadata ↔ ofTree root' = .ok metadata := by
  rw [← ofTreeWithin_eq_ofTree (Nat.le_max_left root.weight root'.weight),
    ← ofTreeWithin_eq_ofTree (Nat.le_max_right root.weight root'.weight)]
  generalize max root.weight root'.weight = depth
  by_cases hkind : root.kind = .root
  · rw [ofTreeWithin_of_kind_eq hkind, ofTreeWithin_of_kind_eq (h.kind_eq ▸ hkind),
      traceByteOrder?_eq h]
    cases traceByteOrder? root' with
    | error e => exact Iff.rfl
    | ok declared => exact ofRead_eq_ok_iff (BlockM.readAll_together h depth _ _)
  · rw [ofTreeWithin_of_kind_ne hkind, ofTreeWithin_of_kind_ne (h.kind_eq ▸ hkind)]

end Metadata

/-! ## Definitions behind their uses -/

open Node in
/-- A name for an integer of a number of bits. -/
def integerAlias (name width : String) : Node :=
  block .typeAlias
    [block .typeAliasTarget [block .typeSpecifierList [integer width]],
      block .typeAliasAlias [block .typeSpecifierList [word .typeName name]]]

open Node in
/-- Two members of types that are referred to by their names. -/
def namedMembers : List Node :=
  [member (word .typeName "count_t") "count" [], member (word .typeName "index_t") "index" []]

open Node in
/-- An event whose fields have the given body. -/
def eventOf (body : List Node) : Node :=
  block .event [value "name" (word .unaryString "e"), type "fields" (struct body)]

/-- A tree with a definition beside an event, and another in its fields. -/
def definitionsFirst : Node :=
  .block .root [integerAlias "count_t" "8", eventOf (integerAlias "index_t" "16" :: namedMembers)]

/-- The same tree with the definitions behind their uses. -/
def definitionsLast : Node :=
  .block .root [eventOf (namedMembers ++ [integerAlias "index_t" "16"]), integerAlias "count_t" "8"]

lemma eventOf_rearranged {body body' : List Node}
    (h : (Node.block .structBody body).Rearranged (.block .structBody body')) :
    (eventOf body).Rearranged (eventOf body') := by
  have hspecifiers : (Node.block .typeSpecifierList [Node.struct body]).Rearranged
      (.block .typeSpecifierList [Node.struct body']) :=
    .inOrder (.cons (.inOrder (.cons h .nil)) .nil)
  have hfields :
      (Node.type "fields" (Node.struct body)).Rearranged (Node.type "fields" (Node.struct body')) :=
    .inOrder (.cons (.refl _) (.cons (.inOrder (.cons hspecifiers .nil)) .nil))
  exact .inOrder (.cons (.refl _) (.cons hfields .nil))

lemma definitionsFirst_rearranged : definitionsFirst.Rearranged definitionsLast := by
  have hbody : (Node.block .structBody (integerAlias "index_t" "16" :: namedMembers)).Rearranged
      (.block .structBody (namedMembers ++ [integerAlias "index_t" "16"])) :=
    .scope rfl (List.forall₂_same.mpr fun node _ => .refl node) (.refl _)
      (List.forall₂_same.mpr fun node _ => .refl node)
  exact .scope rfl (.cons (eventOf_rearranged hbody) .nil) (.refl _)
    (List.forall₂_same.mpr fun node _ => .refl node)

theorem ofTree_rearranged_definitionsLast : (Metadata.ofTree definitionsLast).isOk = true ∧
    ∀ metadata, Metadata.ofTree definitionsFirst = .ok metadata ↔
      Metadata.ofTree definitionsLast = .ok metadata :=
  ⟨by decide +kernel, Metadata.ofTree_rearranged definitionsFirst_rearranged⟩

end CommonTrace
