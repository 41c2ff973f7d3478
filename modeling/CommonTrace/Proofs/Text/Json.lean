import CommonTrace.Text.Json
import Mathlib.Data.Int.Notation
import Mathlib.Data.List.Nodup

/-!
# Members of objects

An object keeps one value for each name.  So nothing is lost of members with distinct names
(`Json.ofMembers_eq`), but of two members with the same name one is.

In the list of its members an object has an order, which means nothing.  `Json.Same` is the equality of JSON
values apart from it.
-/

namespace CommonTrace

namespace Json

variable {members before : List (String × Json)} {name : String} {j : Json}

/-! ## Members by name -/

/-- The member of an object with the given name. -/
def member? (j : Json) (name : String) : Option Json :=
  match j with
  | .object members => members.lookup name
  | _ => none

lemma exists_mem_of_name (h : name ∈ members.map Prod.fst) : ∃ j, (name, j) ∈ members := by
  obtain ⟨⟨_, j⟩, hmem, rfl⟩ := List.mem_map.mp h
  exact ⟨j, hmem⟩

/-- Where names are distinct, a member is found by its name. -/
lemma lookup_eq_some_of_mem (hnodup : (members.map Prod.fst).Nodup) (hmem : (name, j) ∈ members) :
    members.lookup name = some j := by
  induction members with
  | nil => cases hmem
  | cons first rest ih =>
    obtain ⟨other, k⟩ := first
    rw [List.map_cons, List.nodup_cons] at hnodup
    rcases List.mem_cons.mp hmem with heq | hrest
    · cases heq
      simp
    · have hne : name ≠ other := fun heq => hnodup.1 (List.mem_map.mpr ⟨_, hrest, heq⟩)
      rw [List.lookup_cons, beq_false_of_ne hne]
      exact ih hnodup.2 hrest

/-! ## Building objects -/

lemma setMember_of_notMem (h : name ∉ before.map Prod.fst) :
    setMember before name j = before ++ [(name, j)] := by
  induction before with
  | nil => rfl
  | cons first rest ih =>
    rw [List.map_cons, List.mem_cons, not_or] at h
    rw [setMember, if_neg (Ne.symm h.1), ih h.2, List.cons_append]

lemma foldl_setMember (h : ((before ++ members).map Prod.fst).Nodup) :
    members.foldl (fun object (name, value) => setMember object name value) before = before ++ members := by
  induction members generalizing before with
  | nil => rw [List.foldl_nil, List.append_nil]
  | cons first rest ih =>
    obtain ⟨name, j⟩ := first
    have hfirst : name ∉ before.map Prod.fst := by
      rw [List.map_append, List.map_cons] at h
      exact fun hmem => (List.nodup_append.mp h).2.2 name hmem name List.mem_cons_self rfl
    rw [List.append_cons] at h
    rw [List.foldl_cons]
    dsimp only
    rw [setMember_of_notMem hfirst, ih h, ← List.append_cons]

/-- **Members with distinct names are all kept**, in their order. -/
lemma ofMembers_eq (h : (members.map Prod.fst).Nodup) : ofMembers members = .object members :=
  congrArg Json.object (foldl_setMember h)

/-! ## Equality -/

/-- **Equal JSON values.**  The members of equal objects have the same names and under each name equal values, but
they may stand in different orders. -/
inductive Same : Json → Json → Prop
  | null : Same .null .null
  | bool (b : Bool) : Same (.bool b) (.bool b)
  | integer (n : ℤ) : Same (.integer n) (.integer n)
  | float (x : Binary64) : Same (.float x) (.float x)
  | string (s : String) : Same (.string s) (.string s)
  | array {js ks : List Json} (length_eq : js.length = ks.length)
      (each : ∀ (i : ℕ) (j k : Json), js[i]? = some j → ks[i]? = some k → Same j k) : Same (.array js) (.array ks)
  | object {ms ns : List (String × Json)}
      (names : ∀ name, (ms.lookup name).isSome = (ns.lookup name).isSome)
      (each : ∀ name j k, ms.lookup name = some j → ns.lookup name = some k → Same j k) :
      Same (.object ms) (.object ns)

namespace Same

variable {k : Json} {selection selection' : String}

/-- A value equals itself. -/
theorem refl (j : Json) : Same j j := by
  match j with
  | .null => exact .null
  | .bool b => exact .bool b
  | .integer n => exact .integer n
  | .float x => exact .float x
  | .string s => exact .string s
  | .array js =>
    refine .array rfl fun i j k hj hk => ?_
    obtain rfl := Option.some.inj (hj.symm.trans hk)
    have hlt : sizeOf j < sizeOf js := List.sizeOf_lt_of_mem (List.mem_of_getElem? hj)
    exact refl j
  | .object ms =>
    refine .object (fun _ => rfl) fun name j k hj hk => ?_
    obtain rfl := Option.some.inj (hj.symm.trans hk)
    have hlt : sizeOf j < sizeOf ms := by
      obtain ⟨before, after, rfl, -⟩ := List.lookup_eq_some_iff.mp hj
      have hmem : (name, j) ∈ before ++ (name, j) :: after := List.mem_append_right _ List.mem_cons_self
      have hpair : sizeOf (name, j) = 1 + sizeOf name + sizeOf j := rfl
      have hlist := List.sizeOf_lt_of_mem hmem
      omega
    exact refl j

lemma of_integer {m n : ℤ} (h : Same (.integer m) (.integer n)) : m = n := by
  cases h
  rfl

lemma of_string {s s' : String} (h : Same (.string s) (.string s')) : s = s' := by
  cases h
  rfl

/-- In equal objects with distinct names, the values under the same name are equal. -/
lemma of_mem {ms ns : List (String × Json)} (h : Same (.object ms) (.object ns))
    (hms : (ms.map Prod.fst).Nodup) (hns : (ns.map Prod.fst).Nodup) (hj : (name, j) ∈ ms)
    (hk : (name, k) ∈ ns) : Same j k := by
  cases h with
  | object _ each => exact each name j k (lookup_eq_some_of_mem hms hj) (lookup_eq_some_of_mem hns hk)

/-- Equal objects with one member each. -/
lemma of_singleton (h : Same (.object [(selection, j)]) (.object [(selection', k)])) :
    selection = selection' ∧ Same j k := by
  cases h with
  | object names each =>
    obtain rfl : selection = selection' := by
      by_contra hne
      have hnames := names selection
      rw [List.lookup_cons_self, List.lookup_cons, beq_false_of_ne hne] at hnames
      cases hnames
    exact ⟨rfl, each selection j k List.lookup_cons_self List.lookup_cons_self⟩

lemma of_optional {s s' : Option String} (h : Same (.optional .string s) (.optional .string s')) : s = s' := by
  cases s <;> cases s' <;> cases h <;> rfl

end Same

end Json

end CommonTrace
