import Mathlib.Data.List.Basic
import Mathlib.Tactic.Lemma

/-!
# Merging queues of results

Several queues of results are merged into one sequence.  A queue is a list whose elements are values
or errors.  An error that has come to the head of a queue goes out before any value; otherwise the
head with the least key does.  Of several errors, and of several values with the same key, that of
the first queue goes out.  `Queue.Takes` is one step of this and `Queue.Merges` the whole of it: each
result goes out with the number of its queue.

What goes out is determined by the queues (`Queue.Merges.unique`), and it has three properties that
are proved separately because each is carried by an induction of its own.  Every queue is found
again in the results with its number, all of it and in its order (`Queue.Merges.results_eq`).  No
error is held up: from the result before it in its queue on, nothing but errors goes out
(`Queue.Merges.prompt`).  If the keys of each queue do not decrease, then neither do those of the
values that go out, and of values with the same key the one with the lower number comes first
(`Queue.Merges.ordered`).

Merging goes along with leaving out values (`Queue.Merges.filter`): if the keys of each queue do not
decrease and there are no errors, it makes no difference whether values are left out before or after
the queues are merged.
-/

namespace CommonTrace

/-- Results that wait for their turn. -/
abbrev Queue (ε α : Type) := List (Except ε α)

namespace Queue

variable {ε α : Type} {key : α → ℕ}

/-! ## Steps -/

/-- **One result goes out.**  `Takes key qs item qs'`: from the queues `qs` the result `item`, which
carries the number of its queue, goes out next, and leaves `qs'`. -/
inductive Takes (key : α → ℕ) : List (Queue ε α) → Except ε α × ℕ → List (Queue ε α) → Prop
  /-- The first error at the head of a queue. -/
  | error {qs : List (Queue ε α)} {i : ℕ} {e : ε} {rest : Queue ε α}
      (head : qs[i]? = some (.error e :: rest))
      (first : ∀ j < i, ∀ (e' : ε) (q : Queue ε α), qs[j]? ≠ some (.error e' :: q)) :
      Takes key qs (.error e, i) (qs.set i rest)
  /-- The first of the values with the least key, where no queue has an error at its head. -/
  | value {qs : List (Queue ε α)} {i : ℕ} {a : α} {rest : Queue ε α}
      (head : qs[i]? = some (.ok a :: rest))
      (clear : ∀ (j : ℕ) (e : ε) (q : Queue ε α), qs[j]? ≠ some (.error e :: q))
      (least : ∀ (j : ℕ) (b : α) (q : Queue ε α), qs[j]? = some (.ok b :: q) →
        key a < key b ∨ key a = key b ∧ i ≤ j) :
      Takes key qs (.ok a, i) (qs.set i rest)

/-- **All results go out.**  `Merges key qs items`: from the queues `qs` the results `items` go out
one after the other, and then nothing is left. -/
inductive Merges (key : α → ℕ) : List (Queue ε α) → List (Except ε α × ℕ) → Prop
  | done {qs : List (Queue ε α)} (empty : ∀ q ∈ qs, q = []) : Merges key qs []
  | step {qs qs' : List (Queue ε α)} {item : Except ε α × ℕ} {items : List (Except ε α × ℕ)}
      (takes : Takes key qs item qs') (rest : Merges key qs' items) : Merges key qs (item :: items)

variable {qs qs' : List (Queue ε α)} {item : Except ε α × ℕ} {items : List (Except ε α × ℕ)}

/-- Whatever goes out was at the head of its queue, and it is missing there behind. -/
lemma Takes.pop (h : Takes key qs item qs') :
    ∃ rest, qs[item.2]? = some (item.1 :: rest) ∧ qs' = qs.set item.2 rest := by
  cases h with
  | error head => exact ⟨_, head, rfl⟩
  | value head => exact ⟨_, head, rfl⟩

lemma Takes.lt_length (h : Takes key qs item qs') : item.2 < qs.length := by
  obtain ⟨rest, hhead, -⟩ := h.pop
  exact (List.getElem?_eq_some_iff.mp hhead).1

/-- The queue of a result that goes out has had it at its head. -/
lemma Takes.getElem?_self (h : Takes key qs item qs') {q : Queue ε α}
    (hq : qs'[item.2]? = some q) : qs[item.2]? = some (item.1 :: q) := by
  obtain ⟨rest, hhead, rfl⟩ := h.pop
  rw [List.getElem?_set_self h.lt_length] at hq
  obtain rfl : rest = q := Option.some.inj hq
  exact hhead

lemma Takes.getElem?_of_ne (h : Takes key qs item qs') {i : ℕ} (hi : item.2 ≠ i) :
    qs'[i]? = qs[i]? := by
  obtain ⟨rest, -, rfl⟩ := h.pop
  exact List.getElem?_set_ne hi

lemma Takes.length_eq (h : Takes key qs item qs') : qs'.length = qs.length := by
  obtain ⟨rest, -, rfl⟩ := h.pop
  exact List.length_set

/-- The number of results in all queues. -/
def size (qs : List (Queue ε α)) : ℕ :=
  qs.flatten.length

/-- One result less is left. -/
lemma Takes.size_eq (h : Takes key qs item qs') : size qs = size qs' + 1 := by
  obtain ⟨rest, hhead, rfl⟩ := h.pop
  obtain ⟨hlt, hget⟩ := List.getElem?_eq_some_iff.mp hhead
  have hsplit : qs = qs.take item.2 ++ (item.1 :: rest) :: qs.drop (item.2 + 1) := by
    rw [← hget, List.getElem_cons_drop, List.take_append_drop]
  rw [List.set_eq_take_append_cons_drop, if_pos hlt]
  conv_lhs => rw [hsplit]
  simp only [size, List.flatten_append, List.flatten_cons, List.length_append, List.length_cons]
  omega

/-- A value goes out only if no queue has an error at its head. -/
lemma Takes.clear {a : α} {i : ℕ} (h : Takes key qs (.ok a, i) qs') (j : ℕ) (e : ε)
    (q : Queue ε α) : qs[j]? ≠ some (.error e :: q) := by
  cases h with
  | value _ clear => exact clear j e q

lemma Takes.least {a : α} {i : ℕ} (h : Takes key qs (.ok a, i) qs') {j : ℕ} {b : α}
    {q : Queue ε α} (hb : qs[j]? = some (.ok b :: q)) : key a < key b ∨ key a = key b ∧ i ≤ j := by
  cases h with
  | value _ _ least => exact least j b q hb

/-- The queues determine what goes out next. -/
lemma Takes.unique {item' : Except ε α × ℕ} {qs'' : List (Queue ε α)}
    (h : Takes key qs item qs') (h' : Takes key qs item' qs'') : item = item' ∧ qs' = qs'' := by
  have hitem : item.2 = item'.2 := by
    cases h with
    | error head first =>
      cases h' with
      | error head' first' =>
        by_contra hne
        rcases Nat.lt_or_gt_of_ne hne with hlt | hlt
        · exact first' _ hlt _ _ head
        · exact first _ hlt _ _ head'
      | value head' clear' => exact absurd head (clear' _ _ _)
    | value head clear least =>
      cases h' with
      | error head' => exact absurd head' (clear _ _ _)
      | value head' clear' least' =>
        have hle := least _ _ _ head'
        have hle' := least' _ _ _ head
        dsimp only
        omega
  obtain ⟨rest, hhead, rfl⟩ := h.pop
  obtain ⟨rest', hhead', rfl⟩ := h'.pop
  rw [← hitem, hhead, Option.some.injEq, List.cons.injEq] at hhead'
  obtain ⟨hfst, rfl⟩ := hhead'
  exact ⟨Prod.ext hfst hitem, by rw [hitem]⟩

/-- The queues determine the results that go out. -/
theorem Merges.unique {items' : List (Except ε α × ℕ)} (h : Merges key qs items)
    (h' : Merges key qs items') : items = items' := by
  induction h generalizing items' with
  | done empty =>
    cases h' with
    | done => rfl
    | step takes' =>
      obtain ⟨rest, hhead, -⟩ := takes'.pop
      have hnil := empty _ (List.mem_of_getElem? hhead)
      exact absurd hnil (List.cons_ne_nil _ _)
  | step takes _ ih =>
    cases h' with
    | done empty' =>
      obtain ⟨rest, hhead, -⟩ := takes.pop
      have hnil := empty' _ (List.mem_of_getElem? hhead)
      exact absurd hnil (List.cons_ne_nil _ _)
    | step takes' rest' =>
      obtain ⟨rfl, rfl⟩ := takes.unique takes'
      rw [ih rest']

/-! ## Each queue on its own -/

/-- Of results that have gone out, those of one queue. -/
def resultsOf (i : ℕ) (items : List (Except ε α × ℕ)) : Queue ε α :=
  (items.filter (·.2 = i)).map Prod.fst

lemma resultsOf_cons_self (item : Except ε α × ℕ) (items : List (Except ε α × ℕ)) :
    resultsOf item.2 (item :: items) = item.1 :: resultsOf item.2 items := by
  simp [resultsOf]

lemma resultsOf_cons_of_ne {i : ℕ} (hi : item.2 ≠ i) (items : List (Except ε α × ℕ)) :
    resultsOf i (item :: items) = resultsOf i items := by
  simp [resultsOf, hi]

/-- **Nothing is lost, added or moved within a queue.** -/
theorem Merges.results_eq (h : Merges key qs items) {i : ℕ} {q : Queue ε α}
    (hq : qs[i]? = some q) : resultsOf i items = q := by
  induction h generalizing q with
  | done empty => exact (empty q (List.mem_of_getElem? hq)).symm
  | @step qs qs' item items takes _ ih =>
    by_cases hi : item.2 = i
    · subst hi
      obtain ⟨rest, hhead, -⟩ := takes.pop
      have hlt : item.2 < qs'.length := takes.length_eq ▸ takes.lt_length
      have hself := takes.getElem?_self (List.getElem?_eq_getElem hlt)
      rw [resultsOf_cons_self, ih (List.getElem?_eq_getElem hlt)]
      exact Option.some.inj (hself.symm.trans hq)
    · rw [resultsOf_cons_of_ne hi]
      exact ih ((takes.getElem?_of_ne hi).trans hq)

/-- Whatever goes out has the number of a queue. -/
theorem Merges.lt_length (h : Merges key qs items) : ∀ item ∈ items, item.2 < qs.length := by
  induction h with
  | done => exact List.forall_mem_nil _
  | step takes _ ih =>
    refine List.forall_mem_cons.mpr ⟨takes.lt_length, ?_⟩
    rw [← takes.length_eq]
    exact ih

/-- What goes out with a number is in the queue of that number. -/
lemma Merges.mem_queue (h : Merges key qs items) {result : Except ε α} {i : ℕ}
    (hmem : (result, i) ∈ items) : ∃ q, qs[i]? = some q ∧ result ∈ q := by
  have hlt : i < qs.length := h.lt_length _ hmem
  have hget : qs[i]? = some qs[i] := List.getElem?_eq_getElem hlt
  refine ⟨qs[i], hget, ?_⟩
  rw [← h.results_eq hget]
  exact List.mem_map.mpr ⟨_, List.mem_filter.mpr ⟨hmem, by simp⟩, rfl⟩

/-! ## Errors -/

/-- The results behind the first ones come from what those leave of the queues. -/
lemma Merges.of_append {before : List (Except ε α × ℕ)} (h : Merges key qs (before ++ items)) :
    ∃ qs', Merges key qs' items := by
  induction before generalizing qs with
  | nil => exact ⟨qs, h⟩
  | cons item before ih =>
    cases h with
    | step _ rest => exact ih rest

/-- No error is held up: between the last result before it of its own queue and the error itself
nothing but errors goes out. -/
def Prompt (items : List (Except ε α × ℕ)) : Prop :=
  ∀ before between after e i, items = before ++ (between ++ (.error e, i) :: after) →
    (∀ item ∈ between, item.2 ≠ i) → ∀ item ∈ between, ∃ e', item.1 = .error e'

/-- As long as the error at the head of a queue has not gone out, errors go out. -/
lemma Merges.error_of_head {between after : List (Except ε α × ℕ)} {e : ε} {i : ℕ}
    (h : Merges key qs (between ++ (.error e, i) :: after))
    (hbetween : ∀ item ∈ between, item.2 ≠ i) : ∀ item ∈ between, ∃ e', item.1 = .error e' := by
  induction between generalizing qs with
  | nil => exact List.forall_mem_nil _
  | cons item between ih =>
    obtain ⟨hitem, hothers⟩ := List.forall_mem_cons.mp hbetween
    have hlast : (.error e, i) ∈ item :: (between ++ (.error e, i) :: after) := by simp
    obtain ⟨q, hq, -⟩ := h.mem_queue hlast
    have hresults := h.results_eq hq
    cases h with
    | step takes rest =>
      refine List.forall_mem_cons.mpr ⟨?_, ih rest hothers⟩
      obtain ⟨result, j⟩ := item
      cases result with
      | error e' => exact ⟨e', rfl⟩
      | ok a =>
        have hhead : resultsOf i ((.ok a, j) :: (between ++ (.error e, i) :: after)) =
            .error e :: resultsOf i after := by
          have hnone : between.filter (·.2 = i) = [] :=
            List.filter_eq_nil_iff.mpr fun item hmem => by simpa using hothers item hmem
          rw [resultsOf_cons_of_ne hitem]
          simp [resultsOf, List.filter_append, hnone]
        rw [← hresults] at hq
        have hfirst := hq.trans (congrArg some hhead)
        exact absurd hfirst (takes.clear i e _)

theorem Merges.prompt (h : Merges key qs items) : Prompt items := by
  intro before between after e i hitems hbetween
  subst hitems
  obtain ⟨qs', h'⟩ := h.of_append
  exact h'.error_of_head hbetween

/-! ## Values -/

/-- The values among the results of a queue. -/
def values (q : Queue ε α) : List α :=
  q.filterMap Except.toOption

/-- The keys of the values of a queue do not decrease. -/
def Ascending (key : α → ℕ) (q : Queue ε α) : Prop :=
  (values q).Pairwise (key · ≤ key ·)

instance (q : Queue ε α) : Decidable (Ascending key q) :=
  inferInstanceAs (Decidable ((values q).Pairwise (key · ≤ key ·)))

lemma Ascending.tail {result : Except ε α} {q : Queue ε α} (h : Ascending key (result :: q)) :
    Ascending key q :=
  List.Pairwise.sublist ((List.sublist_cons_self result q).filterMap _) h

lemma Ascending.le {a b : α} {q : Queue ε α} (h : Ascending key (.ok a :: q)) (hb : .ok b ∈ q) :
    key a ≤ key b :=
  (List.pairwise_cons.mp h).1 b (List.mem_filterMap.mpr ⟨_, hb, rfl⟩)

lemma Takes.ascending (h : Takes key qs item qs') (hasc : ∀ q ∈ qs, Ascending key q) :
    ∀ q ∈ qs', Ascending key q := by
  intro q hq
  obtain ⟨i, hi⟩ := List.mem_iff_getElem?.mp hq
  by_cases hitem : item.2 = i
  · subst hitem
    have hbefore := hasc _ (List.mem_of_getElem? (h.getElem?_self hi))
    exact hbefore.tail
  · rw [h.getElem?_of_ne hitem] at hi
    exact hasc _ (List.mem_of_getElem? hi)

/-- A value that goes out comes before all other values in the queues, not only before those at the
heads. -/
lemma Takes.le_of_mem {a b : α} {i j : ℕ} {q : Queue ε α} (h : Takes key qs (.ok a, i) qs')
    (hasc : ∀ q ∈ qs, Ascending key q) (hq : qs[j]? = some q) (hb : .ok b ∈ q) :
    key a < key b ∨ key a = key b ∧ i ≤ j := by
  cases q with
  | nil => exact absurd hb List.not_mem_nil
  | cons result rest =>
    cases result with
    | error e => exact absurd hq (h.clear j e rest)
    | ok c =>
      have hleast := h.least hq
      have hcb : key c ≤ key b := by
        rcases List.mem_cons.mp hb with hbc | hrest
        · cases hbc
          exact Nat.le_refl _
        · have hqueue := hasc _ (List.mem_of_getElem? hq)
          exact hqueue.le hrest
      omega

/-- The values that have gone out, with the numbers of their queues. -/
def valuesOut (items : List (Except ε α × ℕ)) : List (α × ℕ) :=
  items.filterMap fun (result, i) => result.toOption.map (·, i)

lemma mem_of_mem_valuesOut {a : α} {i : ℕ} (h : (a, i) ∈ valuesOut items) :
    (.ok a, i) ∈ items := by
  obtain ⟨⟨result, j⟩, hmem, hout⟩ := List.mem_filterMap.mp h
  cases result with
  | error e => cases hout
  | ok b =>
    cases hout
    exact hmem

/-- The keys of the values that have gone out do not decrease, and with the same key the number of
the queue does not decrease. -/
def Ordered (key : α → ℕ) (items : List (Except ε α × ℕ)) : Prop :=
  (valuesOut items).Pairwise fun x y => key x.1 < key y.1 ∨ key x.1 = key y.1 ∧ x.2 ≤ y.2

theorem Merges.ordered (h : Merges key qs items) (hasc : ∀ q ∈ qs, Ascending key q) :
    Ordered key items := by
  induction h with
  | done => exact List.Pairwise.nil
  | @step qs qs' item items takes rest ih =>
    have hrest := ih (takes.ascending hasc)
    obtain ⟨result, i⟩ := item
    cases result with
    | error e => exact hrest
    | ok a =>
      refine List.pairwise_cons.mpr ⟨?_, hrest⟩
      rintro ⟨b, j⟩ hb
      obtain ⟨q, hq, hmem⟩ := rest.mem_queue (mem_of_mem_valuesOut hb)
      by_cases hij : i = j
      · subst hij
        have hbefore := takes.getElem?_self hq
        exact takes.le_of_mem hasc hbefore (List.mem_cons_of_mem _ hmem)
      · rw [takes.getElem?_of_ne hij] at hq
        exact takes.le_of_mem hasc hq hmem

/-! ## Leaving out values -/

/-- Whether a result stays if only the values with `p` do. -/
def keeps (p : α → Bool) : Except ε α → Bool
  | .ok a => p a
  | .error _ => true

/-- There are no errors in a queue. -/
def Clean (q : Queue ε α) : Prop :=
  ∀ e, .error e ∉ q

lemma clean_iff (q : Queue ε α) : Clean q ↔ ∀ result ∈ q, result.isOk = true := by
  constructor
  · intro h result hmem
    cases result with
    | error e => exact absurd hmem (h e)
    | ok a => rfl
  · intro h e he
    cases h _ he

instance (q : Queue ε α) : Decidable (Clean q) :=
  decidable_of_iff _ (clean_iff q).symm

lemma Takes.clean (h : Takes key qs item qs') (hclean : ∀ q ∈ qs, Clean q) :
    ∀ q ∈ qs', Clean q := by
  intro q hq e he
  obtain ⟨i, hi⟩ := List.mem_iff_getElem?.mp hq
  by_cases hitem : item.2 = i
  · subst hitem
    have hbefore := hclean _ (List.mem_of_getElem? (h.getElem?_self hi))
    exact hbefore e (List.mem_cons_of_mem _ he)
  · rw [h.getElem?_of_ne hitem] at hi
    exact hclean _ (List.mem_of_getElem? hi) e he

/-- A value that stays goes out of the queues without the others, too. -/
lemma Takes.filter {a : α} {i : ℕ} {p : α → Bool} (h : Takes key qs (.ok a, i) qs')
    (hasc : ∀ q ∈ qs, Ascending key q) (hclean : ∀ q ∈ qs, Clean q) (ha : p a = true) :
    Takes key (qs.map (List.filter (keeps p))) (.ok a, i) (qs'.map (List.filter (keeps p))) := by
  obtain ⟨rest, hhead, rfl⟩ := h.pop
  rw [List.map_set]
  -- What is in a queue without the others was in it before.
  have hback : ∀ {j : ℕ} {result : Except ε α} {q : Queue ε α},
      (qs.map (List.filter (keeps p)))[j]? = some (result :: q) →
        ∃ q₀, qs[j]? = some q₀ ∧ result ∈ q₀ := by
    intro j result q hj
    rw [List.getElem?_map] at hj
    obtain ⟨q₀, hq₀, hfilter⟩ := Option.map_eq_some_iff.mp hj
    have hmem : result ∈ q₀.filter (keeps p) := by
      rw [hfilter]
      exact List.mem_cons_self
    exact ⟨q₀, hq₀, (List.mem_filter.mp hmem).1⟩
  refine .value ?_ ?_ ?_
  · rw [List.getElem?_map, hhead]
    simp [keeps, ha]
  · intro j e q hj
    obtain ⟨q₀, hq₀, hmem⟩ := hback hj
    exact hclean q₀ (List.mem_of_getElem? hq₀) e hmem
  · intro j b q hj
    obtain ⟨q₀, hq₀, hmem⟩ := hback hj
    exact h.le_of_mem hasc hq₀ hmem

/-- A value that does not stay makes no difference to the queues without such values. -/
lemma Takes.map_filter_eq {a : α} {i : ℕ} {p : α → Bool} (h : Takes key qs (.ok a, i) qs')
    (ha : p a = false) :
    qs'.map (List.filter (keeps p)) = qs.map (List.filter (keeps p)) := by
  refine List.ext_getElem? fun j => ?_
  rw [List.getElem?_map, List.getElem?_map]
  by_cases hij : i = j
  · subst hij
    obtain ⟨rest, hhead, rfl⟩ := h.pop
    rw [hhead, List.getElem?_set_self h.lt_length]
    simp [keeps, ha]
  · rw [h.getElem?_of_ne hij]

/-- **Leaving out values before or after merging is the same** if there are no errors and the keys of
each queue do not decrease. -/
theorem Merges.filter (h : Merges key qs items) (p : α → Bool)
    (hasc : ∀ q ∈ qs, Ascending key q) (hclean : ∀ q ∈ qs, Clean q) :
    Merges key (qs.map (List.filter (keeps p))) (items.filter fun item => keeps p item.1) := by
  induction h with
  | done empty =>
    refine .done fun q hq => ?_
    obtain ⟨q₀, hq₀, rfl⟩ := List.mem_map.mp hq
    rw [empty q₀ hq₀]
    rfl
  | @step qs qs' item items takes rest ih =>
    have hrest := ih (takes.ascending hasc) (takes.clean hclean)
    obtain ⟨result, i⟩ := item
    cases result with
    | error e =>
      obtain ⟨q, hhead, -⟩ := takes.pop
      have hqueue := hclean _ (List.mem_of_getElem? hhead)
      exact absurd List.mem_cons_self (hqueue e)
    | ok a =>
      cases ha : p a with
      | true =>
        rw [List.filter_cons_of_pos (by simpa [keeps] using ha)]
        have htakes := takes.filter hasc hclean ha
        exact .step htakes hrest
      | false =>
        rw [List.filter_cons_of_neg (by simp [keeps, ha]), ← takes.map_filter_eq ha]
        exact hrest

/-! ## Skipping values -/

/-- A queue without the values before its head that have a key below `least`.  An error ends the
skipping. -/
def dropBelow (key : α → ℕ) (least : ℕ) (q : Queue ε α) : Queue ε α :=
  q.dropWhile fun
    | .ok a => key a < least
    | .error _ => false

variable {least : ℕ} {q : Queue ε α}

lemma dropBelow_ok_of_lt {a : α} (h : key a < least) :
    dropBelow key least (.ok a :: q) = dropBelow key least q := by
  simp [dropBelow, h]

lemma dropBelow_ok_of_le {a : α} (h : least ≤ key a) :
    dropBelow key least (.ok a :: q) = .ok a :: q := by
  simp [dropBelow, h]

lemma dropBelow_error (e : ε) : dropBelow key least (.error e :: q) = .error e :: q := by
  simp [dropBelow]

/-- Skipping leaves every value that is not below the key. -/
lemma mem_dropBelow {a : α} (hmem : .ok a ∈ q) (hle : least ≤ key a) :
    .ok a ∈ dropBelow key least q := by
  induction q with
  | nil => exact hmem
  | cons result rest ih =>
    cases result with
    | error e => rwa [dropBelow_error]
    | ok b =>
      by_cases hb : key b < least
      · rw [dropBelow_ok_of_lt hb]
        rcases List.mem_cons.mp hmem with hab | hrest
        · cases hab
          omega
        · exact ih hrest
      · rwa [dropBelow_ok_of_le (by omega)]

/-- Where keys do not decrease and there are no errors, skipping the values below a key at the start
leaves out all of them. -/
theorem dropBelow_eq_filter (hasc : Ascending key q) (hclean : Clean q) :
    dropBelow key least q = q.filter (keeps fun a => least ≤ key a) := by
  induction q with
  | nil => rfl
  | cons result rest ih =>
    have hrest : Clean rest := fun e he => hclean e (List.mem_cons_of_mem _ he)
    cases result with
    | error e => exact absurd List.mem_cons_self (hclean e)
    | ok a =>
      by_cases ha : key a < least
      · rw [dropBelow_ok_of_lt ha, ih hasc.tail hrest,
          List.filter_cons_of_neg (by simpa [keeps] using ha)]
      · have hall : ∀ result ∈ Except.ok a :: rest, keeps (fun b => decide (least ≤ key b)) result := by
          intro result hmem
          cases result with
          | error e => exact absurd hmem (hclean e)
          | ok b =>
            have hab : key a ≤ key b := by
              rcases List.mem_cons.mp hmem with hba | hb
              · cases hba
                exact Nat.le_refl _
              · exact hasc.le hb
            simp only [keeps, decide_eq_true_eq]
            omega
        rw [dropBelow_ok_of_le (by omega), List.filter_eq_self.mpr hall]

/-- **What survives the skipping.**  Where keys do not decrease, a value below the key is left if and
only if there is an error before it. -/
theorem mem_dropBelow_iff {a : α} (hasc : Ascending key q) (ha : key a < least) :
    .ok a ∈ dropBelow key least q ↔
      ∃ before e after, q = before ++ .error e :: after ∧ .ok a ∈ after := by
  constructor
  · intro hmem
    induction q with
    | nil => exact absurd hmem List.not_mem_nil
    | cons result rest ih =>
      cases result with
      | error e =>
        rw [dropBelow_error] at hmem
        refine ⟨[], e, rest, rfl, ?_⟩
        simpa using hmem
      | ok b =>
        by_cases hb : key b < least
        · rw [dropBelow_ok_of_lt hb] at hmem
          obtain ⟨before, e, after, rfl, hafter⟩ := ih hasc.tail hmem
          exact ⟨.ok b :: before, e, after, rfl, hafter⟩
        · rw [dropBelow_ok_of_le (by omega)] at hmem
          rcases List.mem_cons.mp hmem with hab | hrest
          · cases hab
            exact absurd ha hb
          · have := hasc.le hrest
            omega
  · rintro ⟨before, e, after, rfl, hafter⟩
    clear hasc
    induction before with
    | nil =>
      rw [List.nil_append, dropBelow_error]
      exact List.mem_cons_of_mem _ hafter
    | cons result before ih =>
      have hwhole : .ok a ∈ result :: (before ++ .error e :: after) := by simp [hafter]
      cases result with
      | error e' => rwa [List.cons_append, dropBelow_error]
      | ok b =>
        by_cases hb : key b < least
        · rwa [List.cons_append, dropBelow_ok_of_lt hb]
        · rwa [List.cons_append, dropBelow_ok_of_le (by omega)]

end Queue

end CommonTrace
