import CommonTrace.Name.FieldPath
import CommonTrace.Proofs.Name.StaticScope

/-!
# Texts of paths

A path is read from its text and from no other.  Two forms share one syntax.  An absolute path is written as
the path of its block with the names behind it, all joined by dots; a relative one as its steps up, each of
them `../`, with the names behind them.  The text of a relative path can look like that of an absolute one
only as far as a block is named, since no name of a path is empty: what ends with its block is relative.

* `FieldPath.ofString?_intercalate`: the text of an absolute path is read as that path, if every name is a
  *segment*, that is, neither empty nor with a dot in it.
* `FieldPath.eq_intercalate_of_ofString?`: a text that is read as an absolute path is its text.
* `FieldPath.ofString?_exact`: a text is read as the path whose text it is, or it has an empty name.
-/

namespace CommonTrace

/-- A name that can stand in a path. -/
structure IsSegment (name : String) : Prop where
  nonempty : name ≠ ""
  dotless : '.' ∉ name.toList

/-! ## Names -/

namespace FieldPath

variable {block : StaticScope} {anchor : Anchor} {names text : List Char} {head : String} {tail : List String}
  {path : FieldPath}

lemma of_ofNames? (h : ofNames? anchor names = some path) :
    path.anchor = anchor ∧ names = ['.'].intercalate (path.segments.map String.toList) := by
  unfold ofNames? at h
  dsimp only at h
  split at h
  · cases h
  · split at h
    · cases h
    · rename_i head tail hsegments
      cases h
      refine ⟨rfl, ?_⟩
      have hnames : (head :: tail).map String.toList = names.splitOn '.' := by
        rw [← hsegments, List.map_map]
        simp [Function.comp_def]
      rw [segments, hnames, List.intercalate_splitOn]

/-- Names are refused when one of them is empty, and for nothing else. -/
lemma ofNames?_eq_none_iff : ofNames? anchor names = none ↔ [] ∈ names.splitOn '.' := by
  have hany : (names.splitOn '.').any List.isEmpty = true ↔ [] ∈ names.splitOn '.' := by simp
  obtain ⟨first, rest, hsplit⟩ := List.exists_cons_of_ne_nil (List.splitOn_ne_nil '.' names)
  unfold ofNames?
  by_cases h : [] ∈ names.splitOn '.'
  · simp [hany.mpr h, h]
  · have hnot : (names.splitOn '.').any List.isEmpty = false := Bool.eq_false_iff.mpr (mt hany.mp h)
    simp only [hnot, h]
    simp [hsplit]

lemma ofNames?_intercalate (h : ∀ name ∈ head :: tail, IsSegment name) :
    ofNames? anchor (['.'].intercalate ((head :: tail).map String.toList)) =
      some { anchor, head, tail } := by
  have hsplit : (['.'].intercalate ((head :: tail).map String.toList)).splitOn '.' =
      (head :: tail).map String.toList := by
    refine List.splitOn_intercalate '.' (fun letters hletters => ?_) (by simp)
    obtain ⟨name, hname, rfl⟩ := List.mem_map.mp hletters
    exact (h name hname).dotless
  have hnonempty : ((head :: tail).map String.toList).any List.isEmpty = false := by
    refine List.any_eq_false.mpr fun letters hletters => ?_
    obtain ⟨name, hname, rfl⟩ := List.mem_map.mp hletters
    simpa using (h name hname).nonempty
  have hnames : ((head :: tail).map String.toList).map String.ofList = head :: tail := by
    rw [List.map_map]
    simp [Function.comp_def]
  simp only [ofNames?, hsplit, hnonempty, hnames]
  rfl

/-! ## Steps up -/

lemma toList_anchorText_relative (up : ℕ) :
    (anchorText (.relative up)).toList = (List.replicate up ['.', '.', '/']).flatten := by
  simp [anchorText, String.toList_join, List.flatMap]

/-- **Climbing takes off the steps up that a text begins with, all of them.** -/
lemma climb_eq_iff {up : ℕ} : climb text = (up, names) ↔
    text = (anchorText (.relative up)).toList ++ names ∧ ¬['.', '.', '/'] <+: names := by
  rw [toList_anchorText_relative]
  constructor
  · intro h
    fun_induction climb text generalizing up names with
    | case1 rest up' names' hrest ih =>
      cases h
      obtain ⟨rfl, hnames⟩ := ih hrest
      exact ⟨by simp [List.replicate_succ], hnames⟩
    | case2 text hno =>
      cases h
      refine ⟨by simp, ?_⟩
      rintro ⟨rest, rfl⟩
      exact hno rest rfl
  · rintro ⟨rfl, hnames⟩
    induction up with
    | zero =>
      refine climb.eq_2 _ fun rest h => hnames ⟨rest, ?_⟩
      simpa using h.symm
    | succ up ih =>
      simp only [List.replicate_succ, List.flatten_cons, List.cons_append, List.nil_append]
      rw [climb, ih]

/-! ## Texts -/

/-- **Reading takes the text of an anchor off**, and the names are what stands behind it. -/
lemma exists_anchor (text : String) : ∃ anchor names,
    ofString? text = ofNames? anchor names ∧ text.toList = (anchorText anchor).toList ++ names := by
  unfold ofString?
  split
  · rename_i scope names hsplit
    refine ⟨.absolute scope, names, rfl, ?_⟩
    rw [(StaticScope.of_splitAbsolute? hsplit).2.2, anchorText, String.toList_append, List.append_assoc]
    rfl
  · exact ⟨.relative _, _, rfl, (climb_eq_iff.mp rfl).1⟩

lemma toText_of_ofString? {text : String} (h : ofString? text = some path) : path.toText = text := by
  obtain ⟨anchor, names, hread, htext⟩ := exists_anchor text
  obtain ⟨rfl, rfl⟩ := of_ofNames? (hread.symm.trans h)
  apply String.toList_inj.mp
  rw [htext, toText, String.toList_append, String.toList_intercalate]
  rfl

/-- No step up stands before the path of a block. -/
lemma climb_path (hblock : block ∈ StaticScope.blocks) (names : List Char) :
    climb (block.path.toList ++ '.' :: names) = (0, block.path.toList ++ '.' :: names) := by
  refine climb_eq_iff.mpr ⟨rfl, ?_⟩
  simp only [StaticScope.blocks, List.mem_cons, List.not_mem_nil, or_false] at hblock
  rcases hblock with rfl | rfl | rfl | rfl | rfl | rfl <;> rintro ⟨rest, h⟩ <;> cases h

lemma ofString?_eq_none_iff (text : String) :
    ofString? text = none ↔ [] ∈ (climb text.toList).2.splitOn '.' := by
  unfold ofString?
  split
  · rename_i scope names hsplit
    obtain ⟨hblock, -, htext⟩ := StaticScope.of_splitAbsolute? hsplit
    have hnonempty : ∀ block ∈ StaticScope.blocks, [] ∉ block.spelled := by decide +kernel
    rw [ofNames?_eq_none_iff, htext, climb_path hblock, List.splitOn_append_cons_self,
      StaticScope.splitOn_path hblock, List.mem_append, or_iff_right (hnonempty scope hblock)]
  · exact ofNames?_eq_none_iff

/-- **A text is read as the path whose text it is, and as that path it is read again**; no other text is read
as this path.  What is not read has an empty name behind its steps up. -/
theorem ofString?_exact (text : String) :
    (∀ path, ofString? text = some path → path.toText = text ∧ ofString? path.toText = some path ∧
      ∀ other, ofString? other = some path → other = text) ∧
    (ofString? text = none ↔ ∃ (up : ℕ) (rest : String),
      text = String.join (List.replicate up "../") ++ rest ∧ ¬"../".toList <+: rest.toList ∧
        [] ∈ rest.toList.splitOn '.') := by
  constructor
  · intro path h
    have htext := toText_of_ofString? h
    refine ⟨htext, by rw [htext, h], fun other hother => ?_⟩
    exact (toText_of_ofString? hother).symm.trans htext
  · rw [ofString?_eq_none_iff]
    constructor
    · intro hempty
      obtain ⟨up, names, hclimb⟩ : ∃ up names, climb text.toList = (up, names) := ⟨_, _, rfl⟩
      rw [hclimb] at hempty
      obtain ⟨htext, hnames⟩ := climb_eq_iff.mp hclimb
      have hback : (String.ofList names).toList = names := String.toList_ofList
      refine ⟨up, String.ofList names, ?_, ?_, ?_⟩
      · apply String.toList_inj.mp
        rw [String.toList_append, hback]
        exact htext
      · rw [hback]
        exact hnames
      · rw [hback]
        exact hempty
    · rintro ⟨up, rest, rfl, hnames, hempty⟩
      have hclimb := climb_eq_iff.mpr ⟨(rfl : _ = (anchorText (.relative up)).toList ++ rest.toList), hnames⟩
      rw [String.toList_append]
      change [] ∈ (climb ((anchorText (.relative up)).toList ++ rest.toList)).2.splitOn '.'
      rw [hclimb]
      exact hempty

/-! ## Absolute paths -/

lemma toList_absolute (block : StaticScope) (head : String) (tail : List String) :
    (".".intercalate (block.path :: head :: tail)).toList =
      block.path.toList ++ '.' :: ['.'].intercalate ((head :: tail).map String.toList) := by
  rw [String.intercalate_cons_cons, String.toList_append, String.toList_append,
    String.toList_intercalate, List.append_assoc]
  rfl

/-- **The text of an absolute path is read as that path.** -/
theorem ofString?_intercalate (hblock : block ∈ StaticScope.blocks)
    (h : ∀ name ∈ head :: tail, IsSegment name) :
    ofString? (".".intercalate (block.path :: head :: tail)) =
      some { anchor := .absolute block, head, tail } := by
  have hinside : ['.'].intercalate ((head :: tail).map String.toList) ≠ [] := by
    intro hempty
    have hread : ofNames? (.absolute block) _ = _ := ofNames?_intercalate h
    rw [hempty] at hread
    cases hread
  rw [ofString?, toList_absolute,
    StaticScope.splitAbsolute?_eq_some_iff.mpr ⟨hblock, Or.inl hinside, rfl⟩]
  exact ofNames?_intercalate h

/-- **A text that is read as an absolute path is the text of that path.** -/
theorem eq_intercalate_of_ofString? {text : String} {path : FieldPath}
    (h : ofString? text = some path) (hanchor : path.anchor = .absolute block) :
    block ∈ StaticScope.blocks ∧ text = ".".intercalate (block.path :: path.head :: path.tail) := by
  unfold ofString? at h
  split at h
  · rename_i scope names hsplit
    obtain ⟨hscope, rfl⟩ := of_ofNames? h
    rw [hscope, Anchor.absolute.injEq] at hanchor
    subst hanchor
    obtain ⟨hblock, -, htext⟩ := StaticScope.of_splitAbsolute? hsplit
    refine ⟨hblock, String.toList_inj.mp ?_⟩
    rw [htext, toList_absolute]
    rfl
  · obtain ⟨hrelative, -⟩ := of_ofNames? h
    rw [hanchor] at hrelative
    cases hrelative

end FieldPath

end CommonTrace
