import CommonTrace.Proofs.Schema.Accepted
import CommonTrace.Proofs.Schema.Trees

/-!
# When the packet header has been checked

`View.Passes` says of a type, part by part, what the check of the paths looks for: elements take bits, and
lengths and tags can be found.  The check accepts just the types that pass (`View.check_eq_ok_iff`).

The packet header belongs to the trace, but it is checked with the blocks of each stream.  So it passes if the
tree declares a stream or an event.  A tree that declares neither has no stream, and then nothing is checked
whatever the packet header is, although a reader decodes that header for every packet
(`Metadata.headerPasses_of_ofTree`).
-/

namespace CommonTrace

open Tsdl

namespace View

/-- **What the check looks for.**  No array or sequence has elements that take no bits, and in the view from
its place each length and each tag leads to a field that can be one. -/
inductive Passes : View → FieldType → Prop where
  | integer (view : View) (t : IntegerType) : Passes view (.integer t)
  | float (view : View) (t : FloatType) : Passes view (.float t)
  | string (view : View) (encoding : Encoding) : Passes view (.string encoding)
  | enum (view : View) (t : EnumType) : Passes view (.enum t)
  | array {view : View} {element : FieldType} {length : ℕ} (hbits : element.occupiesNoBits = false)
      (h : Passes view element) : Passes view (.array element length)
  | sequence {view : View} {element : FieldType} {length : FieldPath}
      (hlength : view.expect length isLength = .ok ()) (hbits : element.occupiesNoBits = false)
      (h : Passes view element) : Passes view (.sequence element length)
  | struct {view : View} {least : ℕ} {fields : List (String × FieldType)}
      (h : ∀ before name t after, fields = before ++ (name, t) :: after →
        Passes (view.enter before.reverse) t) : Passes view (.struct least fields)
  | variant {view : View} {tag : FieldPath} {alternatives : List (String × FieldType)}
      (htag : view.expect tag isTag = .ok ())
      (h : ∀ alternative ∈ alternatives, Passes view alternative.2) :
      Passes view (.variant (some tag) alternatives)

variable {view : View}

lemma expectBits_eq_ok_iff {element : FieldType} :
    view.expectBits element = .ok () ↔ element.occupiesNoBits = false := by
  unfold expectBits
  cases element.occupiesNoBits with
  | true => exact ⟨nofun, nofun⟩
  | false => exact ⟨fun _ => rfl, fun _ => rfl⟩

/-- Each field is checked with the fields before it in view. -/
lemma checkFields_eq_ok_iff {before fields : List (String × FieldType)} :
    view.checkFields before fields = .ok () ↔ ∀ done name t after, fields = done ++ (name, t) :: after →
      (view.enter (done.reverse ++ before)).check t = .ok () := by
  induction fields generalizing before with
  | nil => simp [checkFields]
  | cons field fields ih =>
    obtain ⟨name, t⟩ := field
    rw [checkFields]
    constructor
    · intro h done name' t' after hfields
      obtain ⟨_, hhere, hthere⟩ := exists_of_bind_eq_ok h
      cases done with
      | nil =>
        cases hfields
        exact hhere
      | cons first done =>
        cases hfields
        have hrest := ih.mp hthere done name' t' after rfl
        rwa [List.reverse_cons, List.append_assoc]
    · intro h
      have hhere : (view.enter before).check t = .ok () := h [] name t fields rfl
      rw [hhere]
      refine ih.mpr fun done name' t' after hfields => ?_
      have hrest := h ((name, t) :: done) name' t' after (by rw [hfields, List.cons_append])
      rwa [List.reverse_cons, List.append_assoc] at hrest

lemma checkAlternatives_eq_ok_iff {alternatives : List (String × FieldType)} :
    view.checkAlternatives alternatives = .ok () ↔
      ∀ alternative ∈ alternatives, view.check alternative.2 = .ok () := by
  induction alternatives with
  | nil => simp [checkAlternatives]
  | cons alternative alternatives ih =>
    rw [checkAlternatives, List.forall_mem_cons, ← ih]
    constructor
    · intro h
      obtain ⟨_, hhere, hthere⟩ := exists_of_bind_eq_ok h
      exact ⟨hhere, hthere⟩
    · rintro ⟨hhere, hthere⟩
      rw [hhere]
      exact hthere

lemma passes_of_check (view : View) (t : FieldType) (h : view.check t = .ok ()) : view.Passes t := by
  cases t with
  | integer t => exact .integer view t
  | float t => exact .float view t
  | string encoding => exact .string view encoding
  | enum t => exact .enum view t
  | array element _ =>
    rw [check] at h
    obtain ⟨_, hbits, h⟩ := exists_of_bind_eq_ok h
    exact .array (expectBits_eq_ok_iff.mp hbits) (passes_of_check view element h)
  | sequence element length =>
    rw [check] at h
    obtain ⟨_, hlength, h⟩ := exists_of_bind_eq_ok h
    obtain ⟨_, hbits, h⟩ := exists_of_bind_eq_ok h
    exact .sequence hlength (expectBits_eq_ok_iff.mp hbits) (passes_of_check view element h)
  | struct _ fields =>
    rw [check, checkFields_eq_ok_iff] at h
    refine .struct fun before name u after hfields => ?_
    have hu := h before name u after hfields
    rw [List.append_nil] at hu
    have hmem : (name, u) ∈ fields := by simp [hfields]
    exact passes_of_check _ u hu
  | variant tag alternatives =>
    cases tag with
    | none => cases h
    | some tag =>
      rw [check] at h
      obtain ⟨_, htag, h⟩ := exists_of_bind_eq_ok h
      rw [checkAlternatives_eq_ok_iff] at h
      exact .variant htag fun alternative hmem => passes_of_check view alternative.2 (h alternative hmem)
termination_by sizeOf t
decreasing_by
  all_goals subst_vars
  all_goals simp only [FieldType.array.sizeOf_spec, FieldType.sequence.sizeOf_spec,
    FieldType.struct.sizeOf_spec, FieldType.variant.sizeOf_spec]
  · omega
  · omega
  · have hlt := List.sizeOf_lt_of_mem hmem
    rw [Prod.mk.sizeOf_spec] at hlt
    omega
  · have hlt := List.sizeOf_lt_of_mem hmem
    obtain ⟨name, u⟩ := alternative
    rw [Prod.mk.sizeOf_spec] at hlt
    dsimp only
    omega

lemma Passes.check {t : FieldType} (h : view.Passes t) : view.check t = .ok () := by
  induction h with
  | integer | float | string | enum => rfl
  | array hbits _ ih =>
    rw [View.check, expectBits_eq_ok_iff.mpr hbits]
    exact ih
  | sequence hlength hbits _ ih =>
    rw [View.check, hlength, expectBits_eq_ok_iff.mpr hbits]
    exact ih
  | struct _ ih =>
    rw [View.check, checkFields_eq_ok_iff]
    intro before name t after hfields
    rw [List.append_nil]
    exact ih before name t after hfields
  | variant htag _ ih =>
    rw [View.check, htag]
    exact checkAlternatives_eq_ok_iff.mpr ih

/-- **The check accepts just the types that pass.** -/
theorem check_eq_ok_iff {t : FieldType} : view.check t = .ok () ↔ view.Passes t :=
  ⟨passes_of_check view t, Passes.check⟩

end View

/-! ## The packet header -/

/-- The view from the packet header, before which nothing is decoded. -/
def View.ofPacketHeader : View where
  place := { stream := 0, event := none, block := .tracePacketHeader }
  earlier := []
  frames := []

/-- If there is a packet header, it is one that the check accepts. -/
def Metadata.HeaderPasses (metadata : Metadata) : Prop :=
  ∀ header ∈ metadata.packetHeader, View.ofPacketHeader.Passes header

/-- **The packet header is checked along with the streams.**  If an accepted tree declares a stream or an event,
its packet header passes; if it declares neither, the check accepts any packet header. -/
theorem Metadata.headerPasses_of_ofTree {root : Node} {metadata : Metadata}
    (h : Metadata.ofTree root = .ok metadata) :
    (root.declaresEvents = true → metadata.HeaderPasses) ∧
      (root.declaresEvents = false →
        ∀ header, { metadata with packetHeader := header }.checkPaths = .ok ()) := by
  obtain ⟨haccepted, hpresent⟩ := accepted_of_ofTree h
  constructor
  · intro hdeclares header hheader
    exact View.check_eq_ok_iff.mp (haccepted.headerPassed (hpresent.mp hdeclares) header hheader)
  · intro hdeclares header
    have hstreams : metadata.streams.entries = [] := by
      by_contra hne
      rw [hpresent.mpr hne] at hdeclares
      cases hdeclares
    rw [checkPaths, hstreams]
    rfl

section Example

/-- A trace with a packet header that ends with bytes, as many as the path says, and some blocks. -/
def countedHeader (length : String) (blocks : List Node) : Node :=
  .block .root
    (.block .trace
      [.type "packet.header" (.struct
        [.member (.integer "8") "n" [],
          .member (.integer "8") "xs" [.word .unaryString length]])] :: blocks)

/-- The metadata with its packet header, if the tree is accepted and the check gives the header this verdict. -/
def headerVerdict? (root : Node) (passes : Bool) : Option (Metadata × FieldType) := do
  let metadata ← (Metadata.ofTree root).toOption
  let header ← metadata.packetHeader
  if (View.ofPacketHeader.check header).isOk = passes then some (metadata, header) else none

lemma exists_of_headerVerdict? (root : Node) (passes : Bool)
    (h : (headerVerdict? root passes).isSome = true) :
    ∃ metadata header, Metadata.ofTree root = .ok metadata ∧ header ∈ metadata.packetHeader ∧
      (View.ofPacketHeader.check header).isOk = passes := by
  obtain ⟨⟨metadata, header⟩, h⟩ := Option.isSome_iff_exists.mp h
  obtain ⟨metadata', hmetadata, h⟩ := Option.bind_eq_some_iff.mp h
  obtain ⟨header', hheader, h⟩ := Option.bind_eq_some_iff.mp h
  split at h
  · rename_i hverdict
    exact ⟨metadata', header', eq_ok_of_toOption hmetadata, hheader, hverdict⟩
  · cases h

theorem headerPasses_countedHeader : ∃ metadata header,
    Metadata.ofTree (countedHeader "n" [.block .stream []]) = .ok metadata ∧
      (countedHeader "n" [.block .stream []]).declaresEvents = true ∧
      header ∈ metadata.packetHeader ∧ View.ofPacketHeader.Passes header := by
  obtain ⟨metadata, header, hroot, hheader, -⟩ :=
    exists_of_headerVerdict? (countedHeader "n" [.block .stream []]) true (by decide +kernel)
  have hpasses := (Metadata.headerPasses_of_ofTree hroot).1 rfl
  exact ⟨metadata, header, hroot, rfl, hheader, hpasses header hheader⟩

/-- Without a stream and an event, a length in the packet header may lead nowhere. -/
theorem not_forall_headerPasses :
    ¬∀ root metadata, Metadata.ofTree root = .ok metadata → metadata.HeaderPasses := by
  intro h
  obtain ⟨metadata, header, hroot, hheader, hfails⟩ :=
    exists_of_headerVerdict? (countedHeader "missing" []) false (by decide +kernel)
  rw [(h _ metadata hroot header hheader).check] at hfails
  cases hfails

end Example

end CommonTrace
