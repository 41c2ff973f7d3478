import CommonTrace.Proofs.Schema.Steps
import CommonTrace.Schema.Visibility
import Mathlib.Data.Nat.Notation

/-!
# What the check of the paths says of each block

`Metadata.checkPaths` goes through the blocks of each event together with those of its stream.  Seen
from one block, it has been checked behind the blocks that are decoded before it, whatever event it is
decoded for (`BlockPassed`); `Metadata.passed_of_checkPaths` collects this for the blocks of a stream.

The check names the stream and the event of a block in its complaints only, so whether it complains
does not depend on them (`View.check_relocate`).
-/

namespace CommonTrace

/-- The blocks decoded so far, the latest first, behind one that may lack a layout. -/
def behind (block : StaticScope) (t : Option FieldType) (earlier : List (StaticScope × FieldType)) :
    List (StaticScope × FieldType) :=
  match t with
  | some t => (block, t) :: earlier
  | none => earlier

lemma not_mem_names_behind {block block' : StaticScope} {t : Option FieldType}
    {earlier : List (StaticScope × FieldType)} (hne : block' ≠ block)
    (h : block' ∉ earlier.map Prod.fst) : block' ∉ (behind block t earlier).map Prod.fst := by
  cases t with
  | none => exact h
  | some t => exact List.not_mem_cons_of_ne_of_not_mem hne h

/-! ## Places -/

namespace View

variable {view : View} {place : BlockPlace}

/-- The same view at another place. -/
def relocate (view : View) (place : BlockPlace) : View :=
  { view with place }

lemma resolve?_relocate (hblock : place.block = view.place.block) (path : FieldPath) :
    (view.relocate place).resolve? path = view.resolve? path := by
  simp only [resolve?, head?, headInBlock?, headFrom?, relocate, hblock]

lemma expect_relocate (hblock : place.block = view.place.block) {path : FieldPath}
    {accepts : FieldType → Bool} (h : view.expect path accepts = .ok ()) :
    (view.relocate place).expect path accepts = .ok () := by
  unfold expect at h ⊢
  rw [resolve?_relocate hblock]
  split at h
  · rename_i hany
    rw [if_pos hany]
  · cases h

lemma expectBits_relocate {element : FieldType} (h : view.expectBits element = .ok ()) :
    (view.relocate place).expectBits element = .ok () := by
  unfold expectBits at h ⊢
  split at h
  · cases h
  · rename_i hbits
    rw [if_neg hbits]

mutual

/-- A type that passes the check in one place passes it in every other place of the same block. -/
theorem check_relocate (view : View) (place : BlockPlace)
    (hblock : place.block = view.place.block) (t : FieldType)
    (h : view.check t = .ok ()) : (view.relocate place).check t = .ok () := by
  match t with
  | .integer _ | .float _ | .string _ | .enum _ => rfl
  | .array element _ =>
    rw [check] at h ⊢
    obtain ⟨_, hbits, h⟩ := exists_of_bind_eq_ok h
    rw [expectBits_relocate hbits]
    exact check_relocate view place hblock element h
  | .sequence element path =>
    rw [check] at h ⊢
    obtain ⟨_, hpath, h⟩ := exists_of_bind_eq_ok h
    obtain ⟨_, hbits, h⟩ := exists_of_bind_eq_ok h
    rw [expect_relocate hblock hpath, expectBits_relocate hbits]
    exact check_relocate view place hblock element h
  | .struct _ fields =>
    rw [check] at h ⊢
    exact checkFields_relocate view place hblock [] fields h
  | .variant none _ => cases h
  | .variant (some tag) alternatives =>
    rw [check] at h ⊢
    obtain ⟨_, htag, h⟩ := exists_of_bind_eq_ok h
    rw [expect_relocate hblock htag]
    exact checkAlternatives_relocate view place hblock alternatives h
termination_by structural t

theorem checkFields_relocate (view : View) (place : BlockPlace)
    (hblock : place.block = view.place.block) (before fields : List (String × FieldType))
    (h : view.checkFields before fields = .ok ()) :
    (view.relocate place).checkFields before fields = .ok () := by
  match fields with
  | [] => rfl
  | (name, t) :: rest =>
    rw [checkFields] at h ⊢
    obtain ⟨_, hhere, hthere⟩ := exists_of_bind_eq_ok h
    have hrelocated := check_relocate (view.enter before) place hblock t hhere
    change (((view.enter before).relocate place).check t >>= _) = _
    rw [hrelocated]
    exact checkFields_relocate view place hblock ((name, t) :: before) rest hthere
termination_by structural fields

theorem checkAlternatives_relocate (view : View) (place : BlockPlace)
    (hblock : place.block = view.place.block) (alternatives : List (String × FieldType))
    (h : view.checkAlternatives alternatives = .ok ()) :
    (view.relocate place).checkAlternatives alternatives = .ok () := by
  match alternatives with
  | [] => rfl
  | (_, t) :: rest =>
    rw [checkAlternatives] at h ⊢
    obtain ⟨_, hhere, hthere⟩ := exists_of_bind_eq_ok h
    rw [check_relocate view place hblock t hhere]
    exact checkAlternatives_relocate view place hblock rest hthere
termination_by structural alternatives

end

end View

/-! ## Blocks -/

/-- If the block has a layout, the check has passed it behind the blocks in `earlier`. -/
def BlockPassed (earlier : List (StaticScope × FieldType)) (block : StaticScope)
    (t : Option FieldType) : Prop :=
  ∀ u ∈ t, View.check { place := { stream := 0, event := none, block }, earlier, frames := [] } u =
    .ok ()

/-- What has passed as a whole has passed block by block. -/
lemma passed_of_checkBlocks {stream : ℕ} {event : Option String}
    {earlier : List (StaticScope × FieldType)} {block : StaticScope} {t : Option FieldType}
    {rest : List (StaticScope × Option FieldType)}
    (h : checkBlocks stream event earlier (declaredBlocks ((block, t) :: rest)) = .ok ()) :
    BlockPassed earlier block t ∧
      checkBlocks stream event (behind block t earlier) (declaredBlocks rest) = .ok () := by
  cases t with
  | none => exact ⟨fun u hu => absurd hu (Option.not_mem_none u), h⟩
  | some t =>
    obtain ⟨_, hhere, hthere⟩ := exists_of_bind_eq_ok h
    refine ⟨fun u hu => ?_, hthere⟩
    cases hu
    exact View.check_relocate _ { stream := 0, event := none, block } rfl t hhere

lemma reverse_declaredBlocks (blocks : List (StaticScope × Option FieldType))
    (earlier : List (StaticScope × FieldType)) :
    (declaredBlocks blocks).reverse ++ earlier =
      blocks.foldl (fun earlier entry => behind entry.1 entry.2 earlier) earlier := by
  induction blocks generalizing earlier with
  | nil => rfl
  | cons entry blocks ih =>
    obtain ⟨block, t⟩ := entry
    rw [List.foldl_cons, ← ih]
    cases t with
    | none => rfl
    | some t => simp [declaredBlocks, behind]

/-! ## Streams -/

section Streams

variable (metadata : Metadata) (stream : StreamSchema)

/-- The blocks that are decoded before the events of a stream, the latest first. -/
def blocksBeforeEvents : List (StaticScope × FieldType) :=
  behind .streamPacketContext stream.packetContext
    (behind .tracePacketHeader metadata.packetHeader [])

/-- The blocks that are decoded before the kind of an event is known, the latest first. -/
def blocksOfAllEvents : List (StaticScope × FieldType) :=
  behind .streamEventContext stream.eventContext
    (behind .streamEventHeader stream.eventHeader (blocksBeforeEvents metadata stream))

lemma reverse_streamBlocks :
    (metadata.streamBlocks stream).reverse = blocksOfAllEvents metadata stream := by
  have h := reverse_declaredBlocks
    [(.tracePacketHeader, metadata.packetHeader), (.streamPacketContext, stream.packetContext),
      (.streamEventHeader, stream.eventHeader), (.streamEventContext, stream.eventContext)] []
  rwa [List.append_nil] at h

/-- **What the check promises of a stream**: each block has been checked behind those that are decoded
before it. -/
structure StreamPassed : Prop where
  packetHeader : BlockPassed [] .tracePacketHeader metadata.packetHeader
  packetContext : BlockPassed (behind .tracePacketHeader metadata.packetHeader [])
    .streamPacketContext stream.packetContext
  eventHeader : BlockPassed (blocksBeforeEvents metadata stream) .streamEventHeader
    stream.eventHeader
  eventContext : BlockPassed
    (behind .streamEventHeader stream.eventHeader (blocksBeforeEvents metadata stream))
    .streamEventContext stream.eventContext
  context : ∀ event ∈ stream.eventList,
    BlockPassed (blocksOfAllEvents metadata stream) .eventContext event.context
  fields : ∀ event ∈ stream.eventList,
    BlockPassed (behind .eventContext event.context (blocksOfAllEvents metadata stream))
      .eventFields event.fields

variable {metadata stream}

lemma ok_of_forM_ok {α ε : Type} {f : α → Except ε Unit} {xs : List α} (h : xs.forM f = .ok ())
    {x : α} (hx : x ∈ xs) : f x = .ok () := by
  induction xs with
  | nil => cases hx
  | cons y ys ih =>
    obtain ⟨_, hhere, hthere⟩ := exists_of_bind_eq_ok h
    rcases List.mem_cons.mp hx with rfl | hx
    · exact hhere
    · exact ih hthere hx

/-- Metadata whose paths pass the check has streams that do. -/
theorem Metadata.passed_of_checkPaths (h : metadata.checkPaths = .ok ()) {key : ℕ}
    (hstream : (key, stream) ∈ metadata.streams.entries) : StreamPassed metadata stream := by
  obtain ⟨_, hblocks, hevents⟩ := exists_of_bind_eq_ok (ok_of_forM_ok h hstream)
  obtain ⟨hheader, hblocks⟩ := passed_of_checkBlocks hblocks
  obtain ⟨hcontext, hblocks⟩ := passed_of_checkBlocks hblocks
  obtain ⟨heventHeader, hblocks⟩ := passed_of_checkBlocks hblocks
  obtain ⟨heventContext, -⟩ := passed_of_checkBlocks hblocks
  have hevent : ∀ event ∈ stream.eventList,
      BlockPassed (blocksOfAllEvents metadata stream) .eventContext event.context ∧
        BlockPassed (behind .eventContext event.context (blocksOfAllEvents metadata stream))
          .eventFields event.fields := by
    intro event hmem
    obtain ⟨_, hblocks, -⟩ := exists_of_bind_eq_ok (ok_of_forM_ok hevents hmem)
    rw [reverse_streamBlocks] at hblocks
    obtain ⟨hcontext, hblocks⟩ := passed_of_checkBlocks hblocks
    exact ⟨hcontext, (passed_of_checkBlocks hblocks).1⟩
  exact {
    packetHeader := hheader
    packetContext := hcontext
    eventHeader := heventHeader
    eventContext := heventContext
    context := fun event hmem => (hevent event hmem).1
    fields := fun event hmem => (hevent event hmem).2 }

end Streams

end CommonTrace
