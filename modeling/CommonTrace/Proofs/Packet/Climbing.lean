import CommonTrace.Proofs.Field.Climbing
import CommonTrace.Proofs.Packet.Agreement

/-!
# Paths that climb out of a block of a packet

A path that climbs out of its block is checked against the blocks before, and decoding searches the block
itself as well.  `Metadata.climbing_lookups_found_iff` says of all such lookups in a trace which of them
are found: those that no field of their own block overtakes.

That fields do overtake is shown by the metadata `overtakenCount`, which the check accepts and with which
no event can be decoded.
-/

namespace CommonTrace

open Watched

/-- **Which lookups that climb out of their block are found.**  A tree that declares a stream or an event
has been accepted.  Of a packet, whatever its bytes, and of each event of each packet of a file, the
lookups are noted while they are decoded.  Then a lookup by a path that climbs out of its block finds a
field of the type that the check has found, and fails for the value of that field only, if and only if no
field of its own block overtakes what the check has found. -/
theorem Metadata.climbing_lookups_found_iff {root : Tsdl.Node} {metadata : Metadata}
    (h : Metadata.ofTree root = .ok metadata) (hdeclares : root.declaresEvents = true)
    (options : ReadOptions) (file : ByteArray) :
    (∀ (bytes : ByteArray), ∀ lookup ∈ (PacketHead.watchBytes metadata options bytes).2,
      lookup.view.ClimbsOut lookup.path →
        (lookup.Found options.lengthLimit ↔ ¬lookup.view.Overtakes lookup.path)) ∧
    ∀ packet, .ok packet ∈ PacketIndex.ofFile metadata options file → ∀ (cursor : Cursor),
      ∀ lookup ∈ (Event.watch options.lengthLimit metadata packet).lookups
          { cursor, scopes := { arena := .empty, outer := [packet.scopes] } },
        lookup.view.ClimbsOut lookup.path →
          (lookup.Found options.lengthLimit ↔ ¬lookup.view.Overtakes lookup.path) := by
  obtain ⟨haccepted, hpresent⟩ := accepted_of_ofTree h
  constructor
  · intro bytes lookup hlookup hclimbs
    have hplaced := PacketHead.placed_of_watchBytes haccepted (hpresent.mp hdeclares) hlookup
    exact hplaced.found_iff_of_climbs hclimbs
  · intro packet hpacket cursor lookup hlookup hclimbs
    have hknown := PacketIndex.known_of_ofFile haccepted hpacket
    have hplaced := Event.placed_of_watch haccepted hknown rfl hlookup
    exact hplaced.found_iff_of_climbs hclimbs

/-! ## A count that is overtaken -/

section Example

open Tsdl

/-- A tree with one kind of event.  Its context is the number `count`, and its payload is a text of the
given name and as many bytes as the number says which is found as `count` above the payload. -/
def countAbove (text : String) : Node :=
  .block .root
    [.block .event
      [.value "name" (.word .unaryString "e"),
        .type "context" (.struct [.member (.integer "8") "count" []]),
        .type "fields" (.struct
          [.member (.block .string []) text [],
            .member (.integer "8") "xs" [.word .unaryString "../count"]])]]

/-- A tree in which the text has the name of the number. -/
def overtakenCount : Node :=
  countAbove "count"

/-- A file with one event of such a tree: the number 2, the text "a", and two bytes. -/
def countedFile : ByteArray :=
  ⟨#[2, 97, 0, 5, 6]⟩

/-- The lookups of an event at the start of the only packet of a file. -/
def firstLookups (root : Node) (file : ByteArray) : List Lookup :=
  match Metadata.ofTree root with
  | .error _ => []
  | .ok metadata =>
    match PacketIndex.ofFile metadata {} file with
    | [.ok packet] => (Event.watch (twoPow 24) metadata packet).lookups
        { cursor := .ofBytes file, scopes := { arena := .empty, outer := [packet.scopes] } }
    | _ => []

lemma exists_of_mem_firstLookups {root : Node} {file : ByteArray} {lookup : Lookup}
    (h : lookup ∈ firstLookups root file) : ∃ metadata packet,
      Metadata.ofTree root = .ok metadata ∧ .ok packet ∈ PacketIndex.ofFile metadata {} file ∧
        lookup ∈ (Event.watch (twoPow 24) metadata packet).lookups
          { cursor := .ofBytes file, scopes := { arena := .empty, outer := [packet.scopes] } } := by
  unfold firstLookups at h
  split at h
  · exact absurd h List.not_mem_nil
  · rename_i metadata hmetadata
    split at h
    · rename_i packet hpackets
      refine ⟨metadata, packet, hmetadata, ?_, h⟩
      rw [hpackets]
      exact List.mem_singleton_self _
    · exact absurd h List.not_mem_nil

/-- If the text has another name, the number is found. -/
theorem climbing_lookups_found_countAbove : ∃ metadata packet lookup,
    Metadata.ofTree (countAbove "text") = .ok metadata ∧
      .ok packet ∈ PacketIndex.ofFile metadata {} countedFile ∧
      lookup ∈ (Event.watch (twoPow 24) metadata packet).lookups
        { cursor := .ofBytes countedFile,
          scopes := { arena := .empty, outer := [packet.scopes] } } ∧
      lookup.view.ClimbsOut lookup.path ∧ lookup.Found (twoPow 24) := by
  have hlookups : (firstLookups (countAbove "text") countedFile).any (fun lookup =>
      lookup.view.ClimbsOut lookup.path ∧ lookup.view.own? lookup.path = none) = true := by
    decide +kernel
  obtain ⟨lookup, hlookup, hclimbs⟩ := List.any_eq_true.mp hlookups
  obtain ⟨hclimbs, hown⟩ := of_decide_eq_true hclimbs
  obtain ⟨metadata, packet, hmetadata, hpacket, hmem⟩ := exists_of_mem_firstLookups hlookup
  have hiff := (Metadata.climbing_lookups_found_iff hmetadata (by decide +kernel) {} countedFile).2
    packet hpacket _ lookup hmem hclimbs
  refine ⟨metadata, packet, lookup, hmetadata, hpacket, hmem, hclimbs, hiff.mpr ?_⟩
  rintro ⟨t, ht, -⟩
  exact absurd (hown ▸ ht) (Option.not_mem_none t)

/-- A path that climbs out of its block and crosses no variant is not always found, though the check has
passed it. -/
theorem not_forall_found_of_climbsOut :
    ¬ ∀ (root : Node) (metadata : Metadata) (file : ByteArray) (packet : Packet) (lookup : Lookup),
      Metadata.ofTree root = .ok metadata → root.declaresEvents = true →
      .ok packet ∈ PacketIndex.ofFile metadata {} file →
      lookup ∈ (Event.watch (twoPow 24) metadata packet).lookups
        { cursor := .ofBytes file, scopes := { arena := .empty, outer := [packet.scopes] } } →
      lookup.view.ClimbsOut lookup.path → lookup.Found (twoPow 24) := by
  intro hclaim
  have hlookups : (firstLookups overtakenCount countedFile).any (fun lookup =>
      lookup.view.ClimbsOut lookup.path ∧
        (lookup.view.resolve? lookup.path).all View.isLength ∧
        (lookup.state.scopes.resolve? lookup.scope lookup.path).all fun f =>
          !View.isLength f.type) = true := by
    decide +kernel
  obtain ⟨lookup, hlookup, hclimbs⟩ := List.any_eq_true.mp hlookups
  obtain ⟨hclimbs, hchecked, hdecoded⟩ := of_decide_eq_true hclimbs
  obtain ⟨metadata, packet, hmetadata, hpacket, hmem⟩ := exists_of_mem_firstLookups hlookup
  have hfound := hclaim overtakenCount metadata countedFile packet lookup hmetadata
    (by decide +kernel) hpacket hmem hclimbs
  obtain ⟨f, hresolved, htype⟩ := hfound.resolved
  rw [htype, Option.all_some] at hchecked
  rw [hresolved, Option.all_some, hchecked] at hdecoded
  cases hdecoded

end Example

end CommonTrace
