import CommonTrace.Proofs.Field.Navigation
import CommonTrace.Proofs.Packet.Blocks
import CommonTrace.Proofs.Packet.Calls
import CommonTrace.Proofs.Trace.Errors

/-!
# Paths in the events of a trace

The fields of an event are in two arenas: what belongs to the event in its own, the header and the context of
its packet in that of the packet.  No block is in both.  If no name in the metadata has a dot, all that is
decoded is tidy, and then the paths in an event are exact: the path to a field leads to that field, and an
absolute path leads nowhere else than its names say (`Event.field?_navigates`).

A block that has been decoded stays as it is while the others are decoded, so it is enough that each step over
a block leaves a tidy block behind (`DecodeState.Tidied.adds`).
-/

namespace CommonTrace

open DecodeM DecodeState

/-! ## Layouts -/

/-- Whether no member of a structure and no alternative of a variant has a dot in its name. -/
def Metadata.dotless (metadata : Metadata) : Bool :=
  metadata.layouts.all FieldType.dotless

/-- A block with a layout is a structure with names for paths. -/
def BlockNavigable (t : Option FieldType) : Prop :=
  ∀ u ∈ t, u.isStruct = true ∧ u.Navigable

/-- The layouts of a stream and of its events are structures with names for paths. -/
def StreamSchema.LayoutsNavigable (stream : StreamSchema) : Prop :=
  ∀ t ∈ stream.layouts, t.isStruct = true ∧ t.Navigable

section Layouts

variable {metadata : Metadata} {stream : StreamSchema}

lemma Metadata.Accepted.navigable (h : metadata.Accepted) (hdotless : metadata.dotless = true) {t : FieldType}
    (ht : t ∈ metadata.layouts) : t.isStruct = true ∧ t.Navigable := by
  have hlayout := h.isLayout ht
  exact ⟨hlayout.isStruct, hlayout.wellFormed.navigable hlayout.isTagged (List.all_eq_true.mp hdotless t ht)⟩

lemma Metadata.Accepted.packetHeader_navigable (h : metadata.Accepted)
    (hdotless : metadata.dotless = true) : BlockNavigable metadata.packetHeader :=
  fun _ hu => h.navigable hdotless (List.mem_append_left _ (Option.mem_toList.mpr hu))

lemma Metadata.Accepted.layoutsNavigable (h : metadata.Accepted) (hdotless : metadata.dotless = true)
    {key : ℕ} (hstream : (key, stream) ∈ metadata.streams.entries) : stream.LayoutsNavigable := by
  intro t ht
  refine h.navigable hdotless (List.mem_append_right _ (List.mem_flatMap.mpr ⟨stream, ?_, ht⟩))
  exact List.mem_map.mpr ⟨_, hstream, rfl⟩

namespace StreamSchema.LayoutsNavigable

variable (h : stream.LayoutsNavigable)

include h

lemma packetContext : BlockNavigable stream.packetContext :=
  fun _ hu => h _ (by simp [layouts, Option.mem_def.mp hu])

lemma eventHeader : BlockNavigable stream.eventHeader :=
  fun _ hu => h _ (by simp [layouts, Option.mem_def.mp hu])

lemma eventContext : BlockNavigable stream.eventContext :=
  fun _ hu => h _ (by simp [layouts, Option.mem_def.mp hu])

lemma event {event : EventSchema} (hevent : event ∈ stream.eventList) {t : FieldType}
    (ht : t ∈ event.layouts) : t.isStruct = true ∧ t.Navigable :=
  h t (List.mem_append_right _ (List.mem_flatMap.mpr ⟨event, hevent, ht⟩))

lemma context {event : EventSchema} (hevent : event ∈ stream.eventList) : BlockNavigable event.context :=
  fun _ hu => h.event hevent (List.mem_append_left _ (Option.mem_toList.mpr hu))

lemma fields {event : EventSchema} (hevent : event ∈ stream.eventList) : BlockNavigable event.fields :=
  fun _ hu => h.event hevent (List.mem_append_right _ (Option.mem_toList.mpr hu))

end StreamSchema.LayoutsNavigable

end Layouts

/-! ## Decoding blocks -/

namespace DecodeState

variable {limit : ℕ} {a : Arena} {block : StaticScope} {blocks : List StaticScope}
  {t : Option FieldType} {s s' : DecodeState}

/-- The blocks that have been decoded up to a state are among the given ones, and what they hold is tidy in
the arena `a`. -/
def Tidied (a : Arena) (blocks : List StaticScope) (s : DecodeState) : Prop :=
  ∀ block scope, s.scopes.arena.block? block = some scope → block ∈ blocks ∧ a.Tidy (.struct scope)

lemma tidied_of_empty (a : Arena) (h : s.scopes.arena = .empty) : s.Tidied a [] := by
  intro block scope hscope
  rw [h] at hscope
  cases hscope

/-- **A step over a block leaves a tidy block behind**, and the others as they were. -/
lemma Tidied.adds (h : s.Tidied a blocks) (hadds : Adds limit block t s s') (ht : BlockNavigable t)
    (hkeeps : a.Keeps s s') : s'.Tidied a (block :: blocks) := by
  have hbefore : ∀ other scope, s.scopes.arena.block? other = some scope →
      other ∈ block :: blocks ∧ a.Tidy (.struct scope) := fun other scope hscope =>
    ⟨List.mem_cons_of_mem _ (h other scope hscope).1, (h other scope hscope).2⟩
  intro other scope hscope
  by_cases hother : other = block
  · cases hadds with
    | missing => exact hbefore other scope hscope
    | decoded hdecode =>
      rw [FieldType.block?_of_decodeBlock hdecode, if_pos hother] at hscope
      cases hscope
      obtain ⟨hstruct, hnavigable⟩ := ht _ rfl
      exact ⟨hother ▸ List.mem_cons_self, FieldType.tidy_of_decodeBlock hdecode hstruct hnavigable hkeeps⟩
  · rw [hadds.block?_of_ne hother] at hscope
    exact hbefore other scope hscope

end DecodeState

/-- The blocks of a packet, latest first. -/
def Packet.ownBlocks : List StaticScope :=
  [.streamPacketContext, .tracePacketHeader]

/-- The blocks of an event, latest first. -/
def Event.ownBlocks : List StaticScope :=
  [.eventFields, .eventContext, .streamEventContext, .streamEventHeader]

/-- **What stands before the events of a packet is tidy**, and the layouts of its stream have names for paths. -/
lemma PacketHead.tidyBlocks_of_ofBytes {metadata : Metadata} {options : ReadOptions} {data : ByteArray}
    {head : PacketHead} (h : ofBytes metadata options data = .ok head) (haccepted : metadata.Accepted)
    (hdotless : metadata.dotless = true) :
    head.stream.LayoutsNavigable ∧ head.scopes.TidyBlocks Packet.ownBlocks := by
  obtain ⟨s, s₁, s₂, hempty, hheader, ⟨key, hstream⟩, hcontext, hscopes⟩ := exists_steps_of_ofBytes h
  have hlayouts := haccepted.layoutsNavigable hdotless hstream
  have hkeeps := hcontext.keepsScopes
  have hnone := tidied_of_empty s₂.scopes.arena (congrArg ScopeChain.arena hempty)
  have hone := hnone.adds hheader (haccepted.packetHeader_navigable hdotless) (hkeeps.keeps s)
  have htwo := hone.adds hcontext hlayouts.packetContext (KeepsScopes.keeps (.refl s₂) s₁)
  rw [hscopes]
  exact ⟨hlayouts, htwo⟩

/-- **An event that is decoded is tidy.** -/
lemma Event.tidyBlocks_of_decode {limit : ℕ} {packet : Packet} {header : EventHeader}
    {schema : EventSchema} {s s' : DecodeState} (h : decode limit packet s = .ok (header, schema) s')
    (hempty : s.scopes.arena = .empty) (hlayouts : packet.stream.LayoutsNavigable) :
    s'.scopes.arena.TidyBlocks ownBlocks ∧ s'.scopes.outer = s.scopes.outer := by
  obtain ⟨s₁, s₂, s₃, hschema, ⟨hheader, hkeeps⟩, ⟨hcontext, hkeeps₁⟩, ⟨hown, hkeeps₂⟩, hfields, hkeeps₃⟩ :=
    exists_kept_of_decode h
  have hevent := StreamSchema.mem_of_event? hschema
  have hnone := tidied_of_empty s'.scopes.arena hempty
  have hone := hnone.adds hheader hlayouts.eventHeader hkeeps
  have htwo := hone.adds hcontext hlayouts.eventContext hkeeps₁
  have hthree := htwo.adds hown (hlayouts.context hevent) hkeeps₂
  refine ⟨hthree.adds hfields (hlayouts.fields hevent) hkeeps₃, ?_⟩
  rw [hfields.outer_eq, hown.outer_eq, hcontext.outer_eq, hheader.outer_eq]

/-- **A marker of lost events is tidy.** -/
lemma LostEvents.tidyBlocks_scopes (lost : LostEvents) (packet : Arena) :
    (lost.scopes packet).arena.TidyBlocks Event.ownBlocks := by
  intro block scope hscope
  have hblock : block = .eventFields ∧ 0 = scope := by
    cases block with
    | eventFields => exact ⟨rfl, Option.some.inj hscope⟩
    | _ => cases hscope
  obtain ⟨rfl, rfl⟩ := hblock
  have hfields : (lost.scopes packet).arena.fields 0 = lost.payload := rfl
  refine ⟨by decide, .struct ?_ ?_ ?_⟩
  · rw [hfields]
    exact (by decide : ["lost_events", "duration"].Nodup)
  · rw [hfields]
    have hsegment : IsSegment "lost_events" ∧ IsSegment "duration" :=
      ⟨⟨by decide, by decide⟩, by decide, by decide⟩
    intro f hf
    simp only [payload, List.mem_cons, List.not_mem_nil, or_false] at hf
    rcases hf with rfl | rfl
    · exact hsegment.1
    · exact hsegment.2
  · rw [hfields]
    intro f hf
    simp only [payload, List.mem_cons, List.not_mem_nil, or_false] at hf
    rcases hf with rfl | rfl <;> exact .leaf rfl

/-! ## Events of a trace -/

/-- The blocks of a packet and of an event are different ones. -/
lemma navigable_of_ownBlocks {scopes : ScopeChain} {packet : Arena}
    (hown : scopes.arena.TidyBlocks Event.ownBlocks) (houter : scopes.outer = [packet])
    (hpacket : packet.TidyBlocks Packet.ownBlocks) : scopes.Navigable := by
  obtain ⟨arena, outer⟩ := scopes
  subst houter
  exact ScopeChain.navigable_of_tidyBlocks hown hpacket (by decide) (by decide)

namespace PacketReader

variable {metadata : Metadata} {limit : ℕ} {r : PacketReader} {event : Event}

/-- **Paths find their way in every event of a packet**, if that is tidy. -/
lemma navigable_of_mem_toList (hmem : .ok event ∈ r.toList metadata limit)
    (hpacket : r.packet.scopes.TidyBlocks Packet.ownBlocks)
    (hlayouts : r.packet.stream.LayoutsNavigable) :
    event.scopes.outer = [r.packet.scopes] ∧ event.scopes.Navigable := by
  rcases marker_or_decodeEvent_of_mem_toList hmem with rfl | ⟨r₀, r₁, heq, hdecode⟩
  · exact ⟨rfl, navigable_of_ownBlocks (LostEvents.tidyBlocks_scopes _ _) rfl hpacket⟩
  · rw [← heq] at hpacket hlayouts ⊢
    unfold decodeEvent at hdecode
    dsimp only at hdecode
    split at hdecode
    · rename_i header schema s hdecoded
      cases hdecode
      obtain ⟨htidy, houter⟩ := Event.tidyBlocks_of_decode hdecoded rfl hlayouts
      exact ⟨houter, navigable_of_ownBlocks htidy houter hpacket⟩
    · cases hdecode

end PacketReader

/-- **What a reader has read is an event of one of its files.** -/
lemma TraceReader.Reachable.exists_of_current {trace : Trace} {r : TraceReader} (h : Reachable trace r)
    {event : Event} (hcurrent : r.current = some event) :
    ∃ file ∈ trace.files, .ok event ∈ trace.fileEvents file := by
  cases h with
  | fresh => cases hcurrent
  | @advance r h =>
    unfold TraceReader.advance at hcurrent
    split at hcurrent
    · cases hcurrent
    · rename_i result i hnext
      cases result with
      | error error => cases hcurrent
      | ok event' =>
        cases hcurrent
        unfold next? at hnext
        split at hnext
        · cases hnext
        · obtain ⟨⟨_, _⟩, hearliest, heq⟩ := Option.map_eq_some_iff.mp hnext
          cases heq
          obtain ⟨c, hc, hhead⟩ := mem_candidates.mp (earliest?_mem hearliest)
          refine h.exists_of_mem_pending (List.mem_of_getElem? hc) ?_
          rw [FileReader.pending_of_event hhead]
          exact List.mem_cons_self
  | takeEvent => cases hcurrent
  | seek => cases hcurrent

/-- **Where an event that has been read comes from**: a reader of a packet of one of the files has given it, and the
packet has been made of its head. -/
lemma TraceReader.Reachable.exists_origin {place : String} {metadata : Metadata}
    {files : List (String × ByteArray)} {options : ReadOptions} {trace : Trace}
    (htrace : Trace.ofFiles place metadata files options = .ok trace) {r : TraceReader} (h : Reachable trace r)
    {event : Event} (hcurrent : r.current = some event) :
    ∃ file ∈ trace.files, ∃ index head, ∃ reader : PacketReader,
      file.packets[index]? = some (.ok reader.packet) ∧
      .ok event ∈ trace.entryEvents file index (.ok reader.packet) ∧
      reader.packet.FromHead metadata trace.options file.data head ∧
      .ok event ∈ reader.toList metadata trace.options.lengthLimit := by
  obtain ⟨rfl, hlocated⟩ := Trace.located_of_ofFiles htrace
  obtain ⟨file, hfile, hevent⟩ := h.exists_of_current hcurrent
  obtain ⟨index, packet, hpacket, hevent⟩ := Trace.exists_packet_of_mem_fileEvents hevent
  obtain ⟨reader, hopen, hmem⟩ := Trace.exists_reader_of_mem_entryEvents hevent
  have hindexed := List.mem_of_getElem? hpacket
  rw [hlocated file hfile] at hindexed
  obtain ⟨head, hhead⟩ := PacketIndex.exists_head_of_mem (PacketIndex.mem_packets.mpr hindexed)
  obtain rfl := PacketReader.packet_of_ofPacket hopen
  exact ⟨file, hfile, index, head, reader, hpacket, hevent, hhead, hmem⟩

/-- **Paths in an event are exact**, wherever in a trace it has been read, if no name in the metadata has a
dot.  The arena around that of the event is that of its packet.  A path of the names that lead to a field, from
a block of the event or of its packet, leads to that field.  And an absolute path leads nowhere else than its
names do, though it may leave out selections whose alternatives are structures. -/
theorem Event.field?_navigates {root : Tsdl.Node} {metadata : Metadata}
    (hmetadata : Metadata.ofTree root = .ok metadata) (hdotless : metadata.dotless = true) {place : String}
    {files : List (String × ByteArray)} {options : ReadOptions} {trace : Trace}
    (htrace : Trace.ofFiles place metadata files options = .ok trace) {r : TraceReader}
    (hr : TraceReader.Reachable trace r) {event : Event} (hcurrent : r.current = some event) :
    (∃ file ∈ trace.files, ∃ index packet, file.packets[index]? = some (.ok packet) ∧
        .ok event ∈ trace.entryEvents file index (.ok packet) ∧ event.scopes.outer = [packet.scopes]) ∧
      (∀ block names g, event.scopes.Reaches Arena.Step block names g →
        event.field? (".".intercalate (block.path :: names)) = some g) ∧
      ∀ text path block g, FieldPath.ofString? text = some path → path.anchor = .absolute block →
        event.field? text = some g →
          ∃ names, text = ".".intercalate (block.path :: names) ∧
            event.scopes.Reaches Arena.LooseStep block names g := by
  have haccepted := (Metadata.accepted_of_ofTree hmetadata).1
  obtain ⟨file, hfile, index, head, reader, hpacket, hevent, hhead, hmem⟩ := hr.exists_origin htrace hcurrent
  obtain ⟨hlayouts, htidy⟩ := PacketHead.tidyBlocks_of_ofBytes hhead.decoded haccepted hdotless
  rw [← hhead.stream_eq] at hlayouts
  rw [← hhead.scopes_eq] at htidy
  obtain ⟨houter, hnavigable⟩ := PacketReader.navigable_of_mem_toList hmem htidy hlayouts
  exact ⟨⟨file, hfile, index, _, hpacket, hevent, houter⟩,
    fun _ _ _ hreach => hnavigable.lookup?_eq hreach,
    fun _ _ _ _ hpath hanchor hlookup => hnavigable.reaches_of_lookup? hpath hanchor hlookup⟩

section Example

open Tsdl

/-- A tree with a number in the context of packets, and with events in which a text selects the alternative of a
variant. -/
def taggedPoint : Node :=
  .block .root
    [.block .stream [.type "packet.context" (.struct [.member (.integer "8") "cpu" []])],
      .block .event
        [.value "name" (.word .unaryString "e"),
          .type "fields" (.struct
            [.member (.block .string []) "kind" [],
              .member (.block .variant
                [.block .variantTag [.word .unaryString "kind"],
                  .block .variantBody
                    [.member (.struct [.member (.integer "8") "x" []]) "point" []]]) "shape" []])]]

/-- A file with one event of such a tree: behind the number 3 the text "point" and a point. -/
def pointFile : ByteArray :=
  ⟨#[3, 112, 111, 105, 110, 116, 0, 7]⟩

/-- Whether the selection of a variant is "point", with a member "x" inside. -/
def holdsPoint (a : Arena) (f : Field) : Bool :=
  match f.value with
  | .variant selection inner => match inner.value with
    | .struct scope => selection == "point" && (a.fields scope).any (·.name == "x")
    | _ => false
  | _ => false

lemma leads_of_holdsPoint {a : Arena} {f : Field} (h : holdsPoint a f = true) :
    ∃ g, Arena.Leads a.Step f ["point", "x"] g := by
  unfold holdsPoint at h
  split at h
  · rename_i selection inner hvalue
    split at h
    · rename_i scope hstruct
      obtain ⟨hselection, hx⟩ := (Bool.and_eq_true _ _).mp h
      obtain ⟨g, hg, hname⟩ := List.any_eq_true.mp hx
      obtain rfl := eq_of_beq hselection
      have hstep := Arena.Step.member hstruct hg
      rw [eq_of_beq hname] at hstep
      exact ⟨g, .on (.selected hvalue) (.on hstep (.here g))⟩
    · cases h
  · cases h

/-- What is to be found in the event. -/
def showsPoint (event : Event) : Bool :=
  (event.field? "event.fields.shape.x").isSome &&
    (event.scopes.arena.block? .eventFields).any fun scope =>
      (event.scopes.arena.fields scope).any fun f => f.name == "shape" && holdsPoint event.scopes.arena f

theorem field?_navigates_taggedPoint : ∃ metadata trace r event g inside,
    Metadata.ofTree taggedPoint = .ok metadata ∧ metadata.dotless = true ∧
      Trace.ofFiles "" metadata [("points", pointFile)] {} = .ok trace ∧
      TraceReader.Reachable trace r ∧ r.current = some event ∧
      event.scopes.Reaches Arena.Step .eventFields ["shape", "point", "x"] g ∧
      event.field? "event.fields.shape.point.x" = some g ∧
      event.field? "event.fields.shape.x" = some inside ∧
      ∃ names, "event.fields.shape.x" = ".".intercalate ("event.fields" :: names) ∧
        event.scopes.Reaches Arena.LooseStep .eventFields names inside := by
  have hread : (Metadata.ofTree taggedPoint).toOption.any (fun metadata => metadata.dotless &&
      (Trace.ofFiles "" metadata [("points", pointFile)] {}).toOption.any fun trace =>
        trace.reader.advance.2.current.any showsPoint) = true := by
    decide +kernel
  obtain ⟨metadata, hsome, hread⟩ := (Option.any_eq_true _ _).mp hread
  obtain ⟨hdotless, hread⟩ := (Bool.and_eq_true _ _).mp hread
  obtain ⟨trace, htrace, hread⟩ := (Option.any_eq_true _ _).mp hread
  obtain ⟨event, hcurrent, hshows⟩ := (Option.any_eq_true _ _).mp hread
  obtain ⟨hinside, hshows⟩ := (Bool.and_eq_true _ _).mp hshows
  obtain ⟨inside, hinside⟩ := Option.isSome_iff_exists.mp hinside
  obtain ⟨scope, hscope, hshows⟩ := (Option.any_eq_true _ _).mp hshows
  obtain ⟨f, hf, hshows⟩ := List.any_eq_true.mp hshows
  obtain ⟨hname, hpoint⟩ := (Bool.and_eq_true _ _).mp hshows
  obtain ⟨g, hleads⟩ := leads_of_holdsPoint hpoint
  have hmetadata := eq_ok_of_toOption hsome
  have htrace := eq_ok_of_toOption htrace
  have hreachable : TraceReader.Reachable trace trace.reader.advance.2 := .advance .fresh
  obtain ⟨-, hthere, hback⟩ := Event.field?_navigates hmetadata hdotless htrace hreachable hcurrent
  have hreaches : event.scopes.Reaches Arena.Step .eventFields ["shape", "point", "x"] g :=
    ⟨_, List.mem_cons_self, scope, hscope, f, hf, _, by rw [eq_of_beq hname], hleads⟩
  have hpath : FieldPath.ofString? "event.fields.shape.x" =
      some ⟨.absolute .eventFields, "shape", ["x"]⟩ := by decide +kernel
  exact ⟨metadata, trace, _, event, g, inside, hmetadata, hdotless, htrace, hreachable, hcurrent, hreaches,
    hthere _ _ _ hreaches, hinside, hback _ _ _ _ hpath rfl hinside⟩

end Example

end CommonTrace
