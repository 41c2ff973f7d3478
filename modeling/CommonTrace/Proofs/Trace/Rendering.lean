import CommonTrace.Proofs.Field.Rendering
import CommonTrace.Proofs.Schema.BoundEvents
import CommonTrace.Proofs.Trace.Navigation

/-!
# JSON forms of the events of a trace

Whatever is in an event is in its JSON form, and once: a member for each block that has been decoded, in it a
member for each field, and so on through structures, alternatives and elements (`Arena.Rendered`).  The form
loses nothing but the numbers that have no JSON form.  Two events of the same kind and stream with equal forms of
their blocks have the same contents (`Event.toJson_faithful`).

An event with a declaration has the blocks for which there are layouts, and a marker of lost events has its
payload only (`Event.layout?`).  That each block has the shape of its layout is kept by every step over a block
(`DecodeState.Laid.adds`).
-/

namespace CommonTrace

open DecodeM DecodeState

/-! ## The blocks of an event -/

/-- The blocks of an event by the names of their members in its JSON form. -/
def Event.blockNames : List (String × StaticScope) :=
  [("header", .streamEventHeader), ("stream_context", .streamEventContext), ("context", .eventContext),
    ("fields", .eventFields)]

/-- The layout of a block of events of a kind. -/
def StreamSchema.layout? (stream : StreamSchema) (schema : EventSchema) : StaticScope → Option FieldType
  | .streamEventHeader => stream.eventHeader
  | .streamEventContext => stream.eventContext
  | .eventContext => schema.context
  | .eventFields => schema.fields
  | _ => none

/-- The layout of a block of an event.  A marker has its payload only. -/
def Event.layout? (event : Event) (stream : StreamSchema) (block : StaticScope) : Option FieldType :=
  if event.lost = none ∨ block = .eventFields then stream.layout? event.schema block else none

lemma Event.layout?_eq_some {event : Event} {stream : StreamSchema} {block : StaticScope} {t : FieldType}
    (h : event.layout? stream block = some t) : stream.layout? event.schema block = some t := by
  unfold layout? at h
  split at h
  · exact h
  · cases h

/-- If what is made of two optional values is related, so are they themselves. -/
lemma rel_of_rel_map {α β γ δ : Type} {R : γ → δ → Prop} {S : α → β → Prop} {f : α → γ} {g : β → δ}
    {a : Option α} {b : Option β} (h : Option.Rel R (a.map f) (b.map g))
    (hrel : ∀ x ∈ a, ∀ y ∈ b, R (f x) (g y) → S x y) : Option.Rel S a b := by
  cases a with
  | none =>
    cases b with
    | none => exact .none
    | some y => cases h
  | some x =>
    cases b with
    | none => cases h
    | some y =>
      cases h with
      | some hxy => exact .some (hrel x rfl y rfl hxy)

namespace DecodeState

variable {limit : ℕ} {a : Arena} {block : StaticScope} {t : Option FieldType} {s s' : DecodeState}
  {layout : StaticScope → Option FieldType} {clocks : Set String}

/-- The blocks that have been decoded up to a state are those with a layout.  Each of them has the shape of its
layout in the arena `a`, and lies in no other scope there. -/
def Laid (a : Arena) (layout : StaticScope → Option FieldType) (s : DecodeState) : Prop :=
  ∀ block, Option.Rel (fun t scope => a.Typed t (.struct scope) ∧ a.parent? scope = none) (layout block)
    (s.scopes.arena.block? block)

lemma laid_of_empty (a : Arena) (h : s.scopes.arena = .empty) : s.Laid a fun _ => none := by
  intro block
  rw [h]
  exact .none

/-- The scope of a block that has been decoded lies in no other one. -/
lemma parent?_of_decodeBlock {t : FieldType} {scope : ScopeId} (h : t.decodeBlock limit block s = .ok scope s')
    (hkeeps : a.Keeps s s') : a.parent? scope = none := by
  obtain ⟨rfl, hcontents⟩ := FieldType.of_decodeBlock_ok h
  have hopened := s.scopes.nextScope_lt_openedBlock block
  have hgrows := (t.decodeContents_grows limit block _).of_ok hcontents
  have hkept := hkeeps s.scopes.nextScope (Nat.le_refl _) (Nat.lt_of_lt_of_le hopened hgrows.size)
  rw [Arena.parent?_congr hkept, hgrows.parent _ hopened]
  simp [ScopeChain.nextScope, ScopeChain.openedBlock, Arena.openBlock, Arena.parent?]

/-- **A step over a block leaves the block behind in the shape of its layout**, and the others as they were. -/
lemma Laid.adds (h : s.Laid a layout) (hadds : Adds limit block t s s') (ht : BlockLaidOut clocks t)
    (hnew : layout block = none) (hkeeps : a.Keeps s s') : s'.Laid a (Function.update layout block t) := by
  intro other
  by_cases hother : other = block
  · subst hother
    rw [Function.update_self]
    cases hadds with
    | missing =>
      have hsame := h other
      rwa [hnew] at hsame
    | decoded hdecode =>
      rw [FieldType.block?_of_decodeBlock hdecode, if_pos rfl]
      exact .some ⟨FieldType.typed_of_decodeBlock hdecode (ht _ rfl) hkeeps,
        parent?_of_decodeBlock hdecode hkeeps⟩
  · rw [Function.update_of_ne hother, hadds.block?_of_ne hother]
    exact h other

lemma Adds.forest (h : Adds limit block t s s') (hforest : s.scopes.arena.Forest) :
    s'.scopes.arena.Forest := by
  cases h with
  | missing => exact hforest
  | @decoded t _ _ _ hdecode =>
    have hfinal := FieldType.forest_of_decodeBlock limit t block hforest
    rwa [final, hdecode] at hfinal

end DecodeState

/-- **What is in the arena of an event**: for each block with a layout a scope, which has the shape of the layout
and lies in no other scope. -/
structure Event.Laid (stream : StreamSchema) (event : Event) : Prop where
  forest : event.scopes.arena.Forest
  blocks : ∀ block, Option.Rel (fun t scope => event.scopes.arena.Typed t (.struct scope) ∧
    event.scopes.arena.parent? scope = none) (event.layout? stream block) (event.scopes.arena.block? block)

/-- **The blocks of an event that is decoded are laid out as declared.** -/
lemma Event.laid_of_decode {limit : ℕ} {packet : Packet} {header : EventHeader} {schema : EventSchema}
    {s s' : DecodeState} {clocks : Set String} (h : decode limit packet s = .ok (header, schema) s')
    (hempty : s.scopes.arena = .empty) (hstream : packet.stream.LaidOut clocks) (metadata : Metadata)
    (cycles : ℕ) : (ofDecoded metadata packet header schema cycles s'.scopes).Laid packet.stream := by
  obtain ⟨s₁, s₂, s₃, hschema, ⟨hheader, hkeeps⟩, ⟨hcontext, hkeeps₁⟩, ⟨hown, hkeeps₂⟩, hfields, hkeeps₃⟩ :=
    exists_kept_of_decode h
  have hevent := hstream.events schema (StreamSchema.mem_of_event? hschema)
  have hnone := laid_of_empty s'.scopes.arena hempty
  have hone := hnone.adds hheader hstream.eventHeader rfl hkeeps
  have htwo := hone.adds hcontext hstream.eventContext rfl hkeeps₁
  have hthree := htwo.adds hown hevent.context rfl hkeeps₂
  have hall := hthree.adds hfields hevent.fields rfl hkeeps₃
  refine ⟨hfields.forest (hown.forest (hcontext.forest (hheader.forest ?_))), fun block => ?_⟩
  · rw [hempty]
    exact .empty
  · have hblock := hall block
    cases block <;> exact hblock

/-- The structure of a marker holds numbers only. -/
lemma LostEvents.forest_scopes (lost : LostEvents) (packet : Arena) : (lost.scopes packet).arena.Forest := by
  let opened := (Arena.empty.openBlock .eventFields).2
  have hopened : opened.Forest := Arena.Forest.empty.openBlock .eventFields
  have hone : (opened.insert 0 (counter "lost_events" lost.count)).Forest :=
    hopened.insert Nat.zero_lt_one Nat.zero_lt_one .nil fun _ hi => absurd hi List.not_mem_nil
  have htwo : ((opened.insert 0 (counter "lost_events" lost.count)).insert 0
      (counter "duration" lost.duration)).Forest :=
    hone.insert Nat.zero_lt_one Nat.zero_lt_one .nil fun _ hi => absurd hi List.not_mem_nil
  exact htwo

/-- The numbers of a marker are of the type that its schema says. -/
lemma LostEvents.typed_scopes (lost : LostEvents) (packet : Arena) :
    (lost.scopes packet).arena.Typed
      (.struct 1 [("lost_events", counterType), ("duration", counterType)]) (.struct 0) := by
  have hfields : (lost.scopes packet).arena.fields 0 = lost.payload := rfl
  have hcounter (n : ℕ) : (lost.scopes packet).arena.Typed counterType
      (.integer { value := n, width := 64, signed := false }) := .integer rfl rfl
  refine .struct ?_ (by decide) ?_
  · rw [hfields]
    rfl
  · rw [hfields]
    exact List.forall_mem_cons.mpr ⟨hcounter _, List.forall_mem_singleton.mpr (hcounter _)⟩

/-- **A marker of lost events has its payload only.** -/
lemma Event.laid_marker (metadata : Metadata) (packet : Packet) (stream : StreamSchema) :
    (marker metadata packet).Laid stream := by
  refine ⟨LostEvents.forest_scopes _ _, fun block => ?_⟩
  cases block with
  | eventFields => exact .some ⟨LostEvents.typed_scopes _ _, rfl⟩
  | _ => exact .none

/-! ## Members of an event -/

namespace Event

variable (event : Event)

lemma map_fst_blockMember_sublist (name : String) (block : StaticScope) :
    ((event.blockMember name block).map Prod.fst).Sublist [name] := by
  unfold blockMember
  split
  · exact .refl _
  · exact List.nil_sublist _

lemma map_fst_cpuMember_sublist : (event.cpuMember.map Prod.fst).Sublist ["cpu_id"] := by
  unfold cpuMember
  split
  · exact .refl _
  · exact List.nil_sublist _

lemma map_fst_timeMember_sublist : (event.timeMember.map Prod.fst).Sublist ["time"] := by
  unfold timeMember
  split
  · exact .refl _
  · exact List.nil_sublist _

/-- **No member of an event takes the place of another.** -/
lemma exists_members_toJson :
    ∃ members, event.toJson = .object members ∧ (members.map Prod.fst).Nodup := by
  have hall : ["name", "id", "stream_id", "timestamp", "cycles", "cpu_id", "time", "header", "stream_context",
      "context", "fields"].Nodup := by decide
  refine ⟨_, rfl, List.Nodup.sublist ?_ hall⟩
  simp only [List.map_append]
  exact ((((((List.Sublist.refl _).append event.map_fst_cpuMember_sublist).append
    event.map_fst_timeMember_sublist).append (event.map_fst_blockMember_sublist _ _)).append
    (event.map_fst_blockMember_sublist _ _)).append (event.map_fst_blockMember_sublist _ _)).append
    (event.map_fst_blockMember_sublist _ _)

lemma lookup_eq_none_of_sublist {members : List (String × Json)} {name other : String}
    (h : (members.map Prod.fst).Sublist [other]) (hne : name ≠ other) : members.lookup name = none := by
  refine List.lookup_eq_none_iff.mpr fun member hmember => ?_
  have hmem := h.subset (List.mem_map_of_mem hmember)
  rw [List.mem_singleton.mp hmem]
  exact bne_iff_ne.mpr hne

lemma lookup_blockMember (name other : String) (block : StaticScope) :
    (event.blockMember name block).lookup other =
      if other = name then (event.scopes.arena.block? block).map event.scopes.arena.scopeToJson else none := by
  split
  · rename_i heq
    subst heq
    unfold blockMember
    cases event.scopes.arena.block? block with
    | none => rfl
    | some scope => exact List.lookup_cons_self
  · rename_i hne
    exact lookup_eq_none_of_sublist (event.map_fst_blockMember_sublist _ _) hne

/-- The member for a block has the form of the block's scope. -/
lemma member?_toJson {named : String × StaticScope} (h : named ∈ blockNames) :
    event.toJson.member? named.1 =
      (event.scopes.arena.block? named.2).map event.scopes.arena.scopeToJson := by
  have hcpu (name) (hne : name ≠ "cpu_id") : event.cpuMember.lookup name = none :=
    lookup_eq_none_of_sublist event.map_fst_cpuMember_sublist hne
  have htime (name) (hne : name ≠ "time") : event.timeMember.lookup name = none :=
    lookup_eq_none_of_sublist event.map_fst_timeMember_sublist hne
  simp only [blockNames, List.mem_cons, List.not_mem_nil, or_false] at h
  rcases h with rfl | rfl | rfl | rfl <;>
    simp [toJson, Json.member?, List.lookup_append, List.lookup_cons, lookup_blockMember, hcpu, htime]

end Event

/-! ## Events of a trace -/

/-- An event that a reader of some trace with this metadata comes to. -/
def Metadata.Yields (metadata : Metadata) (event : Event) : Prop :=
  ∃ place files options trace r, Trace.ofFiles place metadata files options = .ok trace ∧
    TraceReader.Reachable trace r ∧ r.current = some event

/-- **Every event of a trace is laid out as its stream declares.** -/
lemma Metadata.Accepted.exists_stream_of_yields {metadata : Metadata} (h : metadata.Accepted) {event : Event}
    (hevent : metadata.Yields event) :
    ∃ key stream, (key, stream) ∈ metadata.streams.entries ∧ event.streamId = stream.id.getD 0 ∧
      event.Laid stream := by
  obtain ⟨place, files, options, trace, r, htrace, hr, hcurrent⟩ := hevent
  obtain ⟨file, -, index, head, reader, -, -, hhead, hmem⟩ := hr.exists_origin htrace hcurrent
  obtain ⟨-, -, -, -, -, ⟨key, hstream⟩, -, -⟩ := PacketHead.exists_steps_of_ofBytes hhead.decoded
  have hlaid := h.streams _ hstream
  rw [← hhead.stream_eq] at hstream hlaid
  have hid := hhead.streamId_eq
  rw [← hhead.stream_eq] at hid
  refine ⟨key, reader.packet.stream, hstream, ?_⟩
  rcases PacketReader.marker_or_decodeEvent_of_mem_toList hmem with rfl | ⟨r₀, r₁, heq, hdecode⟩
  · exact ⟨hid, Event.laid_marker _ _ _⟩
  · rw [← heq] at hid hlaid ⊢
    unfold PacketReader.decodeEvent at hdecode
    dsimp only at hdecode
    split at hdecode
    · rename_i header schema s hdecoded
      cases hdecode
      exact ⟨hid, Event.laid_of_decode hdecoded rfl hlaid metadata _⟩
    · cases hdecode

namespace Event.Laid

variable {stream : StreamSchema} {event event' : Event} {block : StaticScope} {scope scope' : ScopeId}

lemma exists_typed (h : event.Laid stream) (hscope : event.scopes.arena.block? block = some scope) :
    ∃ t, stream.layout? event.schema block = some t ∧ event.scopes.arena.Typed t (.struct scope) ∧
      event.scopes.arena.parent? scope = none := by
  have hblock := h.blocks block
  rw [hscope] at hblock
  generalize hlayout : event.layout? stream block = layout at hblock
  cases hblock with
  | some hboth => exact ⟨_, layout?_eq_some hlayout, hboth⟩

lemma isSome_eq (h : event.Laid stream) (block : StaticScope) :
    (event.scopes.arena.block? block).isSome = (event.layout? stream block).isSome := by
  have hblock := h.blocks block
  generalize event.scopes.arena.block? block = found, event.layout? stream block = layout at hblock ⊢
  cases hblock <;> rfl

/-- The member for a block is what it should be. -/
lemma rendered (h : event.Laid stream) {named : String × StaticScope} (hnamed : named ∈ blockNames) :
    Option.Rel (fun scope j => event.scopes.arena.Rendered (.struct scope) j)
      (event.scopes.arena.block? named.2) (event.toJson.member? named.1) := by
  rw [member?_toJson event hnamed]
  cases hscope : event.scopes.arena.block? named.2 with
  | none => exact .none
  | some scope =>
    obtain ⟨t, -, htyped, -⟩ := h.exists_typed hscope
    exact .some (htyped.rendered h.forest.searchable)

/-- The scope of a block is not that of a structure. -/
lemma notMem_pointers (h : event.Laid stream) (hscope : event.scopes.arena.block? block = some scope) :
    scope ∉ event.scopes.arena.pointers := by
  obtain ⟨-, -, -, hparent⟩ := h.exists_typed hscope
  intro hmem
  obtain ⟨outer, -, hmem⟩ := List.mem_flatMap.mp hmem
  obtain ⟨-, hinside⟩ := h.forest.of_pointsTo (Field.mem_pointersOf.mp hmem)
  rw [hparent] at hinside
  cases hinside

/-- **Blocks of one kind of event with equal forms have the same contents.** -/
lemma alike (h : event.Laid stream) (h' : event'.Laid stream) (hschema : event'.schema = event.schema)
    (hscope : event.scopes.arena.block? block = some scope)
    (hscope' : event'.scopes.arena.block? block = some scope')
    (hsame : (event.scopes.arena.scopeToJson scope).Same (event'.scopes.arena.scopeToJson scope')) :
    event.scopes.arena.Alike event'.scopes.arena (.struct scope) (.struct scope') := by
  obtain ⟨t, hlayout, htyped, -⟩ := h.exists_typed hscope
  obtain ⟨t', hlayout', htyped', -⟩ := h'.exists_typed hscope'
  rw [hschema] at hlayout'
  obtain rfl := Option.some.inj (hlayout.symm.trans hlayout')
  exact htyped.alike htyped' (htyped.rendered h.forest.searchable) (htyped'.rendered h'.forest.searchable)
    hsame

/-- An event has no blocks but those with a name. -/
lemma block?_eq_none (h : event.Laid stream) (hunnamed : block ∉ blockNames.map Prod.snd) :
    event.scopes.arena.block? block = none := by
  by_contra hsome
  obtain ⟨scope, hscope⟩ := Option.ne_none_iff_exists'.mp hsome
  obtain ⟨t, hlayout, -, -⟩ := h.exists_typed hscope
  cases block with
  | streamEventHeader | streamEventContext | eventContext | eventFields => exact hunnamed (by decide)
  | _ => cases hlayout

end Event.Laid

/-- **The JSON form of an event loses nothing**, except for numbers that have no JSON form.

The event has a member for each block that has been decoded, and none for the others.  These are the blocks with a
layout; a marker of lost events has its payload only.  In each block, every field, selected alternative and
element is there once, at its place, and no structure is in two places.

Two events of the same kind and stream whose blocks have equal forms have the same contents, be they from one trace
or from two. -/
theorem Event.toJson_faithful {root : Tsdl.Node} {metadata : Metadata}
    (hmetadata : Metadata.ofTree root = .ok metadata) {event : Event} (hevent : metadata.Yields event) :
    (∃ key stream, (key, stream) ∈ metadata.streams.entries ∧ event.streamId = stream.id.getD 0 ∧
        ∀ block, (event.scopes.arena.block? block).isSome = (event.layout? stream block).isSome) ∧
      (∃ members, event.toJson = .object members ∧ (members.map Prod.fst).Nodup) ∧
      (∀ named ∈ blockNames, Option.Rel (fun scope j => event.scopes.arena.Rendered (.struct scope) j)
        (event.scopes.arena.block? named.2) (event.toJson.member? named.1)) ∧
      event.scopes.arena.pointers.Nodup ∧
      (∀ block scope, event.scopes.arena.block? block = some scope → scope ∉ event.scopes.arena.pointers) ∧
      ∀ event', metadata.Yields event' → event'.streamId = event.streamId → event'.schema = event.schema →
        (∀ named ∈ blockNames,
          Option.Rel Json.Same (event.toJson.member? named.1) (event'.toJson.member? named.1)) →
        ∀ block, Option.Rel
          (fun scope scope' => event.scopes.arena.Alike event'.scopes.arena (.struct scope) (.struct scope'))
          (event.scopes.arena.block? block) (event'.scopes.arena.block? block) := by
  have haccepted := (Metadata.accepted_of_ofTree hmetadata).1
  obtain ⟨key, stream, hstream, hid, hlaid⟩ := haccepted.exists_stream_of_yields hevent
  refine ⟨⟨key, stream, hstream, hid, hlaid.isSome_eq⟩, event.exists_members_toJson,
    fun named hnamed => hlaid.rendered hnamed, hlaid.forest.pointers_nodup,
    fun block scope hscope => hlaid.notMem_pointers hscope, fun event' hevent' hid' hschema hforms block => ?_⟩
  obtain ⟨key', stream', hstream', hid'', hlaid'⟩ := haccepted.exists_stream_of_yields hevent'
  -- a stream is known by its id, so both events are of one stream, and their blocks have the same layouts
  have hsame : (key', stream') = (key, stream) :=
    Metadata.entry_eq_of_id hmetadata hstream' hstream (hid''.symm.trans (hid'.trans hid))
  cases hsame
  by_cases hblock : block ∈ blockNames.map Prod.snd
  · obtain ⟨named, hnamed, rfl⟩ := List.mem_map.mp hblock
    have hform := hforms named hnamed
    rw [event.member?_toJson hnamed, event'.member?_toJson hnamed] at hform
    exact rel_of_rel_map hform fun scope hscope scope' hscope' => hlaid.alike hlaid' hschema hscope hscope'
  · rw [hlaid.block?_eq_none hblock, hlaid'.block?_eq_none hblock]
    exact .none

/-- The form of the payload of an event with a point. -/
def pointForm : Json :=
  .object [("kind", .string "point"), ("shape", .object [("point", .object [("x", .integer 7)])])]

/-- Whether a value is that form. -/
def isPointForm : Json → Bool
  | .object [("kind", .string "point"), ("shape", .object [("point", .object [("x", .integer 7)])])] => true
  | _ => false

lemma eq_of_isPointForm {j : Json} (h : isPointForm j = true) : j = pointForm := by
  unfold isPointForm at h
  split at h
  · rfl
  · cases h

theorem Event.toJson_faithful_taggedPoint : ∃ metadata event scope,
    Metadata.ofTree taggedPoint = .ok metadata ∧ metadata.Yields event ∧
      event.scopes.arena.block? .eventFields = some scope ∧
      event.scopes.arena.Rendered (.struct scope) pointForm ∧
      event.toJson.member? "header" = none ∧
      event.scopes.arena.Alike event.scopes.arena (.struct scope) (.struct scope) := by
  have hread : (Metadata.ofTree taggedPoint).toOption.any (fun metadata =>
      (Trace.ofFiles "" metadata [("points", pointFile)] {}).toOption.any fun trace =>
        trace.reader.advance.2.current.any fun event =>
          (event.scopes.arena.block? .streamEventHeader).isNone &&
            (event.toJson.member? "fields").any isPointForm) = true := by
    decide +kernel
  obtain ⟨metadata, hsome, hread⟩ := (Option.any_eq_true _ _).mp hread
  obtain ⟨trace, htrace, hread⟩ := (Option.any_eq_true _ _).mp hread
  obtain ⟨event, hcurrent, hshows⟩ := (Option.any_eq_true _ _).mp hread
  obtain ⟨hheader, hfields⟩ := (Bool.and_eq_true _ _).mp hshows
  obtain ⟨j, hj, hform⟩ := (Option.any_eq_true _ _).mp hfields
  obtain rfl := eq_of_isPointForm hform
  have hmetadata := eq_ok_of_toOption hsome
  have hyields : metadata.Yields event :=
    ⟨_, _, _, trace, _, eq_ok_of_toOption htrace, .advance .fresh, hcurrent⟩
  obtain ⟨-, -, hrendered, -, -, halike⟩ := Event.toJson_faithful hmetadata hyields
  have hself : ∀ named ∈ blockNames,
      Option.Rel Json.Same (event.toJson.member? named.1) (event.toJson.member? named.1) := by
    intro named _
    cases event.toJson.member? named.1 with
    | none => exact .none
    | some j => exact .some (.refl j)
  have hpayload := hrendered ("fields", .eventFields) (by decide)
  have hnone := hrendered ("header", .streamEventHeader) (by decide)
  have hboth := halike event hyields rfl rfl hself .eventFields
  dsimp only at hpayload hnone
  rw [Option.isNone_iff_eq_none.mp hheader] at hnone
  rw [hj] at hpayload
  generalize hscope : event.scopes.arena.block? .eventFields = found at hpayload hboth
  cases hpayload with
  | some hform =>
    cases hboth with
    | some hsame =>
      refine ⟨metadata, event, _, hmetadata, hyields, hscope, hform, ?_, hsame⟩
      generalize event.toJson.member? "header" = header at hnone
      cases hnone
      rfl

end CommonTrace
