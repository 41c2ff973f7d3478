import CommonTrace.Proofs.Field.Failures
import CommonTrace.Proofs.Packet.Errors
import CommonTrace.Proofs.Packet.Lookups

/-!
# Failures of paths in packets are noted

What `Watched.Accounts` says of a block holds of header and context of a packet
(`PacketHead.exists_of_watchBytes`) and of events (`Event.accounts_watch`), as all their blocks have
passed the check.
-/

namespace CommonTrace

open Watched

variable {limit : ℕ} {earlier : List (StaticScope × FieldType)} {block : StaticScope}
  {t : Option FieldType} {metadata : Metadata} {options : ReadOptions} {data : ByteArray}

/-! ## Header and context -/

namespace PacketHead

lemma accounts_watchDeclared (hpassed : BlockPassed earlier block t) :
    (watchDeclared limit earlier block t).Accounts limit := by
  cases t with
  | none => exact .quiet (.pure _)
  | some t =>
    have hblock : (t.watchBlock limit earlier block).Accounts limit :=
      FieldType.accounts_watchBlock (hpassed t rfl)
    exact .map hblock _

/-- All failures of paths in header and context of a packet are noted. -/
theorem exists_of_watchBytes (h : metadata.Accepted) (hpresent : metadata.streams.entries ≠ [])
    {failure : PathFailure}
    (hfail : (watchBytes metadata options data).1 = .error (.decode (.path failure))) :
    ∃ lookup ∈ (watchBytes metadata options data).2, ∃ s',
      lookup.attempt options.lengthLimit lookup.state = .error (.path failure) s' := by
  unfold watchBytes at hfail ⊢
  dsimp only at hfail ⊢
  split at hfail
  · rename_i error hrun
    cases hfail
    obtain ⟨e, s', heq, hstep⟩ := error_of_run hrun
    cases heq
    exact accounts_watchDeclared (h.headerPassed hpresent) _ _ _ hstep
  · rename_i header state hrun
    split at hfail
    · rename_i error hselect
      cases hfail
      exact absurd hselect selectStream_ne_decode
    · rename_i stream hselect
      obtain ⟨key, hstream⟩ := exists_of_selectStream hselect
      have hcontext := (h.streamPassed hstream).packetContext
      cases hread : run (watchDeclared options.lengthLimit
        (behind .tracePacketHeader metadata.packetHeader []) .streamPacketContext
        stream.packetContext).unwatched state with
      | ok result =>
        rw [hread] at hfail
        cases hfail
      | error error =>
        rw [hread] at hfail
        cases hfail
        obtain ⟨e, s', heq, hstep⟩ := error_of_run hread
        cases heq
        obtain ⟨lookup, hl, hattempt⟩ := accounts_watchDeclared hcontext _ _ _ hstep
        exact ⟨lookup, List.mem_append_right _ hl, hattempt⟩

end PacketHead

/-! ## Events -/

lemma EventHeader.accounts_watch (hpassed : BlockPassed earlier .streamEventHeader t) :
    (EventHeader.watch limit earlier t).Accounts limit := by
  cases t with
  | none => exact .quiet (.pure _)
  | some t =>
    refine .bind (FieldType.accounts_watchBlock (hpassed t rfl)) fun scope => ?_
    exact .bind (.quiet .get) fun s => .quiet (.pure _)

namespace Event

lemma accounts_watchBlock (hpassed : BlockPassed earlier block t) :
    (watchBlock limit earlier block t).Accounts limit := by
  cases t with
  | none => exact .quiet (.pure _)
  | some t =>
    have hblock : (t.watchBlock limit earlier block).Accounts limit :=
      FieldType.accounts_watchBlock (hpassed t rfl)
    exact .bind hblock fun scope => .quiet (.pure _)

/-- All failures of paths in an event are noted. -/
theorem accounts_watch {packet : Packet} (hpassed : StreamPassed metadata packet.stream) :
    (watch limit metadata packet).Accounts limit := by
  refine .bind (.quiet .get) fun s => ?_
  refine .bind (EventHeader.accounts_watch hpassed.eventHeader) fun header => ?_
  refine .bind (accounts_watchBlock hpassed.eventContext) fun _ => ?_
  split
  · exact .quiet (.throw nofun)
  · rename_i event hevent
    have hmem := StreamSchema.mem_of_event? hevent
    refine .bind (accounts_watchBlock (hpassed.context event hmem)) fun _ => ?_
    refine .bind (accounts_watchBlock (hpassed.fields event hmem)) fun _ => ?_
    refine .quiet (.bind .get fun s => ?_)
    split
    · exact .bind (.throw nofun) fun _ => .pure _
    · exact .pure _

end Event

end CommonTrace
