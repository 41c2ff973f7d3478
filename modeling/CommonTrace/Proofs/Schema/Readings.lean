import CommonTrace.Proofs.Schema.BlockComparison
import CommonTrace.Proofs.Schema.Replay

/-!
# Reading blocks again

A block that has been read once gives the same whenever it is read from a table in which the recorded types
are known or can be built: the same result, the same warnings, and the same notes for what it describes itself
(`Globals.Yields`).  What events give does not depend on the other blocks, and the other blocks do not depend
on events, so that the blocks of a tree fall into two accounts (`Globals.Account`).  They tell what is read in
any order that keeps the blocks other than events in place (`Globals.Accounts.replay`).

When the blocks have been read, the names that none of them has used are resolved, and that too comes to the
same from any such table (`Globals.replay_resolveEach`).  So a whole tree gives the same with its events in
another order, up to the order of what is noted (`Globals.readEntered_reordered`).
-/

namespace CommonTrace

open Tsdl TypeTable

namespace Globals

variable {g : Globals} {known : List Record} {α : Type} {table after start finish : TypeTable}

/-! ## Steps -/

/-- **What a step gives** from every table in which the recorded types are known or can be built, unless it
takes too many steps: a result, warnings and notes. -/
def Yields (g : Globals) (known : List Record) (step : BlockM α) (a : α) (warnings : List Warning)
    (noted : Note → ℤ) : Prop :=
  ∀ (passed : List Warning) (table : TypeTable), g.Fit 1 table → g.Ready known table →
    step passed table = .error .chainTooLong ∨
      ∃ after, step passed table = .ok ((a, passed ++ warnings), after) ∧ g.Fit 1 after ∧
        g.Ready known after ∧ net known after - net known table = noted

/-- Two lists that go on in the same way. -/
def Extended (first second : List Warning) (passed passed' : List Warning) : Prop :=
  ∃ more, passed = first ++ more ∧ passed' = second ++ more

lemma keptByWarnings_extended (first second : List Warning) :
    Comparison.KeptByWarnings (Extended first second) := by
  rintro _ _ warning ⟨more, rfl, rfl⟩
  exact ⟨more ++ [warning], List.append_assoc _ _ _, List.append_assoc _ _ _⟩

/-- What a step has given once, it gives again. -/
lemma Yields.of_run {step : BlockM α} {passed passed' : List Warning} {a : α}
    (hstep : ∀ V, Comparison.KeptByWarnings V → (g.replaying known known).SameBlock V [] step step)
    (hfit : g.Fit 1 start) (hready : g.Ready known start) (hsettled : g.Settled known finish)
    (hrun : step passed start = .ok ((a, passed'), finish)) :
    ∃ warnings, passed' = passed ++ warnings ∧
      g.Yields known step a warnings (net known finish - net known start) := by
  have hagain (again : List Warning) (table : TypeTable) (hfit' : g.Fit 1 table)
      (hready' : g.Ready known table) :
      step again table = .error .chainTooLong ∨ ∃ more after, passed' = passed ++ more ∧
        step again table = .ok ((a, again ++ more), after) ∧ g.Fit 1 after ∧ g.Ready known after ∧
          net known after - net known table = net known finish - net known start := by
    have hreplayed := (hstep (Extended passed again) (keptByWarnings_extended passed again) passed again
      ⟨[], (List.append_nil _).symm, (List.append_nil _).symm⟩).replayed start table
      (.nil hfit hfit' hready hready')
    rw [hrun] at hreplayed
    generalize step again table = outcome at hreplayed
    cases hreplayed with
    | unsettled hunsettled => exact absurd hsettled hunsettled
    | stopped => exact .inl rfl
    | @ok _ _ r _ after _ hlinked _ hnet hP =>
      obtain ⟨_, read⟩ := r
      obtain ⟨rfl, more, hmore, hread⟩ := hP
      exact .inr ⟨more, after, hmore, by rw [← hread], hlinked.fit', hlinked.ready', hnet⟩
  rcases hagain passed start hfit hready with hstopped | ⟨warnings, _, hwarnings, -⟩
  · rw [hrun] at hstopped
    cases hstopped
  refine ⟨warnings, hwarnings, fun again table hfit' hready' => ?_⟩
  rcases hagain again table hfit' hready' with hstopped | ⟨more, after, hmore, hok, hrest⟩
  · exact .inl hstopped
  · rw [hwarnings] at hmore
    rw [List.append_cancel_left hmore]
    exact .inr ⟨after, hok, hrest⟩

end Globals

/-! ## Nodes under the root -/

namespace Blocks

/-- The blocks with other events. -/
def withEvents (blocks : Blocks) (events : List EventSchema) : Blocks :=
  { blocks with events }

lemma withEvents_events (blocks : Blocks) : blocks.withEvents blocks.events = blocks := rfl

end Blocks

namespace BlockM

variable {depth : ℕ} {node : Node}

lemma map_apply {α β : Type} (f : α → β) (step : BlockM α) (passed : List Warning) (table : TypeTable) :
    (f <$> step) passed table = (step passed table).map fun r => ((f r.1.1, r.1.2), r.2) := by
  change step passed table >>= _ = _
  cases step passed table <;> rfl

lemma exists_of_map_eq_ok {α β : Type} {f : α → β} {step : BlockM α} {passed passed' : List Warning}
    {table after : TypeTable} {b : β} (h : (f <$> step) passed table = .ok ((b, passed'), after)) :
    ∃ a, step passed table = .ok ((a, passed'), after) ∧ b = f a := by
  rw [map_apply] at h
  cases hok : step passed table with
  | error e =>
    rw [hok] at h
    cases h
  | ok r =>
    rw [hok] at h
    cases h
    exact ⟨_, rfl, rfl⟩

/-- An event is added to those before it. -/
lemma readNode_event (hkind : node.kind = .event) (blocks : Blocks) :
    readNodeWithin depth blocks node =
      (fun event => blocks.withEvents (blocks.events ++ [event])) <$> readEventWithin depth node := by
  unfold readNodeWithin readNode
  rw [hkind]
  exact (map_eq_pure_bind _ _).symm

/-- Nothing but an event has to do with events. -/
lemma readNode_withEvents (hkind : node.kind ≠ .event) (blocks : Blocks) (events : List EventSchema) :
    readNodeWithin depth (blocks.withEvents events) node =
      (fun blocks => blocks.withEvents events) <$> readNodeWithin depth blocks node := by
  obtain ⟨trace, streams, old, clocks, env⟩ := blocks
  change readNodeWithin depth ⟨trace, streams, events, clocks, env⟩ node =
    (fun blocks : Blocks => blocks.withEvents events) <$> readNodeWithin depth ⟨trace, streams, old, clocks, env⟩ node
  unfold readNodeWithin readNode
  split
  · dsimp only
    split
    · rw [map_bind]
      rfl
    · rw [map_bind]
      rfl
  · simp only [map_bind, map_pure]
    rfl
  · exact absurd ‹_› hkind
  · rw [map_bind]
    refine bind_congr fun clock => ?_
    dsimp only
    split
    · rfl
    · rfl
  · simp only [map_bind, map_pure]
    rfl
  · rfl
  · rfl
  · rfl
  · rfl
  · rfl

/-- No events are added by a node that is no event. -/
lemma events_eq_of_readNode {blocks next : Blocks} {passed passed' : List Warning}
    {table after : TypeTable} (hkind : node.kind ≠ .event)
    (h : readNodeWithin depth blocks node passed table = .ok ((next, passed'), after)) :
    next.events = blocks.events := by
  rw [← blocks.withEvents_events, readNode_withEvents hkind] at h
  obtain ⟨_, -, rfl⟩ := exists_of_map_eq_ok h
  rfl

section Steps

variable {g : Globals} {known : List Record} {depth : ℕ}

/-- Reading a block lets the table grow. -/
lemma growing_readNode (hcontains : g.root.Contains node) (blocks : Blocks)
    (world : (g.growing 1).World) :
    (g.growing 1).SameBlock Eq world (readNodeWithin depth blocks node)
      (readNodeWithin depth blocks node) := by
  have G : Comparison.Grounds (g.growing 1) Eq (TypeM.resolveNamed (TypeM.buildSpecifiers depth))
      (TypeM.resolveNamed (TypeM.buildSpecifiers depth)) (TypeM.buildSpecifiers depth)
      (TypeM.buildSpecifiers depth) (TypeM.Placed g 1) (TypeM.Placed g 1) (TypeM.PlacedBody g 1) :=
    TypeM.grounds_growing fun _ _ _ h => TypeM.growing_buildSpecifiers depth h
  have hV : Comparison.KeptByWarnings Eq := by
    rintro passed _ warning rfl
    rfl
  exact G.readNode hV blocks rfl fun _ => TypeM.growing_openBody world.2.root_lt (.inl rfl) hcontains

lemma growing_readNodes {nodes : List Node} (hnodes : ∀ node ∈ nodes, g.root.Contains node)
    (blocks : Blocks) (world : (g.growing 1).World) :
    (g.growing 1).SameBlock Eq world (nodes.foldlM (readNodeWithin depth) blocks)
      (nodes.foldlM (readNodeWithin depth) blocks) := by
  refine .foldlM (List.forall₂_same.mpr fun node _ => rfl)
    (fun later before _ node _ _ heq hsame hmem _ => ?_) rfl
  subst heq hsame
  exact growing_readNode (hnodes node hmem) before later

variable (hknown : g.Justified known) (hovert : g.Overt) (hcontains : g.root.Contains node)
  {V : List Warning → List Warning → Prop} (hV : Comparison.KeptByWarnings V)

include hknown hovert

lemma grounds_replaying_self :
    Comparison.Grounds (g.replaying known known) Eq (TypeM.resolveNamed (TypeM.buildSpecifiers depth))
    (TypeM.resolveNamed (TypeM.buildSpecifiers depth)) (TypeM.buildSpecifiers depth)
    (TypeM.buildSpecifiers depth) (TypeM.Copied g) (TypeM.Copied g) (TypeM.CopiedBody g) := by
  have hreusable := hknown.reusable hovert hknown (List.suffix_refl known)
  exact TypeM.grounds_replaying hknown
    (fun h => TypeM.replaying_buildSpecifiers hknown hreusable hovert depth depth h) hreusable hovert

include hcontains hV

lemma replaying_readNode (blocks : Blocks) :
    (g.replaying known known).SameBlock V [] (readNodeWithin depth blocks node)
      (readNodeWithin depth blocks node) :=
  (grounds_replaying_self hknown hovert).readNode hV blocks rfl fun _ =>
    TypeM.replaying_openBody hknown (.inl ⟨rfl, rfl⟩) hcontains

lemma replaying_readEvent :
    (g.replaying known known).SameBlock V [] (readEventWithin depth node)
      (readEventWithin depth node) :=
  (grounds_replaying_self hknown hovert).readEvent hV rfl
    (TypeM.replaying_openBody hknown (.inl ⟨rfl, rfl⟩) hcontains)

end Steps

end BlockM

/-! ## Accounts -/

namespace Tsdl.Node

/-- The events among some nodes. -/
def eventNodes (nodes : List Node) : List Node :=
  nodes.filter fun node => node.kind = .event

/-- The nodes that are no events. -/
def otherNodes (nodes : List Node) : List Node :=
  nodes.filter fun node => node.kind ≠ .event

variable {node : Node} {nodes : List Node}

lemma eventNodes_cons_of_event (h : node.kind = .event) :
    eventNodes (node :: nodes) = node :: eventNodes nodes :=
  List.filter_cons_of_pos (by simp [h])

lemma eventNodes_cons_of_ne (h : node.kind ≠ .event) : eventNodes (node :: nodes) = eventNodes nodes :=
  List.filter_cons_of_neg (by simp [h])

lemma otherNodes_cons_of_event (h : node.kind = .event) :
    otherNodes (node :: nodes) = otherNodes nodes :=
  List.filter_cons_of_neg (by simp [h])

lemma otherNodes_cons_of_ne (h : node.kind ≠ .event) :
    otherNodes (node :: nodes) = node :: otherNodes nodes :=
  List.filter_cons_of_pos (by simp [h])

end Tsdl.Node

namespace Globals

open Node TypeM

variable {g : Globals} {known : List Record} {depth : ℕ} {α β : Type} {step : BlockM α} {a : α}
  {warnings warnings' : List Warning} {noted noted' : Note → ℤ}

lemma Yields.map (h : g.Yields known step a warnings noted) (f : α → β) :
    g.Yields known (f <$> step) (f a) warnings noted := by
  intro passed table hfit hready
  rw [BlockM.map_apply]
  rcases h passed table hfit hready with hstopped | ⟨after, hok, hrest⟩
  · rw [hstopped]
    exact .inl rfl
  · rw [hok]
    exact .inr ⟨after, rfl, hrest⟩

/-- What is read of an event. -/
structure Reading where
  /-- The event. -/
  event : EventSchema
  /-- What is passed over in its block. -/
  warnings : List Warning
  /-- What is noted for the types described in it. -/
  noted : Note → ℤ

/-- What an event is read as. -/
def ReadsAs (g : Globals) (known : List Record) (depth : ℕ) (node : Node) (reading : Reading) : Prop :=
  g.Yields known (BlockM.readEventWithin depth node) reading.event reading.warnings reading.noted

/-- What blocks other than events come to, one after the other. -/
inductive Others (g : Globals) (known : List Record) (depth : ℕ) :
    Blocks → List Node → Blocks → List Warning → (Note → ℤ) → Prop
  | nil (blocks : Blocks) : Others g known depth blocks [] blocks [] 0
  | cons {blocks middle finish : Blocks} {node : Node} {rest : List Node} {warnings warnings' : List Warning}
      {noted noted' : Note → ℤ} (hkind : node.kind ≠ .event) (hevents : middle.events = blocks.events)
      (hfirst : g.Yields known (BlockM.readNodeWithin depth blocks node) middle warnings noted)
      (hrest : Others g known depth middle rest finish warnings' noted') :
      Others g known depth blocks (node :: rest) finish (warnings ++ warnings') (noted + noted')

/-- Events that are there already do not matter. -/
lemma Others.withEvents {blocks finish : Blocks} {nodes : List Node}
    (h : g.Others known depth blocks nodes finish warnings noted) (events : List EventSchema) :
    g.Others known depth (blocks.withEvents events) nodes (finish.withEvents events) warnings noted := by
  induction h with
  | nil blocks => exact .nil _
  | cons hkind _ hfirst _ ih =>
    have hfirst := hfirst.map fun blocks => blocks.withEvents events
    rw [← BlockM.readNode_withEvents hkind] at hfirst
    refine .cons hkind ?_ hfirst ih
    rfl

/-- **An account of some nodes**, events and other blocks apart. -/
structure Account where
  /-- The blocks, with the events that were there before. -/
  blocks : Blocks
  /-- What is passed over in blocks other than events. -/
  warnings : List Warning
  /-- What is noted for these blocks. -/
  noted : Note → ℤ
  /-- The events. -/
  readings : List Reading

/-- An account tells what some nodes come to. -/
structure Accounts (g : Globals) (known : List Record) (depth : ℕ) (start : Blocks) (nodes : List Node)
    (account : Account) : Prop where
  others : g.Others known depth start (otherNodes nodes) account.blocks account.warnings account.noted
  events : List.Forall₂ (g.ReadsAs known depth) (eventNodes nodes) account.readings

namespace Account

/-- All events, behind some others. -/
def allBlocks (account : Account) (before : List EventSchema) : Blocks :=
  account.blocks.withEvents (before ++ account.readings.map Reading.event)

/-- All warnings, events last. -/
def allWarnings (account : Account) : List Warning :=
  account.warnings ++ (account.readings.map Reading.warnings).flatten

/-- All notes. -/
def allNoted (account : Account) : Note → ℤ :=
  account.noted + (account.readings.map Reading.noted).sum

end Account

/-- What the nodes of an account come to when they are read. -/
structure ReadOff (g : Globals) (known : List Record) (account : Account) (start : Blocks)
    (passed : List Warning) (table : TypeTable) (read : Blocks × List Warning)
    (after : TypeTable) : Prop where
  blocks_eq : read.1 = account.allBlocks start.events
  warnings : read.2.Perm (passed ++ account.allWarnings)
  fit : g.Fit 1 after
  ready : g.Ready known after
  net_eq : net known after - net known table = account.allNoted

namespace ReadOff

variable {start next blocks : Blocks} {passed : List Warning} {table middle after : TypeTable}
  {reading : Reading} {readings : List Reading} {read : Blocks × List Warning}

/-- An event, and then the rest. -/
lemma event
    (h : g.ReadOff known
      ⟨blocks.withEvents (start.events ++ [reading.event]), warnings, noted, readings⟩
      (start.withEvents (start.events ++ [reading.event])) (passed ++ reading.warnings) middle read after)
    (hnet : net known middle - net known table = reading.noted) :
    g.ReadOff known ⟨blocks, warnings, noted, reading :: readings⟩ start passed table read after where
  blocks_eq := by
    rw [h.blocks_eq]
    simp [Account.allBlocks, Blocks.withEvents]
  warnings := by
    refine h.warnings.trans ?_
    simp only [Account.allWarnings, List.map_cons, List.flatten_cons, List.append_assoc]
    exact (List.perm_append_comm_assoc _ _ _).append_left passed
  fit := h.fit
  ready := h.ready
  net_eq := by
    rw [← sub_add_sub_cancel, h.net_eq, hnet]
    simp only [Account.allNoted, List.map_cons, List.sum_cons]
    abel

/-- Another block, and then the rest. -/
lemma other
    (h : g.ReadOff known ⟨blocks, warnings', noted', readings⟩ next (passed ++ warnings) middle read after)
    (hevents : next.events = start.events) (hnet : net known middle - net known table = noted) :
    g.ReadOff known ⟨blocks, warnings ++ warnings', noted + noted', readings⟩ start passed table read
      after where
  blocks_eq := by
    rw [h.blocks_eq, hevents]
    rfl
  warnings := by
    refine h.warnings.trans ?_
    simp only [Account.allWarnings, List.append_assoc]
    exact .refl _
  fit := h.fit
  ready := h.ready
  net_eq := by
    rw [← sub_add_sub_cancel, h.net_eq, hnet]
    simp only [Account.allNoted]
    abel

end ReadOff

/-- **Nodes are read as their account says**, in whatever order events stand among them. -/
theorem Accounts.replay {start : Blocks} {nodes : List Node} {account : Account}
    (h : g.Accounts known depth start nodes account) {table : TypeTable} (hfit : g.Fit 1 table)
    (hready : g.Ready known table) (passed : List Warning) :
    nodes.foldlM (BlockM.readNodeWithin depth) start passed table = .error .chainTooLong ∨
      ∃ read after, nodes.foldlM (BlockM.readNodeWithin depth) start passed table =
        .ok (read, after) ∧ g.ReadOff known account start passed table read after := by
  have hcons (node : Node) (rest : List Node) (start : Blocks) (passed : List Warning) (table : TypeTable) :
      (node :: rest).foldlM (BlockM.readNodeWithin depth) start passed table =
        BlockM.readNodeWithin depth start node passed table >>= fun r =>
          rest.foldlM (BlockM.readNodeWithin depth) r.1.1 r.1.2 r.2 := rfl
  induction nodes generalizing start account table passed with
  | nil =>
    obtain ⟨blocks, warnings, noted, readings⟩ := account
    obtain ⟨⟨⟩, ⟨⟩⟩ := h
    refine .inr ⟨(_, passed), table, rfl, ?_, ?_, hfit, hready, ?_⟩
    · simp [Account.allBlocks, Blocks.withEvents_events]
    · simp [Account.allWarnings]
    · exact (sub_self _).trans (add_zero 0).symm
  | cons node rest ih =>
    obtain ⟨blocks, warnings, noted, readings⟩ := account
    obtain ⟨hothers, hevents⟩ := h
    dsimp only at hothers hevents
    rw [hcons]
    by_cases hkind : node.kind = .event
    · rw [otherNodes_cons_of_event hkind] at hothers
      rw [eventNodes_cons_of_event hkind] at hevents
      cases hevents with
      | @cons _ reading _ readings hfirst hrest =>
        have hfirst := Yields.map hfirst fun event => start.withEvents (start.events ++ [event])
        rw [← BlockM.readNode_event hkind start] at hfirst
        rcases hfirst passed table hfit hready with hstopped | ⟨middle, hok, hmiddle, hready', hnet⟩
        · rw [hstopped]
          exact .inl rfl
        rw [hok]
        have haccount : g.Accounts known depth (start.withEvents (start.events ++ [reading.event])) rest
            ⟨blocks.withEvents (start.events ++ [reading.event]), warnings, noted, readings⟩ :=
          ⟨hothers.withEvents _, hrest⟩
        refine (ih haccount hmiddle hready' (passed ++ reading.warnings)).imp_right ?_
        rintro ⟨read, after, hok', hread⟩
        exact ⟨read, after, hok', hread.event hnet⟩
    · rw [otherNodes_cons_of_ne hkind] at hothers
      rw [eventNodes_cons_of_ne hkind] at hevents
      cases hothers with
      | @cons _ next _ _ _ warnings warnings' noted noted' _ hsame hfirst hrest =>
        rcases hfirst passed table hfit hready with hstopped | ⟨middle, hok, hmiddle, hready', hnet⟩
        · rw [hstopped]
          exact .inl rfl
        rw [hok]
        have haccount : g.Accounts known depth next rest ⟨blocks, warnings', noted', readings⟩ :=
          ⟨hrest, hevents⟩
        refine (ih haccount hmiddle hready' (passed ++ warnings)).imp_right ?_
        rintro ⟨read, after, hok', hread⟩
        exact ⟨read, after, hok', hread.other hsame hnet⟩

/-- **What has been read can be accounted for.** -/
theorem Accounts.of_run {final table finish : TypeTable} (hknown : g.Recorded known final)
    (hovert : g.Overt)
    {nodes : List Node} (hnodes : ∀ node ∈ nodes, g.root.Contains node) (hfit : g.Fit 1 table)
    {start : Blocks} {passed : List Warning} {read : Blocks × List Warning}
    (hrun : nodes.foldlM (BlockM.readNodeWithin depth) start passed table = .ok (read, finish))
    (hgrows : finish.Grows 1 final) : ∃ account, g.Accounts known depth start nodes account := by
  induction nodes generalizing start passed table with
  | nil => exact ⟨⟨start, [], 0, []⟩, .nil start, .nil⟩
  | cons node rest ih =>
    obtain ⟨hnode, hrest⟩ := List.forall_mem_cons.mp hnodes
    obtain ⟨⟨⟨next, passed'⟩, middle⟩, hfirst, hrun⟩ := exists_of_bind_eq_ok hrun
    obtain ⟨hmiddle, hstart, -⟩ :=
      Grown.of_ok (BlockM.growing_readNode hnode start ⟨table, hfit⟩ passed passed rfl) hfirst
    obtain ⟨-, hlater, -⟩ :=
      Grown.of_ok (BlockM.growing_readNodes hrest next ⟨middle, hmiddle⟩ passed' passed' rfl) hrun
    have hlater := hlater.trans hgrows
    have hready := hknown.ready hfit (hstart.trans hlater)
    have hsettled := hknown.settled.of_grows hmiddle hlater
    obtain ⟨⟨blocks, warnings, noted, readings⟩, hothers, hevents⟩ := ih hrest hmiddle hrun
    by_cases hkind : node.kind = .event
    · rw [BlockM.readNode_event hkind] at hfirst
      obtain ⟨event, hread, rfl⟩ := BlockM.exists_of_map_eq_ok hfirst
      obtain ⟨own, -, hyields⟩ := Yields.of_run
        (fun V hV => BlockM.replaying_readEvent hknown.justified hovert hnode hV) hfit hready hsettled hread
      refine ⟨⟨blocks.withEvents start.events, warnings, noted,
        ⟨event, own, net known middle - net known table⟩ :: readings⟩, ?_, ?_⟩
      · rw [otherNodes_cons_of_event hkind]
        exact hothers.withEvents start.events
      · rw [eventNodes_cons_of_event hkind]
        exact .cons hyields hevents
    · obtain ⟨own, -, hyields⟩ := Yields.of_run
        (fun V hV => BlockM.replaying_readNode hknown.justified hovert hnode hV start)
        hfit hready hsettled hfirst
      refine ⟨⟨blocks, own ++ warnings, net known middle - net known table + noted, readings⟩, ?_, ?_⟩
      · rw [otherNodes_cons_of_ne hkind]
        exact .cons hkind (BlockM.events_eq_of_readNode hkind hfirst) hyields hothers
      · rwa [eventNodes_cons_of_ne hkind]

end Globals

/-! ## The names of the whole metadata -/

namespace Globals

variable {g : Globals} {known : List Record} {depth : ℕ} {table middle after : TypeTable}

lemma Resettled.trans (h : g.Resettled known known table middle)
    (h' : g.Resettled known known middle after) : g.Resettled known known table after where
  fit := h'.fit
  ready := h'.ready
  kept := h.kept.trans h'.kept
  net_eq := h'.net_eq.trans h.net_eq

/-- The types of names are known when they have been resolved. -/
lemma lookup?_of_resolveEach {names : List String} (hfit : g.Fit 1 table)
    (hok : TypeM.resolveEach (TypeM.buildSpecifiers depth) rootScope names table = .ok ((), after))
    {name : String} (hname : name ∈ names) : ∃ t, after.lookup? rootScope name = some (.built t) := by
  induction names generalizing table with
  | nil => cases hname
  | cons first rest ih =>
    rw [TypeM.resolveEach_cons] at hok
    obtain ⟨⟨t, middle⟩, hfirst, hrest⟩ := exists_of_bind_eq_ok hok
    obtain ⟨hmiddle, -⟩ := TypeM.frozen_of_resolveNamed hfit hfirst
    rcases List.mem_cons.mp hname with rfl | hname
    · obtain ⟨-, hgrows, -⟩ := TypeM.grows_of_resolveEach hmiddle hmiddle.root_lt (.inl rfl) hrest
      have hevolves := hgrows.evolves rootScope hmiddle.root_lt name
      rw [TypeM.lookup?_of_resolveNamed hfit hfirst] at hevolves
      exact ⟨t, hevolves.eq_of_built⟩
    · exact ih hmiddle hrest hname

/-- Names of the whole metadata are resolved as they have been recorded. -/
lemma replay_resolveEach (depth : ℕ) (hreusable : g.Reusable known known)
    (hcover : ∀ name ∈ g.names, ∃ record ∈ known, record.name = name) {names : List String}
    (hfit : g.Fit 1 table) (hready : g.Ready known table)
    (hnames : ∀ name ∈ names, (table.lookup? rootScope name).isSome = true) :
    TypeM.resolveEach (TypeM.buildSpecifiers depth) rootScope names table = .error .chainTooLong ∨
      ∃ after, TypeM.resolveEach (TypeM.buildSpecifiers depth) rootScope names table = .ok ((), after) ∧
        g.Resettled known known table after := by
  induction names generalizing table with
  | nil => exact .inr ⟨table, rfl, .refl hfit hready⟩
  | cons name rest ih =>
    have hfirst :
        TypeM.resolveNamed (TypeM.buildSpecifiers depth) rootScope name table = .error .chainTooLong ∨
        ∃ t middle,
          TypeM.resolveNamed (TypeM.buildSpecifiers depth) rootScope name table = .ok (t, middle) ∧
          g.Resettled known known table middle := by
      by_cases hname : name ∈ g.names
      · obtain ⟨record, hrecord, rfl⟩ := hcover name hname
        exact (hreusable record hrecord depth table hfit hready).imp_right fun h => ⟨_, h⟩
      · obtain ⟨entry, hentry⟩ := Option.isSome_iff_exists.mp (hnames name List.mem_cons_self)
        obtain ⟨⟨t, rfl⟩, -⟩ := hfit.other name entry hname hentry
        have hnearest := hfit.nearest?_root name
        rw [hentry] at hnearest
        exact .inr ⟨t, table, TypeM.resolveNamed_of_built hnearest, .refl hfit hready⟩
    rw [TypeM.resolveEach_cons]
    change (TypeM.resolveNamed (TypeM.buildSpecifiers depth) rootScope name table >>= fun r =>
        TypeM.resolveEach (TypeM.buildSpecifiers depth) rootScope rest r.2) = _ ∨
      ∃ after, (TypeM.resolveNamed (TypeM.buildSpecifiers depth) rootScope name table >>= fun r =>
        TypeM.resolveEach (TypeM.buildSpecifiers depth) rootScope rest r.2) = _ ∧ _
    rcases hfirst with hstopped | ⟨t, middle, hok, hmiddle⟩
    · rw [hstopped]
      exact .inl rfl
    · rw [hok]
      have hgrows := (TypeM.frozen_of_resolveNamed hfit hok).2
      rcases ih hmiddle.fit hmiddle.ready fun name hname =>
        (hgrows.evolves rootScope hfit.root_lt name).isSome (hnames name (List.mem_cons_of_mem _ hname)) with
        hstopped | ⟨after, hok', hafter⟩
      · exact .inl hstopped
      · exact .inr ⟨after, hok', hmiddle.trans hafter⟩

end Globals

/-! ## Whole trees -/

namespace BlockM

lemma readEnteredWithin_apply (depth : ℕ) (root : Node) (passed : List Warning) (table : TypeTable) :
    readEnteredWithin depth root passed table =
      root.children.foldlM (readNodeWithin depth) .empty passed table >>= fun r =>
        TypeM.resolveAll (TypeM.resolveNamed (TypeM.buildSpecifiers depth)) rootScope r.2 >>= fun s =>
          .ok (r.1, s.2) := by
  change root.children.foldlM (readNodeWithin depth) .empty passed table >>= _ = _
  cases root.children.foldlM (readNodeWithin depth) .empty passed table with
  | error e => rfl
  | ok r =>
    change (TypeM.resolveAll _ rootScope r.2 >>= _) >>= _ = TypeM.resolveAll _ rootScope r.2 >>= _
    cases TypeM.resolveAll _ rootScope r.2 <;> rfl

end BlockM

namespace Globals

open Node BlockM

variable {g : Globals} {known : List Record} {depth : ℕ} {table finish : TypeTable}
  {account : Account} {root : Node}

/-- Events in another order have the same account, but for the order of what is read of them. -/
lemma Accounts.perm {start : Blocks} {nodes nodes' : List Node}
    (h : g.Accounts known depth start nodes account)
    (hothers : otherNodes nodes' = otherNodes nodes)
    (hevents : (eventNodes nodes').Perm (eventNodes nodes)) :
    ∃ readings, readings.Perm account.readings ∧
      g.Accounts known depth start nodes' { account with readings } := by
  obtain ⟨readings, hreadings, hperm⟩ := List.perm_comp_forall₂ hevents h.events
  exact ⟨readings, hperm, hothers ▸ h.others, hreadings⟩

/-- A tree is read as its account says, and then all recorded types are known. -/
lemma Accounts.readEntered (h : g.Accounts known depth .empty root.children account)
    (hreusable : g.Reusable known known) (hcover : ∀ name ∈ g.names, ∃ record ∈ known, record.name = name)
    (hfit : g.Fit 1 table) (hready : g.Ready known table) (passed : List Warning) :
    readEnteredWithin depth root passed table = .error .chainTooLong ∨
      ∃ read after, readEnteredWithin depth root passed table = .ok (read, after) ∧
        g.ReadOff known account .empty passed table read after ∧
        ∀ name ∈ g.names, after.knows name = true := by
  rw [readEnteredWithin_apply]
  rcases h.replay hfit hready passed with hstopped | ⟨read, middle, hok, hread⟩
  · rw [hstopped]
    exact .inl rfl
  rw [hok]
  change (TypeM.resolveAll (TypeM.resolveNamed (TypeM.buildSpecifiers depth)) rootScope middle >>=
      fun s => .ok (read, s.2)) = _ ∨
    ∃ read' after, (TypeM.resolveAll (TypeM.resolveNamed (TypeM.buildSpecifiers depth)) rootScope middle >>=
      fun s => .ok (read, s.2)) = _ ∧ _
  rw [TypeM.resolveAll_apply]
  rcases replay_resolveEach depth hreusable hcover hread.fit hread.ready
    (fun name => hread.fit.mem_names_iff.mp) with hstopped | ⟨after, hok', hafter⟩
  · rw [hstopped]
    exact .inl rfl
  rw [hok']
  refine .inr ⟨read, after, rfl, ⟨hread.blocks_eq, hread.warnings, hafter.fit, hafter.ready, ?_⟩, ?_⟩
  · rw [hafter.net_eq, hread.net_eq]
  · intro name hname
    obtain ⟨t, hlookup⟩ := lookup?_of_resolveEach hread.fit hok'
      (hread.fit.mem_names_iff.mpr (hread.fit.isSome_of_mem hname))
    exact knows_of_lookup? hlookup

/-- What is read of two trees that differ in the order of their events. -/
structure ReadAlike (read read' : Blocks × List Warning) (table table' : TypeTable) : Prop where
  blocks_eq : read'.1 = read.1.withEvents read'.1.events
  events : read'.1.events.Perm read.1.events
  passed : read'.2.Perm read.2
  clocks : table'.clocks.toList.Perm table.clocks.toList
  warnings : table'.warnings.toList.Perm table.warnings.toList

/-- What is read off two accounts with the same readings in another order. -/
lemma ReadOff.readAlike {readings : List Reading} {read read' : Blocks × List Warning}
    {finish' : TypeTable} {passed : List Warning} (hreadings : readings.Perm account.readings)
    (h : g.ReadOff known account .empty passed table read finish)
    (h' : g.ReadOff known { account with readings } .empty passed table read' finish')
    (hpaid : paid known finish' = paid known finish) : ReadAlike read read' finish finish' := by
  have hnoted : Account.allNoted { account with readings } = account.allNoted :=
    congrArg (account.noted + ·) (hreadings.map Reading.noted).sum_eq
  have hlog : finish'.log = finish.log := by
    have hnet : net known finish' = net known finish := by
      rw [← sub_left_inj, h'.net_eq, h.net_eq, hnoted]
    rwa [net, net, hpaid, sub_left_inj] at hnet
  obtain ⟨hclocks, hwarnings⟩ := perm_of_log_eq hlog
  refine ⟨?_, ?_, ?_, hclocks, hwarnings⟩
  · rw [h'.blocks_eq, h.blocks_eq]
    rfl
  · rw [h'.blocks_eq, h.blocks_eq]
    exact (hreadings.map Reading.event).append_left _
  · refine h'.warnings.trans (.trans ?_ h.warnings.symm)
    exact ((hreadings.map Reading.warnings).flatten.append_left _).append_left passed

/-- **The order of events does not matter for what is read.** -/
theorem readEntered_reordered (hovert : g.Overt) (hfit : g.Fit 1 table)
    (hfresh : ∀ name ∈ g.names, ∀ t, table.lookup? rootScope name ≠ some (.built t))
    (hothers : otherNodes root.children = otherNodes g.root.children)
    (hevents : (eventNodes root.children).Perm (eventNodes g.root.children)) {passed : List Warning}
    {read : Blocks × List Warning}
    (hrun : BlockM.readEnteredWithin depth g.root passed table = .ok (read, finish)) :
    BlockM.readEnteredWithin depth root passed table = .error .chainTooLong ∨
      ∃ read' finish', BlockM.readEnteredWithin depth root passed table =
        .ok (read', finish') ∧ ReadAlike read read' finish finish' := by
  have hchildren : ∀ node ∈ g.root.children, g.root.Contains node := fun node hnode =>
    (Contains.refl g.root).of_mem hnode
  -- The run on the tree is recorded.
  have hsteps := hrun
  rw [readEnteredWithin_apply] at hsteps
  obtain ⟨⟨read, middle⟩, hnodes, hsteps⟩ := exists_of_bind_eq_ok hsteps
  obtain ⟨⟨⟨⟩, finish⟩, hresolve, hsteps⟩ := exists_of_bind_eq_ok hsteps
  cases hsteps
  rw [TypeM.resolveAll_apply] at hresolve
  obtain ⟨hmiddle, hgrows, hextends⟩ :=
    TypeM.Grown.of_ok (growing_readNodes hchildren .empty ⟨table, hfit⟩ passed passed rfl) hnodes
  obtain ⟨-, hgrows', hextends'⟩ := TypeM.grows_of_resolveEach hmiddle hmiddle.root_lt (.inl rfl) hresolve
  obtain ⟨known, -, hrecorded⟩ := hextends.trans hextends' []
    ⟨.nil, fun name hname t hlookup => absurd hlookup (hfresh name hname t), nofun⟩
  -- All declared names have a record.
  have hcover : ∀ name ∈ g.names, ∃ record ∈ known, record.name = name := by
    intro name hname
    obtain ⟨t, hlookup⟩ := lookup?_of_resolveEach hmiddle hresolve
      (hmiddle.mem_names_iff.mpr (hmiddle.isSome_of_mem hname))
    obtain ⟨record, hrecord, heq, -⟩ := hrecorded.settled name hname t hlookup
    exact ⟨record, hrecord, heq⟩
  have hready := hrecorded.ready hfit (hgrows.trans hgrows')
  have hreusable := hrecorded.justified.reusable hovert hrecorded.justified (List.suffix_refl known)
  -- Both trees are read as the account says.
  obtain ⟨account, haccount⟩ := Accounts.of_run hrecorded hovert hchildren hfit hnodes hgrows'
  obtain ⟨readings, hreadings, haccount'⟩ := haccount.perm hothers hevents
  obtain ⟨hread, hknows⟩ : g.ReadOff known account .empty passed table read finish ∧
      ∀ name ∈ g.names, finish.knows name = true := by
    rcases haccount.readEntered hreusable hcover hfit hready passed with hstopped | ⟨_, _, hok, hread⟩
    · rw [hrun] at hstopped
      cases hstopped
    · rw [hrun] at hok
      cases hok
      exact hread
  rcases haccount'.readEntered hreusable hcover hfit hready passed with
    hstopped | ⟨read', finish', hok', hread', hknows'⟩
  · exact .inl hstopped
  refine .inr ⟨read', finish', hok', hread.readAlike hreadings hread' ?_⟩
  refine paid_congr fun record hrecord => ?_
  have hname := hrecorded.justified.mem_names hrecord
  rw [hknows record.name hname, hknows' record.name hname]

end Globals

end CommonTrace
