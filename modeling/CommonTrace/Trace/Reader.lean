import CommonTrace.Trace.FileReader

/-!
# Reading a trace

A `TraceReader` hands out the events of all files of a trace in the order of time.  It looks at what
each file offers next.  An error that a file offers goes out before anything else; otherwise the
event with the least time stamp does.  Of several errors, and of several events with the same time
stamp, that of the first file goes out.

A reader can be sent to a point in time, backwards as well as forwards.  Packets that end before it
are not looked at.
-/

namespace CommonTrace

/-- A trace of which some events have been read: how far each file has been read, the event that
has been read last, and how many events there have been. -/
structure TraceReader where
  trace : Trace
  files : List FileReader
  current : Option Event
  eventsRead : Nat

def Trace.reader (trace : Trace) : TraceReader where
  trace
  files := trace.files.map (FileReader.ofFile trace)
  current := none
  eventsRead := 0

/-- Of events with the numbers of their files, the earliest.  Of several that took place at the same
time it is the first. -/
def earliest? : List (Event × Nat) → Option (Event × Nat)
  | [] => none
  | candidate :: others =>
    match earliest? others with
    | none => some candidate
    | some other =>
      if candidate.1.timestamp ≤ other.1.timestamp then some candidate else some other

namespace TraceReader

/-- Whether the program stops while it brings the reader into this state. -/
def stops (r : TraceReader) : Bool :=
  r.files.any fun c => c.head.stops

/-- The first error that a file offers, with the number of the file. -/
def fault? (r : TraceReader) : Option (TraceError × Nat) :=
  r.files.zipIdx.findSome? fun (c, index) =>
    match c.head with
    | .failed error => some (error, index)
    | _ => none

def candidates (r : TraceReader) : List (Event × Nat) :=
  r.files.zipIdx.filterMap fun (c, index) =>
    match c.head with
    | .event event => some (event, index)
    | _ => none

/-- What goes out next, with the number of the file that offers it. -/
def next? (r : TraceReader) : Option (Except TraceError Event × Nat) :=
  match r.fault? with
  | some (error, index) => some (.error error, index)
  | none => (earliest? r.candidates).map fun (event, index) => (.ok event, index)

/-- Moves to the next event, and says whether there was one.  An error is reported once, and the
reader can be moved on behind it. -/
def advance (r : TraceReader) : Except TraceError Bool × TraceReader :=
  match r.next? with
  | none => (.ok false, { r with current := none })
  | some (result, index) =>
    let files := r.files.modify index (FileReader.fill r.trace)
    match result with
    | .error error => (.error error, { r with files, current := none })
    | .ok event => (.ok true, { r with files, current := some event, eventsRead := r.eventsRead + 1 })

/-- Moves before the first event at the given nanosecond or later. -/
def seek (r : TraceReader) (nanoseconds : Nat) : TraceReader :=
  { r with files := r.files.map (FileReader.seek r.trace nanoseconds), current := none }

def takeEvent (r : TraceReader) : Option Event × TraceReader :=
  (r.current, { r with current := none })

end TraceReader

end CommonTrace
