import CommonTrace.Proofs.Trace.Reader

/-!
# What a fresh reader gives

A reader of a trace that is moved on from the start to the end gives everything that the files give
on their own (`Trace.fileEvents`), merged by time: `Trace.drains_reader` says so in terms of each
file, of the errors, and of the order of time.
-/

namespace CommonTrace

namespace Trace

/-- The queues of a fresh reader are what its files give on their own. -/
lemma queues_reader (trace : Trace) : trace.reader.queues = trace.files.map trace.fileEvents := by
  have hpending : FileReader.pending trace ∘ FileReader.ofFile trace = trace.fileEvents :=
    funext fun file => FileReader.pending_restart trace _ 0
  simp only [TraceReader.queues, reader, List.map_map, hpending]

/-- **Reading a trace to its end.**  A fresh reader comes to its end.  Each file is found again in
what it gives, all of it and in its order, and there is nothing else.  Between an error and the
result before it of the same file only errors go out.  If time does not run backwards within any
file, it does not in what the reader gives, and of events at the same time those of the first file
come first. -/
theorem drains_reader (trace : Trace) :
    (∃ items last, trace.reader.Drains items last) ∧
      ∀ items last, trace.reader.Drains items last →
        (∀ item ∈ items, item.2 < trace.files.length) ∧
        (∀ i file, trace.files[i]? = some file → Queue.resultsOf i items = trace.fileEvents file) ∧
        Queue.Prompt items ∧
        ((∀ file ∈ trace.files, Queue.Ascending Event.timestamp (trace.fileEvents file)) →
          Queue.Ordered Event.timestamp items) := by
  have hsettled := (TraceReader.sound_reader trace).settled
  refine ⟨TraceReader.exists_drains hsettled, fun items last hdrains => ?_⟩
  have hmerges := hdrains.merges hsettled
  rw [queues_reader] at hmerges
  refine ⟨?_, ?_, hmerges.prompt, ?_⟩
  · simpa only [List.length_map] using hmerges.lt_length
  · intro i file hfile
    refine hmerges.results_eq ?_
    rw [List.getElem?_map, hfile, Option.map_some]
  · intro hasc
    refine hmerges.ordered fun q hq => ?_
    obtain ⟨file, hfile, rfl⟩ := List.mem_map.mp hq
    exact hasc file hfile

end Trace

end CommonTrace
