import CommonTrace.Proofs.Bit.Errors
import CommonTrace.Proofs.Field.Growth
import Mathlib.Data.Nat.Notation
import Mathlib.Tactic.Lemma

/-!
# Errors that do not occur

A decoding can fail in many ways, and most steps fail in few of them.  `DecodeM.Avoids` says of a step that it
does not fail with errors of some kind, in whatever state it is performed; what is put together of such steps
avoids these errors, too.

Of most concern are errors with which reads fail, other than for want of bits (`DecodeError.FromReads`).  What
is read at the cursor may give such an error, but no search for a length or a tag and no check does.
-/

namespace CommonTrace

/-- A kind of errors with which reads fail.  A read that asks for too many bits, and says for how many, does not
fail with one of them. -/
structure DecodeError.FromReads (fault : DecodeError → Prop) : Prop where
  read : ∀ error, fault error → ∃ e, error = .read e
  underflow : ∀ position requested remaining, ¬fault (.read (.underflow position (some requested) remaining))

lemma DecodeError.FromReads.not_fault {fault : DecodeError → Prop} (hfault : FromReads fault) {error : DecodeError}
    (h : ∀ e, error ≠ .read e) : ¬fault error := by
  intro herror
  obtain ⟨e, rfl⟩ := hfault.read error herror
  exact h e rfl

namespace DecodeM

variable {α β : Type} {fault : DecodeError → Prop} {m : DecodeM α} {s : DecodeState}

/-- From this state, the step does not fail with an error of the kind. -/
def AvoidsAt (fault : DecodeError → Prop) (m : DecodeM α) (s : DecodeState) : Prop :=
  ∀ error s', m s = .error error s' → ¬fault error

/-- The step does not fail with an error of the kind, from whatever state. -/
def Avoids (fault : DecodeError → Prop) (m : DecodeM α) : Prop :=
  ∀ s, m.AvoidsAt fault s

namespace AvoidsAt

/-- What goes on after a step is of concern only for what the step can give. -/
lemma bind {k : α → DecodeM β} (hm : m.AvoidsAt fault s)
    (hk : ∀ a s', m s = .ok a s' → (k a).AvoidsAt fault s') : (m >>= k).AvoidsAt fault s := by
  intro error s' h
  rcases error_of_bind h with h | ⟨a, s₁, hok, h⟩
  · exact hm error s' h
  · exact hk a s₁ hok error s' h

lemma map (hm : m.AvoidsAt fault s) (f : α → β) : (f <$> m).AvoidsAt fault s := by
  rw [map_eq_pure_bind]
  refine hm.bind fun a s' _ error s'' h => ?_
  cases h

lemma read {reading : Cursor → Except ReadError (α × Cursor)}
    (h : ReadAvoids (fun error => fault (.read error)) (reading s.cursor)) :
    (DecodeM.read reading).AvoidsAt fault s := by
  intro error s' hfail
  unfold DecodeM.read at hfail
  split at hfail
  · cases hfail
  · rename_i hreading
    cases hfail
    exact h _ hreading

end AvoidsAt

namespace Avoids

lemma pure (a : α) : (Pure.pure a : DecodeM α).Avoids fault := by
  intro s error s' h
  cases h

lemma get : (MonadState.get : DecodeM DecodeState).Avoids fault := by
  intro s error s' h
  cases h

lemma throw {error : DecodeError} (h : ¬fault error) :
    (MonadExcept.throw error : DecodeM α).Avoids fault := by
  rintro s _ s' ⟨⟩
  exact h

lemma bind {k : α → DecodeM β} (hm : m.Avoids fault) (hk : ∀ a, (k a).Avoids fault) :
    (m >>= k).Avoids fault :=
  fun s => (hm s).bind fun a s' _ => hk a s'

lemma map (hm : m.Avoids fault) (f : α → β) : (f <$> m).Avoids fault :=
  fun s => (hm s).map f

lemma read {reading : Cursor → Except ReadError (α × Cursor)}
    (h : ∀ c, ReadAvoids (fun error => fault (.read error)) (reading c)) : (DecodeM.read reading).Avoids fault :=
  fun s => .read (h s.cursor)

lemma openChild (parent : ScopeId) (name : String) : (DecodeM.openChild parent name).Avoids fault := by
  intro s error s' h
  cases h

lemma openBlock (block : StaticScope) : (DecodeM.openBlock block).Avoids fault := by
  intro s error s' h
  cases h

lemma bindField (scope : ScopeId) (field : Field) : (DecodeM.bindField scope field).Avoids fault := by
  intro s error s' h
  cases h

lemma collectFrom {step : ℕ → DecodeM α} (h : ∀ index, (step index).Avoids fault) (index : ℕ)
    (before : List α) (count : ℕ) : (CommonTrace.collectFrom step index before count).Avoids fault := by
  induction count generalizing index before with
  | zero => exact pure _
  | succ count ih => exact (h index).bind fun a => ih (index + 1) (a :: before)

/-! ## Steps that read nothing -/

section Searches

variable (hfault : DecodeError.FromReads fault)

include hfault

lemma checkLength (limit : ℕ) (field : String) (length : ℕ) :
    (CommonTrace.checkLength limit field length).Avoids fault := by
  unfold CommonTrace.checkLength
  split
  · exact .throw (hfault.not_fault nofun)
  · exact .pure ()

lemma sequenceLength (scope : ScopeId) (path : FieldPath) (field : String) :
    (CommonTrace.sequenceLength scope path field).Avoids fault := by
  refine .bind .get fun s => ?_
  split
  · exact .throw (hfault.not_fault nofun)
  · split
    · exact .throw (hfault.not_fault nofun)
    · exact .pure _

lemma selectedName (scope : ScopeId) (path : FieldPath) (field : String) :
    (CommonTrace.selectedName scope path field).Avoids fault := by
  refine .bind .get fun s => ?_
  split
  · exact .throw (hfault.not_fault nofun)
  · split
    · exact .pure _
    · exact .throw (hfault.not_fault nofun)
    · exact .pure _
    · exact .throw (hfault.not_fault nofun)

end Searches

end Avoids

end DecodeM

end CommonTrace
