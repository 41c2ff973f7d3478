import CommonTrace.Proofs.Field.Agreement
import CommonTrace.Proofs.Field.Errors

/-!
# Failures of paths are noted

Watching a decoding would be of no use if it missed a lookup that fails.  `Watched.Accounts` says that
it does not: where a decoding fails for a path, the lookup of this path is among those that it has
noted, and it is this lookup that fails.

A type that has passed the check has no variant without a tag, which would fail for want of a path.
-/

namespace CommonTrace

open Watched

/-! ## Steps that look nothing up -/

namespace DecodeM

variable {α : Type}

/-- The step does not fail for a path. -/
abbrev Pathless (m : DecodeM α) : Prop :=
  m.Avoids fun error => ∃ failure, error = .path failure

namespace Pathless

lemma read (reading : Cursor → Except ReadError (α × Cursor)) : (DecodeM.read reading).Pathless :=
  Avoids.read fun _ _ _ => nofun

lemma align (alignment : ℕ) : (DecodeM.align alignment).Pathless :=
  read _

lemma checkLength (limit : ℕ) (field : String) (length : ℕ) :
    (CommonTrace.checkLength limit field length).Pathless := by
  unfold CommonTrace.checkLength
  split
  · exact .throw nofun
  · exact .pure ()

lemma readInteger (t : IntegerType) : t.read.Pathless := by
  unfold IntegerType.read
  split
  · exact (read _).bind fun _ => .pure _
  · exact ((read _).map _).bind fun _ => .pure _

lemma readText (length : ℕ) : (CommonTrace.readText length).Pathless :=
  (read _).map _

end Pathless

end DecodeM

/-! ## Notes that are complete -/

namespace Watched

variable {α β : Type} {limit : ℕ}

/-- **All failures of paths are noted**: where the decoding fails for a path, it has noted a lookup
that fails in this way. -/
def Accounts (limit : ℕ) (m : Watched α) : Prop :=
  ∀ s failure s', m.unwatched s = .error (.path failure) s' →
    ∃ lookup ∈ m.lookups s, ∃ s'', lookup.attempt limit lookup.state = .error (.path failure) s''

namespace Accounts

lemma quiet {m : DecodeM α} (h : m.Pathless) : (Watched.quiet m).Accounts limit := by
  intro s failure s' hfail
  exact absurd ⟨failure, rfl⟩ (h s _ s' hfail)

lemma bind {m : Watched α} {k : α → Watched β} (hm : m.Accounts limit)
    (hk : ∀ a, (k a).Accounts limit) : (m >>= k).Accounts limit := by
  intro s failure s' hfail
  rw [unwatched_bind] at hfail
  rcases DecodeM.error_of_bind hfail with hfail | ⟨a, s₁, hok, hfail⟩
  · obtain ⟨lookup, hl, hattempt⟩ := hm s failure s' hfail
    exact ⟨lookup, mem_lookups_bind.mpr (.inl hl), hattempt⟩
  · obtain ⟨lookup, hl, hattempt⟩ := hk a s₁ failure s' hfail
    exact ⟨lookup, mem_lookups_bind.mpr (.inr ⟨a, s₁, hok, hl⟩), hattempt⟩

lemma map {m : Watched α} (h : m.Accounts limit) (f : α → β) : (f <$> m).Accounts limit :=
  bind h fun a => quiet (.pure (f a))

lemma collectFrom {step : ℕ → Watched α} (h : ∀ index, (step index).Accounts limit) (index : ℕ)
    (before : List α) (count : ℕ) :
    (CommonTrace.collectFrom step index before count).Accounts limit := by
  induction count generalizing index before with
  | zero => exact quiet (.pure _)
  | succ count ih => exact bind (h index) fun a => ih (index + 1) (a :: before)

end Accounts

lemma accounts_watchLength (view : View) (scope : ScopeId) (path : FieldPath) (field : String) :
    (watchLength view scope path field).Accounts limit := by
  intro s failure s' hfail
  refine ⟨_, List.mem_singleton_self _, s', ?_⟩
  exact DecodeM.bind_of_error hfail _

lemma accounts_watchSelection (view : View) (scope : ScopeId) (path : FieldPath) (field : String) :
    (watchSelection view scope path field).Accounts limit := by
  intro s failure s' hfail
  refine ⟨_, List.mem_singleton_self _, s', ?_⟩
  exact DecodeM.bind_of_error hfail _

end Watched

/-! ## Values -/

namespace FieldType

variable {limit : ℕ}

lemma accounts_watchNamed (t : FieldType) (name : String) {value : Watched Value}
    (h : value.Accounts limit) : (t.watchNamed name value).Accounts limit := by
  refine .bind (.quiet (.align t.alignment)) fun _ => .bind h fun value => ?_
  exact .quiet (.pure _)

lemma accounts_elements {element : FieldType} {count : ℕ} {value : String → Watched Value}
    (h : ∀ index, (value index).Accounts limit) :
    (collectElements count fun index => element.watchNamed index (value index)).Accounts limit :=
  .collectFrom (fun _ => element.accounts_watchNamed _ (h _)) 0 [] count

mutual

/-- **All failures of paths in a value are noted**, if its type has passed the check. -/
theorem accounts_watchValue (limit : ℕ) (view : View) (t : FieldType) (scope : ScopeId)
    (name : String) (hcheck : view.check t = .ok ()) :
    (watchValue limit view t scope name).Accounts limit := by
  match t with
  | .integer t => exact .quiet ((DecodeM.Pathless.readInteger t).map _)
  | .float t => exact .quiet (((DecodeM.Pathless.read _).map _).map _)
  | .string _ => exact .quiet (((DecodeM.Pathless.read _).map _).map _)
  | .enum t => exact .quiet ((DecodeM.Pathless.readInteger t.container).bind fun _ => .pure _)
  | .array element length =>
    rw [View.check] at hcheck
    obtain ⟨_, -, hcheck⟩ := exists_of_bind_eq_ok hcheck
    have helement := fun index => accounts_watchValue limit view element scope index hcheck
    rw [watchValue]
    refine .bind (.quiet (.checkLength limit name length)) fun _ => ?_
    split
    · exact .quiet ((DecodeM.Pathless.readText length).map _)
    · exact .map (accounts_elements helement) _
  | .sequence element path =>
    rw [View.check] at hcheck
    obtain ⟨_, -, hcheck⟩ := exists_of_bind_eq_ok hcheck
    obtain ⟨_, -, hcheck⟩ := exists_of_bind_eq_ok hcheck
    have helement := fun index => accounts_watchValue limit view element scope index hcheck
    rw [watchValue]
    refine .bind (accounts_watchLength view scope path name) fun length => ?_
    refine .bind (.quiet (.checkLength limit name length)) fun _ => ?_
    split
    · exact .quiet ((DecodeM.Pathless.readText length).map _)
    · exact .map (accounts_elements helement) _
  | .struct _ fields =>
    rw [View.check] at hcheck
    rw [watchValue]
    refine .bind (.quiet (.openChild scope name)) fun inner => ?_
    refine .bind (accounts_watchFields limit view [] fields inner hcheck) fun _ => ?_
    exact .quiet (.pure _)
  | .variant none _ => cases hcheck
  | .variant (some tag) alternatives =>
    rw [View.check] at hcheck
    obtain ⟨_, -, hcheck⟩ := exists_of_bind_eq_ok hcheck
    rw [watchValue]
    refine .bind (accounts_watchSelection view scope tag name) fun selection => ?_
    exact .map (accounts_watchAlternative limit view alternatives selection scope name hcheck) _
termination_by structural t

theorem accounts_watchFields (limit : ℕ) (view : View) (before fields : List (String × FieldType))
    (scope : ScopeId) (hcheck : view.checkFields before fields = .ok ()) :
    (watchFields limit view before fields scope).Accounts limit := by
  match fields with
  | [] => exact .quiet (.pure _)
  | (name, t) :: rest =>
    rw [View.checkFields] at hcheck
    obtain ⟨_, hhere, hthere⟩ := exists_of_bind_eq_ok hcheck
    have hvalue := accounts_watchValue limit (view.enter before) t scope name hhere
    rw [watchFields]
    refine .bind (t.accounts_watchNamed name hvalue) fun field => ?_
    refine .bind (.quiet (.bindField scope field)) fun _ => ?_
    exact accounts_watchFields limit view ((name, t) :: before) rest scope hthere
termination_by structural fields

theorem accounts_watchAlternative (limit : ℕ) (view : View)
    (alternatives : List (String × FieldType)) (selection : String) (scope : ScopeId)
    (name : String) (hcheck : view.checkAlternatives alternatives = .ok ()) :
    (watchAlternative limit view alternatives selection scope name).Accounts limit := by
  match alternatives with
  | [] => exact .quiet (.throw nofun)
  | (alternative, t) :: rest =>
    rw [View.checkAlternatives] at hcheck
    obtain ⟨_, hhere, hthere⟩ := exists_of_bind_eq_ok hcheck
    rw [watchAlternative]
    split
    · have hvalue := accounts_watchValue limit view t scope selection hhere
      exact t.accounts_watchNamed selection hvalue
    · exact accounts_watchAlternative limit view rest selection scope name hthere
termination_by structural alternatives

end

/-- All failures of paths in a block are noted, if the block has passed the check. -/
theorem accounts_watchBlock {earlier : List (StaticScope × FieldType)} {t : FieldType}
    {block : StaticScope}
    (hcheck : View.check { place := { stream := 0, event := none, block }, earlier, frames := [] } t =
      .ok ()) : (watchBlock limit earlier t block).Accounts limit := by
  refine .bind (.quiet (.openBlock block)) fun scope => .bind ?_ fun _ => .quiet (.pure _)
  have hvalue := accounts_watchValue limit _ t scope block.name hcheck
  cases t with
  | struct least members =>
    rw [View.check] at hcheck
    refine .bind (.quiet (.align _)) fun _ => ?_
    exact accounts_watchFields limit _ [] members scope hcheck
  | _ => exact .bind (accounts_watchNamed _ _ hvalue) fun field => .quiet (.bindField scope field)

end FieldType

end CommonTrace
