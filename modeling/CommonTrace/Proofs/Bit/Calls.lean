import CommonTrace.Proofs.Bit.Bare
import CommonTrace.Proofs.Bit.Errors
import Mathlib.Order.Bounds.Defs

/-!
# One call after the other

A cursor is asked for one thing after the other, whether it has been able to give the last or not.  What a call
may do is said once (`BareCursor.Call.Ends`): it gives what stands at the position and moves behind it, or it
fails and leaves everything as it was.

A cursor without proofs that starts with a limit does so at every call, whatever calls there have been before
(`BareCursor.exists_run_performAll`).  Its position never gets behind the limit, nor the limit behind the
region, and it never asks for a byte or a slice that the region does not have.  It gives what a `Cursor` gives.
-/

namespace CommonTrace

/-- Aligning goes to the least multiple from the position on. -/
lemma isLeast_alignUp {alignment : ℕ} (hpositive : 1 ≤ alignment) (start : ℕ) :
    IsLeast {bit | start ≤ bit ∧ alignment ∣ bit} (alignUp alignment start) := by
  have hdvd := Nat.dvd_of_mod_eq_zero (alignUp_mod alignment start hpositive)
  refine ⟨⟨le_alignUp alignment start, hdvd⟩, ?_⟩
  rintro bit ⟨hle, k, rfl⟩
  by_cases hmod : start % alignment = 0
  · rwa [alignUp_of_mod_eq_zero hmod]
  · -- The multiple before the position is less than `k` times the alignment, and so is the quotient.
    have hlt := Nat.mod_lt start hpositive
    have hsplit := Nat.div_add_mod start alignment
    have hquotient : start / alignment < k := by
      by_contra hge
      have hmul := Nat.mul_le_mul_left alignment (Nat.not_lt.mp hge)
      omega
    have hnext := Nat.mul_le_mul_left alignment hquotient
    rw [alignUp_of_mod_ne_zero hpositive hmod]
    rw [Nat.mul_succ] at hnext
    omega

namespace BareCursor

/-- What a cursor can be asked to do. -/
inductive Call where
  | readUnsigned (width : ℕ) (order : ByteOrder)
  | readSigned (width : ℕ) (order : ByteOrder)
  | readBytes (count : ℕ)
  | readZeroTerminated
  | align (alignment : ℕ)
  | seek (target : ℕ)
deriving DecidableEq, Repr

/-- What is given by a call that succeeds. -/
inductive Answer where
  | unsigned (value : ℕ)
  | signed (value : ℤ)
  | bytes (bytes : List UInt8)
  | moved
deriving DecidableEq, Repr

/-- What a call computes. -/
def Call.perform : Call → BareM Answer
  | .readUnsigned width order => .unsigned <$> BareCursor.readUnsigned width order
  | .readSigned width order => .signed <$> BareCursor.readSigned width order
  | .readBytes count => .bytes <$> BareCursor.readBytes count
  | .readZeroTerminated => .bytes <$> BareCursor.readZeroTerminated
  | .align alignment => (fun () => .moved) <$> BareCursor.align alignment
  | .seek target => (fun () => .moved) <$> BareCursor.seek target

/-- What a call gives if it is made to a cursor that has its proofs. -/
def Call.result (c : Cursor) : Call → Except ReadError (Answer × Cursor)
  | .readUnsigned width order => (c.readUnsigned width order).map (Prod.map .unsigned id)
  | .readSigned width order => (c.readSigned width order).map (Prod.map .signed id)
  | .readBytes count => (c.readBytes count).map (Prod.map .bytes id)
  | .readZeroTerminated => c.readZeroTerminated.map (Prod.map .bytes id)
  | .align alignment => (c.align alignment).map (.moved, ·)
  | .seek target => (c.seek target).map (.moved, ·)

/-! ## What a call may do -/

/-- The call gives the answer at a bit of the region, and ends at another.  An integer or a text that is given
lies between the two, with the zero byte that ends a text. -/
inductive Call.Gives (data : ByteArray) (start : ℕ) : Call → Answer → ℕ → Prop where
  | unsigned {width : ℕ} {order : ByteOrder} (hpositive : 0 < width) (hwidth : width ≤ 64) :
    Gives data start (.readUnsigned width order) (.unsigned (Cursor.bitsAt data start width order))
      (start + width)
  | signed {width : ℕ} {order : ByteOrder} (hpositive : 0 < width) (hwidth : width ≤ 64) :
    Gives data start (.readSigned width order)
      (.signed (signExtend (Cursor.bitsAt data start width order) width)) (start + width)
  | bytes {bytes : List UInt8} (haligned : start % 8 = 0)
    (hbytes : Cursor.bytesBetween data (start / 8) (start / 8 + bytes.length) = bytes) :
    Gives data start (.readBytes bytes.length) (.bytes bytes) (start + 8 * bytes.length)
  | zeroTerminated {bytes : List UInt8} (haligned : start % 8 = 0)
    (hbytes : Cursor.bytesBetween data (start / 8) (start / 8 + bytes.length) = bytes) (hfree : 0 ∉ bytes)
    (hend : data[start / 8 + bytes.length]? = some 0) :
    Gives data start .readZeroTerminated (.bytes bytes) (start + 8 * (bytes.length + 1))
  /-- The least multiple of the alignment that does not lie before the position. -/
  | aligned {alignment stop : ℕ} (hpositive : 1 ≤ alignment)
    (hleast : IsLeast {bit | start ≤ bit ∧ alignment ∣ bit} stop) :
    Gives data start (.align alignment) .moved stop
  /-- An alignment of zero is none. -/
  | unaligned : Gives data start (.align 0) .moved start
  | sought {target : ℕ} : Gives data start (.seek target) .moved target

/-- A call that is made at `c` ends well: it is answered and moves to a place that is not behind the limit, or
it fails and moves nothing.  Neither the region nor the limit is changed.  The program stops at a failure only
if it was to read so many bytes that a machine word does not count their bits. -/
inductive Call.Ends (call : Call) (c : BareCursor) : EStateM.Result Stop BareCursor Answer → Prop where
  | answered {answer : Answer} {stop : ℕ} (hgives : call.Gives c.data c.position answer stop)
    (hstop : stop ≤ c.limit) : Ends call c (.ok answer { c with position := stop })
  | refused (error : ReadError)
    (hstops : error.stops = true → ∃ count, call = .readBytes count ∧ twoPow 61 ≤ count) :
    Ends call c (.error (.failed error) c)

variable {c next : Cursor} {call : Call} {answer : Answer}

/-- An answer that is made of what an operation gives. -/
lemma of_map_ok {α β γ : Type} {result : Except ReadError (α × γ)} {f : α → β} {b : β} {next : γ}
    (h : result.map (Prod.map f id) = .ok (b, next)) : ∃ a, result = .ok (a, next) ∧ b = f a := by
  rcases result with error | ⟨a, next'⟩
  · cases h
  · cases h
    exact ⟨a, rfl, rfl⟩

/-- An answer that says only that the cursor has been moved. -/
lemma of_map_moved_ok {result : Except ReadError Cursor}
    (h : result.map (Answer.moved, ·) = .ok (answer, next)) : result = .ok next ∧ answer = .moved := by
  rcases result with error | next'
  · cases h
  · cases h
    exact ⟨rfl, rfl⟩

/-- **What a call gives** to a cursor that has its proofs. -/
lemma gives_of_result (h : call.result c = .ok (answer, next)) :
    ∃ stop, call.Gives c.data c.position answer stop ∧ c.MovedTo stop next := by
  cases call with
  | readUnsigned width order =>
    obtain ⟨value, hread, rfl⟩ := of_map_ok h
    obtain ⟨hpositive, hwidth, rfl, hmoved⟩ := Cursor.of_readUnsigned_ok hread
    exact ⟨_, .unsigned hpositive hwidth, hmoved⟩
  | readSigned width order =>
    obtain ⟨value, hread, rfl⟩ := of_map_ok h
    obtain ⟨hpositive, hwidth, rfl, hmoved⟩ := Cursor.of_readSigned_ok hread
    exact ⟨_, .signed hpositive hwidth, hmoved⟩
  | readBytes count =>
    obtain ⟨bytes, hread, rfl⟩ := of_map_ok h
    obtain ⟨haligned, hbytes, hmoved⟩ := Cursor.of_readBytes_ok hread
    have hsize := hmoved.le_size
    have hlength : bytes.length = count := by
      rw [hbytes, Cursor.length_bytesBetween (by omega), Nat.add_sub_cancel_left]
    subst hlength
    exact ⟨_, .bytes haligned hbytes.symm, hmoved⟩
  | readZeroTerminated =>
    obtain ⟨bytes, hread, rfl⟩ := of_map_ok h
    obtain ⟨haligned, hfree, hbytes, hend, hmoved⟩ := Cursor.of_readZeroTerminated_ok hread
    exact ⟨_, .zeroTerminated haligned hbytes.symm hfree hend, hmoved⟩
  | align alignment =>
    obtain ⟨halign, rfl⟩ := of_map_moved_ok h
    have hmoved := Cursor.of_align_ok halign
    by_cases hzero : alignment = 0
    · subst hzero
      rw [alignUp_of_le_one (Nat.zero_le 1)] at hmoved
      exact ⟨_, .unaligned, hmoved⟩
    · have hpositive := Nat.pos_of_ne_zero hzero
      exact ⟨_, .aligned hpositive (isLeast_alignUp hpositive c.position), hmoved⟩
  | seek target =>
    obtain ⟨hseek, rfl⟩ := of_map_moved_ok h
    exact ⟨_, .sought, Cursor.of_seek_ok hseek⟩

/-- Made to the numbers of a cursor, a call has the outcome that it has at the cursor. -/
lemma run_perform (call : Call) (c : Cursor) :
    call.perform.run (ofCursor c) = outcome c (call.result c) := by
  cases call with
  | readUnsigned width order => exact run_map_of_run _ (run_readUnsigned c width order)
  | readSigned width order => exact run_map_of_run _ (run_readSigned c width order)
  | readBytes count => exact run_map_of_run _ (run_readBytes c count)
  | readZeroTerminated => exact run_map_of_run _ (run_readZeroTerminated c)
  | align alignment =>
    rw [Call.perform, run_map_of_run _ (run_align c alignment), Call.result]
    rcases c.align alignment with _ | _ <;> rfl
  | seek target =>
    rw [Call.perform, run_map_of_run _ (run_seek c target), Call.result]
    rcases c.seek target with _ | _ <;> rfl

/-- What cannot be answered is reported, unless too many bytes are asked for to count their bits. -/
lemma exists_of_stops {error : ReadError} (h : call.result c = .error error) (hstops : error.stops = true) :
    ∃ count, call = .readBytes count ∧ twoPow 61 ≤ count := by
  have hreport : ∀ result : Except ReadError (Answer × Cursor), Reported result → result ≠ .error error :=
    fun result hreported heq => hreported error heq hstops
  cases call with
  | readUnsigned width order => exact absurd h (hreport _ ((c.reported_readUnsigned width order).map _))
  | readSigned width order => exact absurd h (hreport _ ((c.reported_readSigned width order).map _))
  | readBytes count =>
    refine ⟨count, rfl, Nat.le_of_not_lt fun hlt => ?_⟩
    exact absurd h (hreport _ ((c.reported_readBytes hlt).map _))
  | readZeroTerminated => exact absurd h (hreport _ (c.reported_readZeroTerminated.map _))
  | align alignment => exact absurd h (hreport _ ((c.reported_align alignment).map _))
  | seek target => exact absurd h (hreport _ ((c.reported_seek target).map _))

/-- **Every call ends well** that is made to the numbers of a cursor. -/
lemma ends_run_perform (call : Call) (c : Cursor) :
    call.Ends (ofCursor c) (call.perform.run (ofCursor c)) := by
  rw [run_perform]
  rcases hresult : call.result c with error | ⟨answer, next⟩
  · exact .refused error (exists_of_stops hresult)
  · obtain ⟨stop, hgives, hmoved⟩ := gives_of_result hresult
    have hnumbers : ofCursor next = { ofCursor c with position := stop } := by
      rw [ofCursor, hmoved.data, hmoved.limit, hmoved.position]
      rfl
    have hstop : stop ≤ c.limit := by
      rw [← hmoved.position, ← hmoved.limit]
      exact next.position_le
    rw [outcome, hnumbers]
    exact .answered hgives hstop

/-! ## Any number of calls -/

/-- A computation that gives its error as a result.  The cursor stays where it has been left, and nothing helps
against what is out of range. -/
def attempt {α : Type} (m : BareM α) : BareM (Except ReadError α) := fun c =>
  match m.run c with
  | .ok value c' => .ok (.ok value) c'
  | .error (.failed error) c' => .ok (.error error) c'
  | .error .outOfRange c' => .error .outOfRange c'

/-- Makes one call after the other, whether they fail or not. -/
def performAll : List Call → BareM (List (Except ReadError Answer))
  | [] => return []
  | call :: calls => do
    let answer ← attempt call.perform
    let answers ← performAll calls
    return answer :: answers

/-- What the calls give if they are made to a cursor that has its proofs, and where they leave it. -/
def resultAll (c : Cursor) : List Call → List (Except ReadError Answer) × Cursor
  | [] => ([], c)
  | call :: calls =>
    match call.result c with
    | .ok (answer, next) => (resultAll next calls).map (.ok answer :: ·) id
    | .error error => (resultAll c calls).map (.error error :: ·) id

/-- Calls leave a cursor in its region, with the limit that it had. -/
lemma stays_resultAll (c : Cursor) (calls : List Call) :
    (resultAll c calls).2.data = c.data ∧ (resultAll c calls).2.limit = c.limit := by
  induction calls generalizing c with
  | nil => exact ⟨rfl, rfl⟩
  | cons call calls ih =>
    rw [resultAll]
    rcases hresult : call.result c with error | ⟨answer, next⟩
    · exact ih c
    · obtain ⟨stop, -, hmoved⟩ := gives_of_result hresult
      obtain ⟨hdata, hlimit⟩ := ih next
      exact ⟨hdata.trans hmoved.data, hlimit.trans hmoved.limit⟩

/-- Calls are never stopped by something that is out of range. -/
lemma run_performAll (c : Cursor) (calls : List Call) :
    (performAll calls).run (ofCursor c) = .ok (resultAll c calls).1 (ofCursor (resultAll c calls).2) := by
  induction calls generalizing c with
  | nil => rfl
  | cons call calls ih =>
    have hattempt : (attempt call.perform).run (ofCursor c) =
        match call.result c with
        | .ok (answer, next) => .ok (.ok answer) (ofCursor next)
        | .error error => .ok (.error error) (ofCursor c) := by
      rw [EStateM.run, attempt, run_perform]
      rcases call.result c with error | ⟨answer, next⟩ <;> rfl
    rw [performAll, resultAll, EStateM.run_bind, hattempt]
    rcases call.result c with error | ⟨answer, next⟩
    · simp only [EStateM.run_bind, ih c]
      rfl
    · simp only [EStateM.run_bind, ih next]
      rfl

/-- **Whatever calls a cursor gets, it stays in its region.**  A cursor that starts with a limit answers them
all, and gives what the cursor gives that has its proofs.  The region and the limit are the ones it started
with, the position has not got behind the limit, nor the limit behind the region; and whatever is asked next
ends well, so nothing is out of range, what is answered moves over what is given, and what is refused moves
nothing and is reported, unless `2 ^ 61` bytes or more are asked for. -/
theorem exists_run_performAll (data : ByteArray) (bits : ℕ) (calls : List Call) :
    ∃ (answers : List (Except ReadError Answer)) (c : BareCursor),
      (performAll calls).run ((ofBytes data).withLimit bits) = .ok answers c ∧
      (answers, c) = (resultAll (Cursor.ofPrefix data bits) calls).map id ofCursor ∧
      c.data = data ∧ c.limit = min bits (8 * data.size) ∧
      c.position ≤ c.limit ∧ c.limit ≤ 8 * data.size ∧
      ∀ call : Call, call.Ends c (call.perform.run c) := by
  obtain ⟨hdata, hlimit⟩ := stays_resultAll (Cursor.ofPrefix data bits) calls
  have hposition := (resultAll (Cursor.ofPrefix data bits) calls).2.position_le
  refine ⟨_, _, ?_, rfl, hdata, hlimit, hposition, ?_, ?_⟩
  · rw [← ofCursor_ofPrefix, run_performAll]
    rfl
  · exact Nat.le_trans (Nat.le_of_eq hlimit) (Nat.min_le_right _ _)
  · intro call
    exact ends_run_perform call _

/-- A read for which too few bits are left moves nothing. -/
example :
    (resultAll (Cursor.ofPrefix ⟨#[0x12, 0x34]⟩ 16)
        [.readUnsigned 12 .big, .readUnsigned 8 .big]).map id Cursor.position =
      ([.ok (.unsigned 0x123), .error (.underflow 12 (some 8) 4)], 12) := by
  decide

end BareCursor

end CommonTrace
