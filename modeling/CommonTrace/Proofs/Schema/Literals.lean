import CommonTrace.Schema.Assignment
import CommonTrace.Proofs.Bit.Positional
import CommonTrace.Proofs.Schema.Trees
import Mathlib.Data.List.DropRight
import Mathlib.Data.Nat.Digits.Defs
import Mathlib.Tactic.Lemma
import Mathlib.Tactic.Ring

/-!
# Numbers in metadata

A number is written in decimal, in hexadecimal behind `0x`, or in octal behind `0`, and letters that give
its size in C may follow.  `Tsdl.Node.Writes` says which nodes write an integer, by the value of the digits
at their places and without reading them: any number of zeros may stand in front, and a letter among the
digits may be of either case.

Reading gives the integer back, whatever way it is written in, as long as its magnitude takes less than
128 bits.  As the value of an assignment it is accepted just if it has the width that is asked for
(`Assignment.number_of_writes`).
-/

namespace CommonTrace

open Tsdl

/-! ## Digits -/

namespace Numeral

/-- The character is a digit of this value; a letter may be of either case. -/
def IsDigit (base value : ℕ) (c : Char) : Prop :=
  value < base ∧ (c = Nat.digitChar value ∨ c = (Nat.digitChar value).toUpper)

/-- **The digits write the number.**  There is one at least, and each counts by its place. -/
structure Writes (base : ℕ) (text : List Char) (n : ℕ) : Prop where
  nonempty : text ≠ []
  positional : ∃ values, List.Forall₂ (IsDigit base) values text ∧ Nat.ofDigits base values.reverse = n

variable {base value n : ℕ} {c : Char} {values : List ℕ} {text : List Char}

lemma digit?_of_isDigit (hbase : base ∈ [8, 10, 16]) (h : IsDigit base value c) :
    digit? base c = some value := by
  have hall : ∀ base ∈ [8, 10, 16], ∀ value < base,
      digit? base (Nat.digitChar value) = some value ∧
        digit? base (Nat.digitChar value).toUpper = some value := by
    decide
  obtain ⟨hvalue, rfl | rfl⟩ := h
  · exact (hall base hbase value hvalue).1
  · exact (hall base hbase value hvalue).2

/-- A digit is neither a sign nor a letter of a suffix, and `0` is nothing but zero. -/
lemma ne_of_isDigit (hbase : base ∈ [8, 10, 16]) (h : IsDigit base value c) :
    c ∉ ['+', '-', 'u', 'U', 'l', 'L'] ∧ (c = '0' → value = 0) := by
  have hall : ∀ value < 16,
      (Nat.digitChar value ∉ ['+', '-', 'u', 'U', 'l', 'L'] ∧ (Nat.digitChar value = '0' → value = 0)) ∧
        (Nat.digitChar value).toUpper ∉ ['+', '-', 'u', 'U', 'l', 'L'] ∧
          ((Nat.digitChar value).toUpper = '0' → value = 0) := by
    decide
  have hle : ∀ base ∈ [8, 10, 16], base ≤ 16 := by decide
  obtain ⟨hvalue, rfl | rfl⟩ := h
  · exact (hall value (Nat.lt_of_lt_of_le hvalue (hle base hbase))).1
  · exact (hall value (Nat.lt_of_lt_of_le hvalue (hle base hbase))).2

lemma ofDigits_reverse_cons (base value : ℕ) (values : List ℕ) :
    Nat.ofDigits base (value :: values).reverse =
      value * base ^ values.length + Nat.ofDigits base values.reverse := by
  rw [List.reverse_cons, Nat.ofDigits_append, Nat.ofDigits_singleton, List.length_reverse, Nat.add_comm,
    Nat.mul_comm]

/-- Appended digits count by their places, and move those before them. -/
lemma appendDigits?_of_isDigit (hbase : base ∈ [8, 10, 16])
    (h : List.Forall₂ (IsDigit base) values text) (n : ℕ) :
    appendDigits? base n text = some (n * base ^ values.length + Nat.ofDigits base values.reverse) := by
  induction h generalizing n with
  | nil => simp [appendDigits?]
  | @cons value c values text hdigit _ ih =>
    have hstep : appendDigits? base n (c :: text) = appendDigits? base (n * base + value) text := by
      simp only [appendDigits?, List.foldlM_cons, digit?_of_isDigit hbase hdigit]
      rfl
    rw [hstep, ih, ofDigits_reverse_cons, List.length_cons, pow_succ]
    congr 1
    ring

lemma Writes.isDigit (h : Writes base text n) (hc : c ∈ text) : ∃ value, IsDigit base value c := by
  obtain ⟨-, values, hvalues, -⟩ := h
  induction hvalues with
  | nil => cases hc
  | cons hdigit _ ih =>
    rcases List.mem_cons.mp hc with rfl | hc
    · exact ⟨_, hdigit⟩
    · exact ih hc

lemma Writes.natural? (hbase : base ∈ [8, 10, 16]) (h : Writes base text n) :
    natural? base text = some n := by
  obtain ⟨hnonempty, values, hvalues, rfl⟩ := h
  rw [Numeral.natural?, List.isEmpty_eq_false_iff.mpr hnonempty, appendDigits?_of_isDigit hbase hvalues]
  simp

/-- Stated for any integer: with a natural number in its place, the kernel would count up to the bound. -/
lemma bind_of_fits {z : ℤ} (hfits : FitsSigned 128 z) :
    (some z >>= fun n => if FitsSigned 128 n then some n else none) = some z :=
  if_pos hfits

/-- Without a sign in front, the digits are all there is. -/
lemma integer?_of_natural? (hsign : ∀ c ∈ text.head?, c ≠ '+' ∧ c ≠ '-')
    (h : Numeral.natural? base text = some n) (hfits : FitsSigned 128 (n : ℤ)) :
    integer? base text = some (n : ℤ) := by
  have hread : (Numeral.natural? base text).map Int.ofNat = some (n : ℤ) := by
    rw [h]
    rfl
  unfold integer?
  split
  · exact absurd rfl (hsign '-' rfl).2
  · exact absurd rfl (hsign '+' rfl).1
  · rw [hread]
    exact bind_of_fits hfits

/-- Digits are read as what they write, if that fits. -/
lemma Writes.integer? (hbase : base ∈ [8, 10, 16]) (h : Writes base text n) (hn : n < 2 ^ 127) :
    integer? base text = some (n : ℤ) := by
  refine integer?_of_natural? (fun c hc => ?_) (h.natural? hbase) ⟨?_, ?_⟩
  · obtain ⟨value, hdigit⟩ := h.isDigit (List.mem_of_head? hc)
    have hother := (ne_of_isDigit hbase hdigit).1
    simp only [List.mem_cons, not_or] at hother
    exact ⟨hother.1, hother.2.1⟩
  · have hpos := twoPow_pos (128 - 1)
    omega
  · rw [twoPow_eq]
    exact_mod_cast hn

/-- Zeros in front do not count. -/
lemma exists_dropWhile_zero (hbase : base ∈ [8, 10, 16]) (h : List.Forall₂ (IsDigit base) values text) :
    ∃ values', List.Forall₂ (IsDigit base) values' (text.dropWhile (· = '0')) ∧
      Nat.ofDigits base values'.reverse = Nat.ofDigits base values.reverse := by
  induction h with
  | nil => exact ⟨[], .nil, rfl⟩
  | @cons value c values text hdigit hrest ih =>
    by_cases hzero : c = '0'
    · obtain ⟨values', hvalues', heq⟩ := ih
      refine ⟨values', ?_, ?_⟩
      · simpa [hzero] using hvalues'
      · rw [heq, ofDigits_reverse_cons, (ne_of_isDigit hbase hdigit).2 hzero, Nat.zero_mul, Nat.zero_add]
    · refine ⟨value :: values, ?_, rfl⟩
      simpa [hzero] using List.Forall₂.cons hdigit hrest

end Numeral

/-! ## Literals -/

/-- **The text of a number node**, without a sign and a suffix. -/
inductive IsLiteral (n : ℕ) : NodeKind → List Char → Prop
  | decimal {digits : List Char} (h : Numeral.Writes 10 digits n) : IsLiteral n .unaryDec digits
  | hexadecimal {x : Char} {digits : List Char} (hx : x = 'x' ∨ x = 'X')
      (h : Numeral.Writes 16 digits n) : IsLiteral n .unaryHex ('0' :: x :: digits)
  | octal {digits : List Char} (h : Numeral.Writes 8 ('0' :: digits) n) :
      IsLiteral n .unaryOct ('0' :: digits)

/-- **The node writes the integer**: a literal of its magnitude and any letters of a suffix behind it, with a
minus sign as a child just if the integer is negative. -/
structure Tsdl.Node.Writes (node : Node) (n : ℤ) : Prop where
  text : ∃ literal suffix, node.text.toList = literal ++ suffix ∧ IsLiteral n.natAbs node.kind literal ∧
    ∀ c ∈ suffix, c ∈ ['u', 'U', 'l', 'L']
  minus : (∃ child ∈ node.children, child.kind = .minus) ↔ n < 0

namespace IsLiteral

variable {n : ℕ} {kind : NodeKind} {literal suffix : List Char}

/-- A literal is read as what it writes. -/
lemma literalValue? (h : IsLiteral n kind literal) (hn : n < 2 ^ 127) :
    literalValue? kind literal = some (n : ℤ) := by
  cases h with
  | decimal h => exact h.integer? (by decide) hn
  | hexadecimal hx h =>
    rcases hx with rfl | rfl
    · exact h.integer? (by decide) hn
    · exact h.integer? (by decide) hn
  | @octal digits h =>
    obtain ⟨-, values, hvalues, hvalue⟩ := h
    obtain ⟨values', hvalues', heq⟩ := Numeral.exists_dropWhile_zero (by decide) hvalues
    rw [hvalue] at heq
    unfold CommonTrace.literalValue?
    dsimp only
    split
    · rename_i hempty
      rw [List.isEmpty_iff.mp hempty] at hvalues'
      cases hvalues'
      rw [← heq]
      rfl
    · rename_i hrest
      have hwrites : Numeral.Writes 8 (('0' :: digits).dropWhile (· = '0')) n :=
        ⟨by simpa using hrest, values', hvalues', heq⟩
      exact hwrites.integer? (by decide) hn

/-- A literal does not end with a letter of a suffix. -/
lemma getLast_notMem (h : IsLiteral n kind literal) (hnonempty : literal ≠ []) :
    literal.getLast hnonempty ∉ ['u', 'U', 'l', 'L'] := by
  have hlast : ∀ {base : ℕ} {digits : List Char}, base ∈ [8, 10, 16] → Numeral.Writes base digits n →
      ∀ hdigits : digits ≠ [], digits.getLast hdigits ∉ ['u', 'U', 'l', 'L'] := by
    intro base digits hbase hwrites hdigits
    obtain ⟨value, hdigit⟩ := hwrites.isDigit (List.getLast_mem hdigits)
    have hother := (Numeral.ne_of_isDigit hbase hdigit).1
    exact fun hmem => hother (List.mem_cons_of_mem _ (List.mem_cons_of_mem _ hmem))
  cases h with
  | decimal h => exact hlast (by decide) h hnonempty
  | hexadecimal _ h =>
    rw [List.getLast_cons (List.cons_ne_nil _ _), List.getLast_cons h.nonempty]
    exact hlast (by decide) h h.nonempty
  | octal h => exact hlast (by decide) h hnonempty

/-- Of a literal with a suffix, the literal is left. -/
lemma withoutSuffix (h : IsLiteral n kind literal) (hsuffix : ∀ c ∈ suffix, c ∈ ['u', 'U', 'l', 'L']) :
    withoutSuffix (literal ++ suffix) = literal := by
  have hdrop : CommonTrace.withoutSuffix (literal ++ suffix) =
      (literal ++ suffix).rdropWhile fun c => c = 'u' || c = 'U' || c = 'l' || c = 'L' := rfl
  rw [hdrop]
  induction suffix using List.reverseRecOn with
  | nil =>
    rw [List.append_nil, List.rdropWhile_eq_self_iff]
    intro hnonempty
    have hlast := h.getLast_notMem hnonempty
    simpa [and_assoc] using hlast
  | append_singleton suffix c ih =>
    have hc : c ∈ ['u', 'U', 'l', 'L'] := hsuffix c (by simp)
    rw [← List.append_assoc, List.rdropWhile_concat_pos _ _ _ (by simpa [or_assoc] using hc)]
    exact ih (fun c hmem => hsuffix c (List.mem_append_left _ hmem)) rfl

end IsLiteral

/-! ## Reading -/

/-- **A node that writes an integer is read as that integer.** -/
lemma numberOf_of_writes {node : Node} {n : ℤ} (h : node.Writes n) (hn : n.natAbs < 2 ^ 127) :
    numberOf node = .ok n := by
  obtain ⟨⟨literal, suffix, htext, hliteral, hsuffix⟩, hminus⟩ := h
  have hsign : node.hasChild .minus = decide (n < 0) := by
    rw [Bool.eq_iff_iff, decide_eq_true_iff, ← hminus]
    simp [Node.hasChild, Node.child?]
  have hvalue : (if decide (n < 0) = true then Int.bmod (-(n.natAbs : ℤ)) (twoPow 128) else n.natAbs) = n := by
    split
    · rename_i hneg
      have hneg := of_decide_eq_true hneg
      have hwhole : twoPow 128 = 2 * 2 ^ 127 := rfl
      rw [Int.bmod_eq_of_le_mul_two (by omega) (by omega)]
      omega
    · rename_i hneg
      have hneg := of_decide_eq_false (Bool.eq_false_iff.mpr hneg)
      omega
  rw [numberOf, htext, hliteral.withoutSuffix hsuffix, hliteral.literalValue? hn, hsign]
  exact congrArg Except.ok hvalue

namespace Assignment

variable {node : Node} {n : ℤ} {key : String}

lemma fitsUnsigned_iff : FitsUnsigned 64 n ↔ 0 ≤ n ∧ n < 2 ^ 64 := by
  rw [FitsUnsigned, twoPow_eq]
  norm_cast

lemma fitsSigned_iff : FitsSigned 64 n ↔ -2 ^ 63 ≤ n ∧ n < 2 ^ 63 := by
  rw [FitsSigned, twoPow_eq]
  norm_cast

/-- **Numbers are read as they are written.**  A node that writes an integer of less than 128 bits, in any
of the three bases, is read as that integer, alone and as the value of an assignment.  Where a natural
number or an integer of sixty-four bits is asked for, the integer itself is given if it is one, and the
assignment is at fault otherwise. -/
theorem number_of_writes (h : node.Writes n) (hn : n.natAbs < 2 ^ 127) :
    numberOf node = .ok n ∧ number ⟨key, [node]⟩ = .ok n ∧
      unsigned ⟨key, [node]⟩ =
        (if 0 ≤ n ∧ n < 2 ^ 64 then .ok n.toNat else .error (.invalid (.attribute key .unsigned))) ∧
      signed ⟨key, [node]⟩ =
        (if -2 ^ 63 ≤ n ∧ n < 2 ^ 63 then .ok n else .error (.invalid (.attribute key .signed))) := by
  have hread := numberOf_of_writes h hn
  have hnumber : number ⟨key, [node]⟩ = .ok n := by
    simp only [number, hread]
  refine ⟨hread, hnumber, ?_, ?_⟩
  · simp only [unsigned, hnumber, fitsUnsigned_iff]
    rfl
  · simp only [signed, hnumber, fitsSigned_iff]
    rfl

/-- Two hundred and fifty-five below zero, in digits of either case behind zeros, and with a suffix. -/
theorem number_of_writes_hexadecimal :
    numberOf ⟨.unaryHex, "0X00fFuL", [.word .minus "-"]⟩ = .ok (-255) ∧
      signed ⟨"offset", [⟨.unaryHex, "0X00fFuL", [.word .minus "-"]⟩]⟩ = .ok (-255) ∧
      unsigned ⟨"offset", [⟨.unaryHex, "0X00fFuL", [.word .minus "-"]⟩]⟩ =
        .error (.invalid (.attribute "offset" .unsigned)) := by
  have hdigits : Numeral.Writes 16 ['0', '0', 'f', 'F'] 255 :=
    ⟨by decide, [0, 0, 15, 15], by simp [Numeral.IsDigit]; decide, by decide⟩
  have hwrites : Node.Writes ⟨.unaryHex, "0X00fFuL", [.word .minus "-"]⟩ (-255) :=
    ⟨⟨['0', 'X', '0', '0', 'f', 'F'], ['u', 'L'], by decide, .hexadecimal (.inr rfl) hdigits, by simp⟩,
      by simp [Node.word]⟩
  obtain ⟨hnumber, -, hunsigned, hsigned⟩ := @number_of_writes _ _ "offset" hwrites (by decide)
  exact ⟨hnumber, hsigned, hunsigned⟩

end Assignment

end CommonTrace
