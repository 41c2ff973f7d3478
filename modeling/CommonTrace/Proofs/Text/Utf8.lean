import CommonTrace.Text.Utf8
import Mathlib.Data.Nat.Notation
import Mathlib.Tactic.Lemma
import Mathlib.Tactic.SplitIfs

/-!
# Text and its bytes

Reading the UTF-8 bytes of a text gives the text back (`Utf8.decode_utf8Bytes`).

Of other bytes, too, something can be said: no zero character comes up where there is no zero byte
(`Utf8.zero_notMem_decode`).  Ill-formed bytes give replacement characters, and a character of several
bytes is complete only with a number that is none of a surrogate and not zero.  `Unfinished.Sound` is
what the machine knows of this while it is inside a character.
-/

namespace CommonTrace

/-- The bytes of a text. -/
def utf8Bytes (text : String) : List UInt8 :=
  text.toUTF8.data.toList

lemma utf8Bytes_eq_flatMap (text : String) :
    utf8Bytes text = text.toList.flatMap String.utf8EncodeChar := by
  have htext : text = String.ofList text.toList := String.ofList_toList.symm
  unfold utf8Bytes
  rw [String.toUTF8_eq_toByteArray, htext, String.toByteArray_ofList, List.utf8Encode,
    List.data_toByteArray, String.toList_ofList]

/-- A text has a zero byte only where it has a zero character. -/
lemma zero_notMem_utf8EncodeChar {c : Char} (h : c ≠ '\x00') : 0 ∉ String.utf8EncodeChar c := by
  have hpositive : c.val.toNat ≠ 0 := by
    intro hzero
    apply h
    rw [← Char.ofNat_toNat c, Char.toNat, hzero]
  have hbyte : ∀ n : ℕ, n % 256 ≠ 0 → (0 : UInt8) ≠ UInt8.ofNat n := by
    intro n hn heq
    have hnat := congrArg UInt8.toNat heq
    rw [UInt8.toNat_ofNat'] at hnat
    exact hn hnat.symm
  have hlt := c.val.toNat_lt
  unfold String.utf8EncodeChar
  dsimp only
  split
  · rw [List.mem_singleton]
    exact hbyte _ (by omega)
  split
  · simp only [List.mem_cons, List.not_mem_nil, or_false, not_or]
    exact ⟨hbyte _ (by omega), hbyte _ (by omega)⟩
  split
  · simp only [List.mem_cons, List.not_mem_nil, or_false, not_or]
    exact ⟨hbyte _ (by omega), hbyte _ (by omega), hbyte _ (by omega)⟩
  · simp only [List.mem_cons, List.not_mem_nil, or_false, not_or]
    exact ⟨hbyte _ (by omega), hbyte _ (by omega), hbyte _ (by omega), hbyte _ (by omega)⟩

lemma zero_notMem_utf8Bytes {text : String} (h : '\x00' ∉ text.toList) : 0 ∉ utf8Bytes text := by
  rw [utf8Bytes_eq_flatMap, List.mem_flatMap]
  rintro ⟨c, hc, hzero⟩
  refine zero_notMem_utf8EncodeChar ?_ hzero
  rintro rfl
  exact h hc

namespace Utf8

/-! ## One byte -/

lemma lead_of_two {byte : ℕ} (hlow : 0xC2 ≤ byte) (hhigh : byte < 0xE0) :
    lead byte = .opening ⟨byte - 0xC0, 0, 0x80, 0xBF⟩ := by
  rw [lead, if_neg (by omega), if_neg (by omega), if_pos hhigh]

lemma lead_of_three {byte : ℕ} (hlow : 0xE0 ≤ byte) (hhigh : byte < 0xF0) :
    lead byte = .opening ⟨byte - 0xE0, 1, if byte = 0xE0 then 0xA0 else 0x80,
      if byte = 0xED then 0x9F else 0xBF⟩ := by
  rw [lead, if_neg (by omega), if_neg (by omega), if_neg (by omega), if_pos hhigh]

lemma lead_of_four {byte : ℕ} (hlow : 0xF0 ≤ byte) (hhigh : byte < 0xF5) :
    lead byte = .opening ⟨byte - 0xF0, 2, if byte = 0xF0 then 0x90 else 0x80,
      if byte = 0xF4 then 0x8F else 0xBF⟩ := by
  rw [lead, if_neg (by omega), if_neg (by omega), if_neg (by omega), if_neg (by omega),
    if_pos hhigh]

/-- A byte that is read between characters. -/
lemma step_none (byte : UInt8) : step none byte =
    match lead byte.toNat with
    | .single c => ([c], none)
    | .opening p => ([], some p)
    | .invalid => ([replacement], none) :=
  rfl

/-- A byte that goes on with a character. -/
lemma step_some {p : Unfinished} {byte : UInt8} (hlow : p.low ≤ byte.toNat)
    (hhigh : byte.toNat ≤ p.high) : step (some p) byte =
      match p.more with
      | 0 => ([Char.ofNat (p.bits * 64 + (byte.toNat - 0x80))], none)
      | more + 1 => ([], some ⟨p.bits * 64 + (byte.toNat - 0x80), more, 0x80, 0xBF⟩) :=
  if_pos ⟨hlow, hhigh⟩

/-- A byte that breaks a character off. -/
lemma step_broken {p : Unfinished} {byte : UInt8}
    (h : ¬(p.low ≤ byte.toNat ∧ byte.toNat ≤ p.high)) :
    step (some p) byte = (replacement :: (step none byte).1, (step none byte).2) := by
  rw [step_none]
  refine (if_neg h).trans ?_
  cases lead byte.toNat <;> rfl

lemma feed_cons (text : String) (state : Option Unfinished) (byte : UInt8) (bytes : List UInt8) :
    feed text state (byte :: bytes) =
      feed ((step state byte).1.foldl String.push text) (step state byte).2 bytes :=
  rfl

/-! ## Bytes of a text -/

section Characters

variable (text : String) {bytes : List UInt8}

lemma feed_single {byte : UInt8} {c : Char} (h : lead byte.toNat = .single c) :
    feed text none (byte :: bytes) = feed (text.push c) none bytes := by
  rw [feed_cons, step_none, h]
  rfl

lemma feed_opening {byte : UInt8} {p : Unfinished} (h : lead byte.toNat = .opening p) :
    feed text none (byte :: bytes) = feed text (some p) bytes := by
  rw [feed_cons, step_none, h]
  rfl

lemma feed_inner {bits more low high : ℕ} {byte : UInt8} (hlow : low ≤ byte.toNat)
    (hhigh : byte.toNat ≤ high) :
    feed text (some ⟨bits, more + 1, low, high⟩) (byte :: bytes) =
      feed text (some ⟨bits * 64 + (byte.toNat - 0x80), more, 0x80, 0xBF⟩) bytes := by
  rw [feed_cons, step_some hlow hhigh]
  rfl

lemma feed_last {bits low high : ℕ} {byte : UInt8} {c : Char} (hlow : low ≤ byte.toNat)
    (hhigh : byte.toNat ≤ high) (hbits : Char.ofNat (bits * 64 + (byte.toNat - 0x80)) = c) :
    feed text (some ⟨bits, 0, low, high⟩) (byte :: bytes) = feed (text.push c) none bytes := by
  rw [feed_cons, step_some hlow hhigh, hbits]
  rfl

/-- **Reading the bytes of a character gives the character.** -/
lemma feed_utf8EncodeChar (c : Char) :
    feed text none (String.utf8EncodeChar c ++ bytes) = feed (text.push c) none bytes := by
  have hvalid := c.valid
  have hchar : ∀ {n : ℕ}, n = c.val.toNat → Char.ofNat n = c := by
    rintro n rfl
    exact Char.ofNat_toNat c
  have hbyte : ∀ n < 256, (UInt8.ofNat n).toNat = n := fun n hn => by
    rw [UInt8.toNat_ofNat', Nat.mod_eq_of_lt hn]
  unfold UInt32.isValidChar Nat.isValidChar at hvalid
  unfold String.utf8EncodeChar
  generalize c.val.toNat = v at hvalid hchar ⊢
  dsimp only
  split
  · have hfirst := hbyte v (by omega)
    refine feed_single text ?_
    rw [hfirst, lead, if_pos (by omega), hchar rfl]
  split
  · have hfirst := hbyte (v / 64 % 32 + 192) (by omega)
    have hsecond := hbyte (v % 64 + 128) (by omega)
    refine (feed_opening text (lead_of_two (by omega) (by omega))).trans ?_
    exact feed_last text (by omega) (by omega) (hchar (by omega))
  split
  · have hfirst := hbyte (v / 4096 % 16 + 224) (by omega)
    have hsecond := hbyte (v / 64 % 64 + 128) (by omega)
    have hthird := hbyte (v % 64 + 128) (by omega)
    refine (feed_opening text (lead_of_three (by omega) (by omega))).trans ?_
    refine (feed_inner text (by split <;> omega) (by split <;> omega)).trans ?_
    exact feed_last text (by omega) (by omega) (hchar (by omega))
  · have hfirst := hbyte (v / 262144 % 8 + 240) (by omega)
    have hsecond := hbyte (v / 4096 % 64 + 128) (by omega)
    have hthird := hbyte (v / 64 % 64 + 128) (by omega)
    have hfourth := hbyte (v % 64 + 128) (by omega)
    refine (feed_opening text (lead_of_four (by omega) (by omega))).trans ?_
    refine (feed_inner text (by split <;> omega) (by split <;> omega)).trans ?_
    refine (feed_inner text (by omega) (by omega)).trans ?_
    exact feed_last text (by omega) (by omega) (hchar (by omega))

lemma feed_flatMap (chars : List Char) :
    feed text none (chars.flatMap String.utf8EncodeChar) = (chars.foldl String.push text, none) := by
  induction chars generalizing text with
  | nil => rfl
  | cons c chars ih => rw [List.flatMap_cons, feed_utf8EncodeChar, ih, List.foldl_cons]

lemma toList_foldl_push (chars : List Char) :
    (chars.foldl String.push text).toList = text.toList ++ chars := by
  induction chars generalizing text with
  | nil => rw [List.foldl_nil, List.append_nil]
  | cons c chars ih =>
    rw [List.foldl_cons, ih, String.toList_push, List.append_assoc, List.singleton_append]

end Characters

/-- **Reading the bytes of a text gives the text.** -/
theorem decode_utf8Bytes (text : String) : decode (utf8Bytes text) = text := by
  rw [decode, utf8Bytes_eq_flatMap, feed_flatMap]
  apply String.toList_injective
  exact toList_foldl_push "" text.toList

/-! ## Bytes without zeros -/

/-- Whether the given bits, with `more` bytes behind them, make up the number of a character other than
zero. -/
def CompletesTo : ℕ → ℕ → Prop
  | 0, bits => bits ≠ 0 ∧ bits.isValidChar
  | more + 1, bits =>
    ∀ byte, 0x80 ≤ byte → byte ≤ 0xBF → CompletesTo more (bits * 64 + (byte - 0x80))

/-- What the machine knows inside a character: it will not be the zero character. -/
def Unfinished.Sound (p : Unfinished) : Prop :=
  ∀ byte, p.low ≤ byte → byte ≤ p.high → CompletesTo p.more (p.bits * 64 + (byte - 0x80))

lemma zero_ne_ofNat {n : ℕ} (h : n ≠ 0) (hvalid : n.isValidChar) : '\x00' ≠ Char.ofNat n := by
  intro heq
  have hnat := congrArg Char.toNat heq
  have hnumber : (Char.ofNat n).toNat = n := by
    rw [Char.ofNat, dif_pos hvalid]
    rfl
  rw [hnumber] at hnat
  exact h hnat.symm

lemma sound_of_lead {byte : ℕ} {p : Unfinished} (h : lead byte = .opening p) : p.Sound := by
  unfold Unfinished.Sound
  unfold lead at h
  split at h
  · cases h
  split at h
  · cases h
  split at h
  · obtain rfl := Lead.opening.inj h
    intro first hlow hhigh
    unfold CompletesTo Nat.isValidChar
    dsimp only at hlow hhigh ⊢
    omega
  split at h
  · obtain rfl := Lead.opening.inj h
    intro first hlow hhigh second hsecond hsecond'
    unfold CompletesTo Nat.isValidChar
    dsimp only at hlow hhigh ⊢
    split at hlow <;> split at hhigh <;> omega
  split at h
  · obtain rfl := Lead.opening.inj h
    intro first hlow hhigh second hsecond hsecond' third hthird hthird'
    unfold CompletesTo Nat.isValidChar
    dsimp only at hlow hhigh ⊢
    split at hlow <;> split at hhigh <;> omega
  · cases h

lemma zero_ne_replacement : '\x00' ≠ replacement := by decide

/-- Between characters, a byte that is not zero makes no zero character. -/
lemma sound_of_step_none {byte : UInt8} (hbyte : byte ≠ 0) :
    '\x00' ∉ (step none byte).1 ∧ ∀ p ∈ (step none byte).2, p.Sound := by
  rw [step_none]
  cases hlead : lead byte.toNat with
  | single c =>
    refine ⟨?_, fun p hp => by cases hp⟩
    rw [List.mem_singleton]
    unfold lead at hlead
    split at hlead
    · rename_i hlt
      obtain rfl := Lead.single.inj hlead
      have hnat : byte.toNat ≠ 0 := fun hzero => hbyte (UInt8.toNat_inj.mp hzero)
      exact zero_ne_ofNat hnat (.inl (by omega))
    · split_ifs at hlead
  | opening p =>
    refine ⟨List.not_mem_nil, fun q hq => ?_⟩
    cases hq
    exact sound_of_lead hlead
  | invalid =>
    refine ⟨?_, fun p hp => by cases hp⟩
    rw [List.mem_singleton]
    exact zero_ne_replacement

lemma sound_of_step {state : Option Unfinished} {byte : UInt8} (hstate : ∀ p ∈ state, p.Sound)
    (hbyte : byte ≠ 0) : '\x00' ∉ (step state byte).1 ∧ ∀ p ∈ (step state byte).2, p.Sound := by
  have hstart := sound_of_step_none hbyte
  cases state with
  | none => exact hstart
  | some p =>
    by_cases hwithin : p.low ≤ byte.toNat ∧ byte.toNat ≤ p.high
    · have hcompletes := hstate p rfl byte.toNat hwithin.1 hwithin.2
      rw [step_some hwithin.1 hwithin.2]
      cases hmore : p.more with
      | zero =>
        rw [hmore] at hcompletes
        refine ⟨?_, fun p hp => by cases hp⟩
        rw [List.mem_singleton]
        exact zero_ne_ofNat hcompletes.1 hcompletes.2
      | succ more =>
        rw [hmore] at hcompletes
        refine ⟨List.not_mem_nil, fun q hq => ?_⟩
        obtain rfl := Option.mem_some.mp hq
        exact hcompletes
    · rw [step_broken hwithin]
      refine ⟨?_, hstart.2⟩
      rw [List.mem_cons, not_or]
      exact ⟨zero_ne_replacement, hstart.1⟩

lemma zero_notMem_feed {text : String} {state : Option Unfinished} {bytes : List UInt8}
    (htext : '\x00' ∉ text.toList) (hstate : ∀ p ∈ state, p.Sound) (hbytes : 0 ∉ bytes) :
    '\x00' ∉ (feed text state bytes).1.toList := by
  induction bytes generalizing text state with
  | nil => exact htext
  | cons byte bytes ih =>
    obtain ⟨hbyte, hrest⟩ := not_or.mp (mt List.mem_cons.mpr hbytes)
    obtain ⟨hchars, hnext⟩ := sound_of_step hstate (Ne.symm hbyte)
    rw [feed_cons]
    refine ih ?_ hnext hrest
    rw [toList_foldl_push, List.mem_append, not_or]
    exact ⟨htext, hchars⟩

/-- **No zero character comes up where there is no zero byte**, also where the bytes are not those of a
text. -/
theorem zero_notMem_decode {bytes : List UInt8} (h : 0 ∉ bytes) : '\x00' ∉ (decode bytes).toList := by
  have htext : '\x00' ∉ (feed "" none bytes).1.toList :=
    zero_notMem_feed List.not_mem_nil (fun p hp => by cases hp) h
  unfold decode
  dsimp only
  split
  · rw [String.toList_push, List.mem_append, List.mem_singleton, not_or]
    exact ⟨htext, zero_ne_replacement⟩
  · exact htext

end Utf8

end CommonTrace
