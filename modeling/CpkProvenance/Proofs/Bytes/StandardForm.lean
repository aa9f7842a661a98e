import Mathlib.Algebra.Group.Nat.Defs
import Mathlib.Data.List.Nodup
import CpkProvenance.Proofs.Bytes.Base64

/-!
# The standard form of bytes

What a text in Base64 says is a row of bits: six for each letter and eight for each byte. The
standard form of bytes spells out their bits. The last letter is filled up with zeros, and the
text with padding to a multiple of four. Bytes have one standard form, and it is the one that
is written.
-/

namespace CpkProvenance.Base64

section Bits

/-- The lowest bits of a number, the highest of them first. -/
def bits : Nat → Nat → List Bool
  | 0, _ => []
  | w + 1, n => n.testBit w :: bits w n

@[simp] theorem length_bits (w n : Nat) : (bits w n).length = w := by
  induction w with
  | zero => rfl
  | succ w ih => rw [bits, List.length_cons, ih]

theorem bits_congr {w m n : Nat} (h : m % 2 ^ w = n % 2 ^ w) : bits w m = bits w n := by
  induction w with
  | zero => rfl
  | succ w ih =>
      have hbit := congrArg (Nat.testBit · w) h
      have hlower := congrArg (· % 2 ^ w) h
      simp only [Nat.testBit_mod_two_pow, Nat.lt_succ_self, decide_true, Bool.true_and] at hbit
      simp only [Nat.mod_mod_of_dvd _ (Nat.pow_dvd_pow 2 (Nat.le_succ w))] at hlower
      rw [bits, bits, hbit, ih hlower]

/-- The bits of a number can be cut anywhere. -/
theorem bits_add (u w n : Nat) : bits (u + w) n = bits u (n / 2 ^ w) ++ bits w n := by
  induction u with
  | zero => rw [Nat.zero_add, bits, List.nil_append]
  | succ u ih =>
      rw [Nat.succ_add_eq_add_succ, Nat.add_succ, bits, ih, bits, List.cons_append,
        Nat.testBit_div_two_pow]

/-- Bits are put one behind the other by a multiplication. -/
theorem bits_mul_add (u w m : Nat) {y : Nat} (hy : y < 2 ^ w) :
    bits (u + w) (m % 2 ^ u * 2 ^ w + y) = bits u m ++ bits w y := by
  have hpos : 0 < 2 ^ w := Nat.two_pow_pos w
  have hhigh : (m % 2 ^ u * 2 ^ w + y) / 2 ^ w = m % 2 ^ u := by
    rw [Nat.add_comm, Nat.add_mul_div_right _ _ hpos, Nat.div_eq_of_lt hy, Nat.zero_add]
  have hlow : (m % 2 ^ u * 2 ^ w + y) % 2 ^ w = y % 2 ^ w := by
    rw [Nat.add_comm, Nat.add_mul_mod_self_right]
  rw [bits_add, hhigh, bits_congr hlow, bits_congr (Nat.mod_mod m (2 ^ u))]

def byteBits (bytes : Bytes) : List Bool :=
  bytes.flatMap fun b => bits 8 b.toNat

def letterBits (numbers : List (Fin 64)) : List Bool :=
  numbers.flatMap fun n => bits 6 n

theorem byteBits_cons (b : UInt8) (bytes : Bytes) :
    byteBits (b :: bytes) = bits 8 b.toNat ++ byteBits bytes := rfl

theorem letterBits_cons (n : Fin 64) (numbers : List (Fin 64)) :
    letterBits (n :: numbers) = bits 6 n ++ letterBits numbers := rfl

theorem length_byteBits (bytes : Bytes) : (byteBits bytes).length = bytes.length * 8 := by
  simp [byteBits, List.length_flatMap]

theorem length_letterBits (numbers : List (Fin 64)) :
    (letterBits numbers).length = numbers.length * 6 := by
  simp [letterBits, List.length_flatMap]

/-- Six bits make up one number. -/
theorem bits_six_inj {m n : Fin 64} (h : bits 6 m = bits 6 n) : m = n := by
  have hread : ∀ k : Fin 64, (bits 6 k.val).foldl (fun x b => 2 * x + b.toNat) 0 = k.val := by
    decide
  apply Fin.ext
  rw [← hread m, ← hread n, h]

theorem letterBits_inj {m n : List (Fin 64)} (h : letterBits m = letterBits n) : m = n := by
  have hlength := congrArg List.length h
  rw [length_letterBits, length_letterBits] at hlength
  induction m generalizing n with
  | nil =>
      rw [List.length_nil] at hlength
      exact (List.length_eq_zero_iff.mp (by omega)).symm
  | cons k m ih =>
      cases n with
      | nil => simp at hlength
      | cons l n =>
          rw [letterBits_cons, letterBits_cons] at h
          obtain ⟨hk, hm⟩ := List.append_inj h (by simp)
          simp only [List.length_cons] at hlength
          rw [bits_six_inj hk, ih hm (by omega)]

end Bits

section Forms

/-- The letters in the order of their numbers. -/
def alphabet : List Char :=
  ['A', 'B', 'C', 'D', 'E', 'F', 'G', 'H', 'I', 'J', 'K', 'L', 'M', 'N', 'O', 'P',
   'Q', 'R', 'S', 'T', 'U', 'V', 'W', 'X', 'Y', 'Z', 'a', 'b', 'c', 'd', 'e', 'f',
   'g', 'h', 'i', 'j', 'k', 'l', 'm', 'n', 'o', 'p', 'q', 'r', 's', 't', 'u', 'v',
   'w', 'x', 'y', 'z', '0', '1', '2', '3', '4', '5', '6', '7', '8', '9', '+', '/']

theorem length_alphabet : alphabet.length = 64 := rfl

def letter (n : Fin 64) : Char :=
  alphabet.get (n.cast length_alphabet.symm)

/-- Letters and then padding. -/
def spelled (numbers : List (Fin 64)) (padding : Nat) : String :=
  String.ofList (numbers.map letter ++ List.replicate padding '=')

/-- How bytes are spelled: the letters have the bits of the bytes and fewer than six zeros
behind them, and the padding fills up the last group of four. -/
structure StandardForm (bytes : Bytes) where
  numbers : List (Fin 64)
  zeros : Nat
  padding : Nat
  letterBits_eq : letterBits numbers = byteBits bytes ++ List.replicate zeros false
  zeros_lt : zeros < 6
  whole : (numbers.length + padding) % 4 = 0
  padding_lt : padding < 4

def StandardForm.text {bytes : Bytes} (form : StandardForm bytes) : String :=
  spelled form.numbers form.padding

theorem letter_inj {m n : Fin 64} (h : letter m = letter n) : m = n := by
  have hnodup : alphabet.Nodup := by decide
  have hplace := List.nodup_iff_injective_get.mp hnodup h
  exact Fin.ext (congrArg Fin.val hplace)

theorem letter_mem (n : Fin 64) : letter n ∈ alphabet :=
  List.get_mem ..

theorem letter_ne_pad (n : Fin 64) : letter n ≠ '=' := by
  have hpad : '=' ∉ alphabet := by decide
  exact fun h => hpad (h ▸ letter_mem n)

theorem spelled_inj {m n : List (Fin 64)} {p q : Nat} (h : spelled m p = spelled n q) :
    m = n ∧ p = q := by
  have hletters (k : List (Fin 64)) (r : Nat) :
      (k.map letter ++ List.replicate r '=').takeWhile (· != '=') = k.map letter := by
    have hall : ∀ c ∈ k.map letter, (c != '=') = true := by
      simp [letter_ne_pad]
    rw [List.takeWhile_append_of_pos hall]
    cases r <;> simp [List.replicate_succ]
  have hchars := String.ofList_injective h
  have hmap := congrArg (List.takeWhile (· != '=')) hchars
  rw [hletters, hletters] at hmap
  obtain rfl : m = n := List.map_injective_iff.mpr (fun _ _ => letter_inj) hmap
  have hlength := congrArg List.length hchars
  simp only [List.length_append, List.length_replicate] at hlength
  exact ⟨rfl, by omega⟩

/-- The number of zeros and of padding signs comes from the number of bytes. -/
theorem StandardForm.eq {bytes : Bytes} (f g : StandardForm bytes) : f = g := by
  have hlength (form : StandardForm bytes) :
      form.numbers.length * 6 = bytes.length * 8 + form.zeros := by
    rw [← length_letterBits, form.letterBits_eq, List.length_append, length_byteBits,
      List.length_replicate]
  have hf := hlength f
  have hg := hlength g
  obtain ⟨m, z, p, hm, hz, hwhole, hp⟩ := f
  obtain ⟨n, z', p', hn, hz', hwhole', hp'⟩ := g
  dsimp only at hf hg
  obtain rfl : z = z' := by omega
  obtain rfl : m = n := letterBits_inj (hm.trans hn.symm)
  obtain rfl : p = p' := by omega
  rfl

theorem letter_eq (n : Fin 64) : letter n = Char.ofNat (symbol n).toNat := by
  revert n
  decide

section Groups

/-- A byte goes to its letters in parts of six and two bits, of four and four, or of two and
six. -/
theorem bits_eight (n : Nat) :
    bits 8 n = bits 6 (n / 4) ++ bits 2 n ∧ bits 8 n = bits 4 (n / 16) ++ bits 4 n ∧
      bits 8 n = bits 2 (n / 64) ++ bits 6 n :=
  ⟨bits_add 6 2 n, bits_add 4 4 n, bits_add 2 6 n⟩

theorem bits_secondLetter (m : Nat) {y : Nat} (hy : y < 16) :
    bits 6 (m % 4 * 16 + y) = bits 2 m ++ bits 4 y :=
  bits_mul_add 2 4 m hy

theorem bits_thirdLetter (m : Nat) {y : Nat} (hy : y < 4) :
    bits 6 (m % 16 * 4 + y) = bits 4 m ++ bits 2 y :=
  bits_mul_add 4 2 m hy

theorem bits_fourthLetter (m : Nat) : bits 6 (m % 64) = bits 6 m :=
  bits_congr (Nat.mod_mod m 64)

variable (a b c : UInt8)

/-- Four letters have the bits of three bytes. -/
theorem bits_three :
    bits 6 (a.toNat / 4) ++ (bits 6 (a.toNat % 4 * 16 + b.toNat / 16) ++
      (bits 6 (b.toNat % 16 * 4 + c.toNat / 64) ++ bits 6 (c.toNat % 64))) =
    bits 8 a.toNat ++ (bits 8 b.toNat ++ bits 8 c.toNat) := by
  have hb : b.toNat / 16 < 16 := by have := b.toNat_lt; omega
  have hc : c.toNat / 64 < 4 := by have := c.toNat_lt; omega
  rw [bits_secondLetter _ hb, bits_thirdLetter _ hc, bits_fourthLetter, (bits_eight a.toNat).1,
    (bits_eight b.toNat).2.1, (bits_eight c.toNat).2.2]
  simp only [List.append_assoc]

theorem bits_two :
    bits 6 (a.toNat / 4) ++ (bits 6 (a.toNat % 4 * 16 + b.toNat / 16) ++
      bits 6 (b.toNat % 16 * 4)) =
    bits 8 a.toNat ++ (bits 8 b.toNat ++ [false, false]) := by
  have hb : b.toNat / 16 < 16 := by have := b.toNat_lt; omega
  have hthird := bits_thirdLetter b.toNat (y := 0) (by omega)
  rw [Nat.add_zero] at hthird
  rw [bits_secondLetter _ hb, hthird, (bits_eight a.toNat).1, (bits_eight b.toNat).2.1]
  simp only [List.append_assoc]
  rfl

theorem bits_one :
    bits 6 (a.toNat / 4) ++ bits 6 (a.toNat % 4 * 16) =
    bits 8 a.toNat ++ [false, false, false, false] := by
  have hsecond := bits_secondLetter a.toNat (y := 0) (by omega)
  rw [Nat.add_zero] at hsecond
  rw [hsecond, (bits_eight a.toNat).1, List.append_assoc]
  rfl

end Groups

/-- What is written is the standard form. -/
theorem exists_standardForm (bytes : Bytes) :
    ∃ form : StandardForm bytes, form.text = encodeText bytes := by
  suffices h : ∃ form : StandardForm bytes, form.numbers.map letter ++
      List.replicate form.padding '=' = (encode bytes).map fun b => Char.ofNat b.toNat by
    obtain ⟨form, hform⟩ := h
    exact ⟨form, congrArg String.ofList hform⟩
  fun_induction encode bytes with
  | case1 a b c rest ih =>
      obtain ⟨form, hform⟩ := ih
      have ha := a.toNat_lt
      have hb := b.toNat_lt
      have hc := c.toNat_lt
      refine ⟨⟨⟨a.toNat / 4, by omega⟩ :: ⟨a.toNat % 4 * 16 + b.toNat / 16, by omega⟩ ::
        ⟨b.toNat % 16 * 4 + c.toNat / 64, by omega⟩ :: ⟨c.toNat % 64, by omega⟩ :: form.numbers,
        form.zeros, form.padding, ?_, form.zeros_lt, ?_, form.padding_lt⟩, ?_⟩
      · have hthree := congrArg (· ++ letterBits form.numbers) (bits_three a b c)
        simpa [letterBits_cons, byteBits_cons, form.letterBits_eq] using hthree
      · have hwhole := form.whole
        simp only [List.length_cons]
        omega
      · simp [letter_eq, hform]
  | case2 a b =>
      have ha := a.toNat_lt
      have hb := b.toNat_lt
      refine ⟨⟨[⟨a.toNat / 4, by omega⟩, ⟨a.toNat % 4 * 16 + b.toNat / 16, by omega⟩,
        ⟨b.toNat % 16 * 4, by omega⟩], 2, 1, ?_, by omega, by simp, by omega⟩,
        ?_⟩
      · simpa [letterBits, byteBits] using bits_two a b
      · simp [letter_eq, pad]
  | case3 a =>
      have ha := a.toNat_lt
      refine ⟨⟨[⟨a.toNat / 4, by omega⟩, ⟨a.toNat % 4 * 16, by omega⟩], 4, 2, ?_, by omega,
        by simp, by omega⟩, ?_⟩
      · simpa [letterBits, byteBits] using bits_one a
      · simp [letter_eq, pad]
  | case4 => exact ⟨⟨[], 0, 0, rfl, by omega, rfl, by omega⟩, rfl⟩

/-- Bytes are written in their standard form and in no other. -/
theorem eq_encodeText_iff {bytes : Bytes} {text : String} :
    text = encodeText bytes ↔ ∃ form : StandardForm bytes, text = form.text := by
  obtain ⟨form, hform⟩ := exists_standardForm bytes
  constructor
  · rintro rfl
    exact ⟨form, hform.symm⟩
  · rintro ⟨other, rfl⟩
    rw [other.eq form, hform]

/-- Letters that have the bits of the bytes and some more are the written form only if these
are fewer than six and all zero, and the padding is as long as it must be. -/
theorem spelled_eq_encodeText_iff {bytes : Bytes} {numbers : List (Fin 64)} {more : List Bool}
    {padding : Nat} (h : letterBits numbers = byteBits bytes ++ more) :
    spelled numbers padding = encodeText bytes ↔
      more.length < 6 ∧ (∀ b ∈ more, b = false) ∧ padding < 4 ∧
        (numbers.length + padding) % 4 = 0 := by
  rw [eq_encodeText_iff]
  constructor
  · rintro ⟨form, htext⟩
    obtain ⟨hnumbers, hpadding⟩ := spelled_inj htext
    have happend : byteBits bytes ++ more =
        byteBits bytes ++ List.replicate form.zeros false := by
      rw [← h, hnumbers, form.letterBits_eq]
    have hmore := List.append_cancel_left happend
    rw [hmore, List.length_replicate, hnumbers, hpadding]
    exact ⟨form.zeros_lt, fun b hb => List.eq_of_mem_replicate hb, form.padding_lt, form.whole⟩
  · rintro ⟨hlength, hzero, hpadding, hwhole⟩
    have hmore : more = List.replicate more.length false := List.eq_replicate_of_mem hzero
    exact ⟨⟨numbers, more.length, padding, hmore ▸ h, hlength, hwhole, hpadding⟩, rfl⟩

theorem mem_alphabet_of_mem_spelled {numbers : List (Fin 64)} {padding : Nat} {c : Char}
    (h : c ∈ (spelled numbers padding).toList) : c ∈ alphabet ∨ c = '=' := by
  rw [spelled, String.toList_ofList, List.mem_append] at h
  rcases h with hletter | hpadding
  · obtain ⟨n, -, rfl⟩ := List.mem_map.mp hletter
    exact .inl (letter_mem n)
  · exact .inr (List.eq_of_mem_replicate hpadding)

end Forms

end CpkProvenance.Base64
