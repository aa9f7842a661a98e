import CpkProvenance.Bytes.Base64
import CpkProvenance.Proofs.Bytes.Utf8
import CpkProvenance.Proofs.Text.Blank
import CpkProvenance.Proofs.Traced

/-!
# Base64 has one spelling

Reading accepts exactly what writing produces. The proof goes group by group: the
symbols of a group are the written forms of its numbers, and numbers that leave no
bits over are those of the bytes that they make up.
-/

namespace CpkProvenance

namespace Base64

section Symbols

theorem value?_symbol {n : Nat} (h : n < 64) : value? (symbol n) = some n := by
  revert n
  decide

theorem symbol_ne_pad {n : Nat} (h : n < 64) : symbol n ≠ pad := by
  revert n
  decide

theorem symbol_of_value? {b : UInt8} {n : Nat} (h : value? b = some n) :
    n < 64 ∧ symbol n = b := by
  -- A table of all bytes.
  cases b with
  | ofBitVec b =>
      cases b with
      | ofFin b =>
          revert n
          revert b
          decide +kernel

/-- A run of symbols is read if it is the written form of numbers below
sixty-four. -/
theorem values_eq_ok_iff {offset : Nat} {group : Bytes} {ns : List Nat} :
    values offset group = .ok ns ↔ group = ns.map symbol ∧ ∀ n ∈ ns, n < 64 := by
  induction group generalizing offset ns with
  | nil => cases ns <;> simp [values]
  | cons b group ih =>
      rw [values]
      cases hb : value? b with
      | none =>
          simp only [reduceCtorEq, false_iff]
          rintro ⟨hgroup, hns⟩
          cases ns with
          | nil => cases hgroup
          | cons n ns =>
              obtain ⟨rfl, _⟩ := List.cons.inj hgroup
              rw [value?_symbol (hns n (List.mem_cons_self ..))] at hb
              cases hb
      | some v =>
          obtain ⟨hv, rfl⟩ := symbol_of_value? hb
          simp only [map_eq_ok_iff, ih]
          constructor
          · rintro ⟨vs, ⟨rfl, hvs⟩, rfl⟩
            exact ⟨rfl, List.forall_mem_cons.mpr ⟨hv, hvs⟩⟩
          · rintro ⟨hgroup, hns⟩
            cases ns with
            | nil => cases hgroup
            | cons n ns =>
                obtain ⟨hn, hns⟩ := List.forall_mem_cons.mp hns
                obtain ⟨hsymbol, rfl⟩ := List.cons.inj hgroup
                have hvn : some v = some n := by
                  rw [← value?_symbol hv, hsymbol, value?_symbol hn]
                exact ⟨ns, ⟨rfl, hns⟩, by rw [Option.some.inj hvn]⟩

end Symbols

section Groups

variable {a b c d : Nat}

/-- The bytes that four numbers make up are written as these numbers. -/
theorem encode_join_four (ha : a < 64) (hb : b < 64) (hc : c < 64) (hd : d < 64) (rest : Bytes) :
    encode ((join [a, b, c, d]).1 ++ rest) = [a, b, c, d].map symbol ++ encode rest := by
  have h₁ : (a * 4 + b / 16) % 256 = a * 4 + b / 16 := by omega
  have h₂ : (b % 16 * 16 + c / 4) % 256 = b % 16 * 16 + c / 4 := by omega
  have h₃ : (c % 4 * 64 + d) % 256 = c % 4 * 64 + d := by omega
  simp only [join, List.cons_append, List.nil_append, encode, UInt8.toNat_ofNat', List.map_cons,
    List.map_nil, Nat.reducePow, h₁, h₂, h₃, List.cons.injEq, and_true]
  refine ⟨?_, ?_, ?_, ?_⟩ <;> congr 1 <;> omega

theorem encode_join_three (ha : a < 64) (hb : b < 64) (hc : c < 64) (hleft : c % 4 = 0) :
    encode (join [a, b, c]).1 = [a, b, c].map symbol ++ [pad] := by
  have h₁ : (a * 4 + b / 16) % 256 = a * 4 + b / 16 := by omega
  have h₂ : (b % 16 * 16 + c / 4) % 256 = b % 16 * 16 + c / 4 := by omega
  simp only [join, encode, UInt8.toNat_ofNat', List.map_cons, List.map_nil, Nat.reducePow, h₁, h₂,
    List.cons_append, List.nil_append, List.cons.injEq, and_true]
  refine ⟨?_, ?_, ?_⟩ <;> congr 1 <;> omega

theorem encode_join_two (ha : a < 64) (hb : b < 64) (hleft : b % 16 = 0) :
    encode (join [a, b]).1 = [a, b].map symbol ++ [pad, pad] := by
  have h₁ : (a * 4 + b / 16) % 256 = a * 4 + b / 16 := by omega
  simp only [join, encode, UInt8.toNat_ofNat', List.map_cons, List.map_nil, Nat.reducePow, h₁,
    List.cons_append, List.nil_append, List.cons.injEq, and_true]
  refine ⟨?_, ?_⟩ <;> congr 1 <;> omega

/-- The numbers of a written group make up its bytes. -/
theorem join_one (x : UInt8) : join [x.toNat / 4, x.toNat % 4 * 16] = ([x], 0) := by
  have h₁ : x.toNat / 4 * 4 + x.toNat % 4 * 16 / 16 = x.toNat := by omega
  have h₂ : x.toNat % 4 * 16 % 16 = 0 := by omega
  rw [join, h₁, h₂, UInt8.ofNat_toNat]

theorem join_two (x y : UInt8) :
    join [x.toNat / 4, x.toNat % 4 * 16 + y.toNat / 16, y.toNat % 16 * 4] = ([x, y], 0) := by
  have hy := y.toNat_lt
  have h₁ : x.toNat / 4 * 4 + (x.toNat % 4 * 16 + y.toNat / 16) / 16 = x.toNat := by omega
  have h₂ : (x.toNat % 4 * 16 + y.toNat / 16) % 16 * 16 + y.toNat % 16 * 4 / 4 = y.toNat := by
    omega
  have h₃ : y.toNat % 16 * 4 % 4 = 0 := by omega
  rw [join, h₁, h₂, h₃, UInt8.ofNat_toNat, UInt8.ofNat_toNat]

theorem join_three (x y z : UInt8) :
    join [x.toNat / 4, x.toNat % 4 * 16 + y.toNat / 16, y.toNat % 16 * 4 + z.toNat / 64,
      z.toNat % 64] = ([x, y, z], 0) := by
  have hy := y.toNat_lt
  have hz := z.toNat_lt
  have h₁ : x.toNat / 4 * 4 + (x.toNat % 4 * 16 + y.toNat / 16) / 16 = x.toNat := by omega
  have h₂ : (x.toNat % 4 * 16 + y.toNat / 16) % 16 * 16 + (y.toNat % 16 * 4 + z.toNat / 64) / 4 =
      y.toNat := by
    omega
  have h₃ : (y.toNat % 16 * 4 + z.toNat / 64) % 4 * 64 + z.toNat % 64 = z.toNat := by omega
  rw [join, h₁, h₂, h₃, UInt8.ofNat_toNat, UInt8.ofNat_toNat, UInt8.ofNat_toNat]

end Groups

theorem takeWhile_ne_pad {ns : List Nat} {padding : Bytes} (hns : ∀ n ∈ ns, n < 64)
    (hpadding : ∀ b ∈ padding, b = pad) :
    (ns.map symbol ++ padding).takeWhile (· != pad) = ns.map symbol ∧
      (ns.map symbol ++ padding).dropWhile (· != pad) = padding := by
  have hsymbols : ∀ b ∈ ns.map symbol, (b != pad) = true := by
    simp only [List.mem_map, bne_iff_ne, forall_exists_index, and_imp]
    rintro _ n hn rfl
    exact symbol_ne_pad (hns n hn)
  have hfirst : padding.takeWhile (· != pad) = [] ∧ padding.dropWhile (· != pad) = padding := by
    cases padding with
    | nil => exact ⟨rfl, rfl⟩
    | cons b padding => simp [hpadding b (List.mem_cons_self ..)]
  rw [List.takeWhile_append_of_pos hsymbols, List.dropWhile_append_of_pos hsymbols, hfirst.1,
    hfirst.2, List.append_nil]
  exact ⟨rfl, rfl⟩

/-- A last group is symbols and padding, and leaves no bits over. -/
theorem decodeLast_eq_ok_iff {offset : Nat} {group v : Bytes} :
    decodeLast offset group = .ok v ↔
      ∃ ns padding, group = ns.map symbol ++ padding ∧ (∀ n ∈ ns, n < 64) ∧
        (∀ b ∈ padding, b = pad) ∧ 2 ≤ ns.length ∧ group.length = 4 ∧ join ns = (v, 0) := by
  unfold decodeLast
  simp only [bind_eq_ok_iff, values_eq_ok_iff, guard_eq_ok_iff]
  constructor
  · rintro ⟨ns, ⟨hsymbols, hns⟩, _, hpadding, htwo, hfour, hleft, hv⟩
    refine ⟨ns, group.dropWhile (· != pad), ?_, hns, ?_, ?_, ?_, ?_⟩
    · rw [← hsymbols, List.takeWhile_append_dropWhile]
    · simpa using hpadding
    · rw [hsymbols, List.length_map] at htwo
      omega
    · simpa using hfour
    · exact Prod.ext (Except.ok.inj hv) (by simpa using hleft)
  · rintro ⟨ns, padding, rfl, hns, hpadding, htwo, hfour, hjoin⟩
    obtain ⟨hsymbols, hrest⟩ := takeWhile_ne_pad hns hpadding
    refine ⟨ns, ⟨hsymbols, hns⟩, ?_, ?_, ?_, ?_, ?_, ?_⟩
    · rw [hsymbols, List.length_map]
      omega
    · rw [hrest]
      simpa using hpadding
    · rw [hsymbols, List.length_map]
      omega
    · simpa using hfour
    · simp [hjoin]
    · rw [hjoin]
      rfl

/-- The last group of a written form is that of one, two or three bytes. -/
theorem decodeLast_eq_ok_iff_encode {offset : Nat} {group v : Bytes} :
    decodeLast offset group = .ok v ↔ v ≠ [] ∧ v.length ≤ 3 ∧ group = encode v := by
  rw [decodeLast_eq_ok_iff]
  constructor
  · rintro ⟨ns, padding, rfl, hns, hpadding, htwo, hfour, hjoin⟩
    obtain ⟨rfl, hleft⟩ := Prod.mk.inj (Eq.trans (Prod.eta _) hjoin)
    rw [List.length_append, List.length_map] at hfour
    match ns, hns with
    | [a, b], hns =>
        obtain ⟨p, q, rfl⟩ : ∃ p q, padding = [p, q] :=
          List.length_eq_two.mp (Nat.add_left_cancel (n := 2) hfour)
        simp only [List.forall_mem_cons] at hns hpadding
        rw [encode_join_two hns.1 hns.2.1 hleft, hpadding.1, hpadding.2.1]
        exact ⟨List.cons_ne_nil _ _, by simp [join], rfl⟩
    | [a, b, c], hns =>
        obtain ⟨p, rfl⟩ : ∃ p, padding = [p] :=
          List.length_eq_one_iff.mp (Nat.add_left_cancel (n := 3) hfour)
        simp only [List.forall_mem_cons] at hns hpadding
        rw [encode_join_three hns.1 hns.2.1 hns.2.2.1 hleft, hpadding.1]
        exact ⟨List.cons_ne_nil _ _, by simp [join], rfl⟩
    | [a, b, c, d], hns =>
        obtain rfl : padding = [] := List.eq_nil_of_length_eq_zero (by simpa using hfour)
        simp only [List.forall_mem_cons] at hns
        have hencode := encode_join_four hns.1 hns.2.1 hns.2.2.1 hns.2.2.2.1 []
        rw [List.append_nil] at hencode
        exact ⟨List.cons_ne_nil _ _, by simp [join], hencode.symm⟩
    | [], _ => exact absurd htwo (by simp)
    | [_], _ => exact absurd htwo (by simp)
    | _ :: _ :: _ :: _ :: _ :: _, _ => exact absurd hfour (by simp; omega)
  · rintro ⟨hne, hlength, rfl⟩
    match v, hne, hlength with
    | [x], _, _ =>
        have hx := x.toNat_lt
        refine ⟨[x.toNat / 4, x.toNat % 4 * 16], [pad, pad], rfl, ?_, by simp, by simp, rfl,
          join_one x⟩
        simp only [List.forall_mem_cons]
        refine ⟨by omega, by omega, by simp⟩
    | [x, y], _, _ =>
        have hx := x.toNat_lt
        have hy := y.toNat_lt
        refine ⟨[x.toNat / 4, x.toNat % 4 * 16 + y.toNat / 16, y.toNat % 16 * 4], [pad], rfl, ?_,
          by simp, by simp, rfl, join_two x y⟩
        simp only [List.forall_mem_cons]
        refine ⟨by omega, by omega, by omega, by simp⟩
    | [x, y, z], _, _ =>
        have hx := x.toNat_lt
        have hy := y.toNat_lt
        have hz := z.toNat_lt
        refine ⟨[x.toNat / 4, x.toNat % 4 * 16 + y.toNat / 16, y.toNat % 16 * 4 + z.toNat / 64,
          z.toNat % 64], [], rfl, ?_, by simp, by simp, rfl, join_three x y z⟩
        simp only [List.forall_mem_cons]
        refine ⟨by omega, by omega, by omega, by omega, by simp⟩

theorem length_encode_mod (v : Bytes) : (encode v).length % 4 = 0 := by
  fun_induction encode v with
  | case1 a b c rest ih =>
      simp only [List.length_cons]
      omega
  | case2 a b => simp
  | case3 a => simp
  | case4 => simp

theorem encode_eq_nil_iff {v : Bytes} : encode v = [] ↔ v = [] := by
  fun_cases encode v <;> simp

/-- More than three bytes are written as more than one group. -/
theorem encode_cons_cons_cons {x y z w : UInt8} {v : Bytes} :
    ∃ e rest, encode (x :: y :: z :: w :: v) =
      [x.toNat / 4, x.toNat % 4 * 16 + y.toNat / 16, y.toNat % 16 * 4 + z.toNat / 64,
        z.toNat % 64].map symbol ++ e :: rest ∧ e :: rest = encode (w :: v) := by
  cases hv : encode (w :: v) with
  | nil => exact absurd (encode_eq_nil_iff.mp hv) (List.cons_ne_nil _ _)
  | cons e rest =>
      refine ⟨e, rest, ?_, rfl⟩
      rw [encode, hv]
      rfl

theorem decodeGroups_eq_ok_iff {offset : Nat} {text v : Bytes} :
    decodeGroups offset text = .ok v ↔ v ≠ [] ∧ text = encode v := by
  fun_induction decodeGroups offset text generalizing v with
  | case1 offset a b c d e rest ih =>
      simp only [bind_eq_ok_iff, values_eq_ok_iff, ih]
      constructor
      · rintro ⟨ns, ⟨hgroup, hns⟩, tail, ⟨_, htail⟩, hv⟩
        have hlength : ns.length = 4 := by
          rw [← List.length_map (f := symbol), ← hgroup]
          rfl
        match ns, hlength, hns with
        | [n₁, n₂, n₃, n₄], _, hns =>
            simp only [List.forall_mem_cons] at hns
            obtain rfl := Except.ok.inj hv
            rw [encode_join_four hns.1 hns.2.1 hns.2.2.1 hns.2.2.2.1, ← htail, ← hgroup]
            exact ⟨List.cons_ne_nil _ _, rfl⟩
      · rintro ⟨hne, htext⟩
        match v, hne with
        | [x], _ => cases htext
        | [x, y], _ => cases htext
        | [x, y, z], _ => cases htext
        | x :: y :: z :: w :: v, _ =>
            obtain ⟨e', rest', hencode, htail⟩ := encode_cons_cons_cons (x := x) (y := y) (z := z)
              (w := w) (v := v)
            have hx := x.toNat_lt
            have hy := y.toNat_lt
            have hz := z.toNat_lt
            have happend : [a, b, c, d] ++ e :: rest = _ ++ e' :: rest' := htext.trans hencode
            obtain ⟨hgroup, hrest⟩ := List.append_inj happend rfl
            refine ⟨_, ⟨hgroup, ?_⟩, w :: v, ⟨List.cons_ne_nil _ _, hrest.trans htail⟩, ?_⟩
            · simp only [List.forall_mem_cons]
              refine ⟨by omega, by omega, by omega, by omega, by simp⟩
            · rw [join_three]
              rfl
  | case2 offset group hgroup =>
      rw [decodeLast_eq_ok_iff_encode]
      constructor
      · rintro ⟨hne, _, htext⟩
        exact ⟨hne, htext⟩
      · rintro ⟨hne, htext⟩
        refine ⟨hne, ?_, htext⟩
        match v with
        | [] | [_] | [_, _] | [_, _, _] => simp
        | x :: y :: z :: w :: v =>
            obtain ⟨e, rest, hencode, _⟩ := encode_cons_cons_cons (x := x) (y := y) (z := z)
              (w := w) (v := v)
            exact (hgroup _ _ _ _ e rest (htext.trans hencode)).elim

/-- Reading accepts exactly what writing produces. -/
theorem decode_eq_ok_iff {text v : Bytes} : decode text = .ok v ↔ text = encode v := by
  unfold decode
  cases hlast : text.getLast? with
  | none =>
      obtain rfl := List.getLast?_eq_none_iff.mp hlast
      rw [Except.ok.injEq, eq_comm, eq_comm (b := encode v), encode_eq_nil_iff]
  | some last =>
      have hne : text ≠ [] := by
        rintro rfl
        cases hlast
      simp only
      split
      · next hone =>
          simp only [reduceCtorEq, false_iff]
          rintro rfl
          have := length_encode_mod v
          omega
      · rw [decodeGroups_eq_ok_iff]
        constructor
        · exact fun h => h.2
        · rintro rfl
          exact ⟨fun hv => hne (encode_eq_nil_iff.mpr hv), rfl⟩

theorem symbol_range (n : Nat) : 43 ≤ (symbol n).toNat ∧ (symbol n).toNat ≤ 122 := by
  unfold symbol
  rw [UInt8.toNat_ofNat']
  split
  · omega
  · split
    · omega
    · split
      · omega
      · split <;> omega

theorem encode_range {v : Bytes} : ∀ b ∈ encode v, 43 ≤ b.toNat ∧ b.toNat ≤ 122 := by
  have hpad : 43 ≤ pad.toNat ∧ pad.toNat ≤ 122 := by decide
  fun_induction encode v with
  | case1 a b c rest ih => simpa [symbol_range] using ih
  | case2 a b => simp [symbol_range, hpad]
  | case3 a => simp [symbol_range, hpad]
  | case4 => simp

theorem utf8_encode_eq_encode_iff {text : String} {v : Bytes} :
    Utf8.encode text.toList = encode v ↔ text = encodeText v := by
  rw [Utf8.encode_eq_iff_of_ascii fun b hb => by have := encode_range b hb; omega, encodeText,
    ← String.toList_inj, String.toList_ofList]

theorem trim_encodeText (v : Bytes) : Text.trim (encodeText v) = encodeText v := by
  apply Text.trim_of_forall
  rw [encodeText, String.toList_ofList]
  intro c hc
  obtain ⟨b, hb, rfl⟩ := List.mem_map.mp hc
  have hblank : ∀ n, n ≤ 122 → 43 ≤ n → Text.isBlank (Char.ofNat n) = false := by decide
  exact hblank _ (encode_range b hb).2 (encode_range b hb).1

/-- A text is read after trimming, and has one spelling. -/
theorem decode_trim_eq_ok_iff {text : String} {v : Bytes} :
    decode (Utf8.encode (Text.trim text).toList) = .ok v ↔ Text.trim text = encodeText v := by
  rw [decode_eq_ok_iff, utf8_encode_eq_encode_iff]

theorem encodeText_inj {v w : Bytes} : encodeText v = encodeText w ↔ v = w := by
  constructor
  · intro h
    have hv := decode_trim_eq_ok_iff.mpr (trim_encodeText v)
    have hw := decode_trim_eq_ok_iff.mpr ((trim_encodeText v).trans h)
    exact Except.ok.inj (hv.symm.trans hw)
  · rintro rfl
    rfl

end Base64

end CpkProvenance
