import CpkProvenance.Maven.PackageUrl
import CpkProvenance.Proofs.Bytes.Utf8
import CpkProvenance.Proofs.Text.Cut
import CpkProvenance.Proofs.Traced

/-!
# Parts of package URLs

A part of a package URL is percent-encoded byte by byte: letters, digits and four signs
stand for themselves, and every other byte of its UTF-8 form is a percent sign and two
hexadecimal digits, in either case. Decoding gives the part back, and no separator occurs
in the encoded text, so that cuts at separators are where the parts were put together.
-/

namespace CpkProvenance.Maven.PackageUrl

/-- The bytes that stand for themselves: ASCII letters and digits, and four signs. -/
def isUnreserved (b : UInt8) : Bool :=
  (Char.ofNat b.toNat).isAlphanum || ['-', '.', '_', '~'].contains (Char.ofNat b.toNat)

/-- A hexadecimal digit, in either case. -/
def IsHexDigit (c : Char) (n : Nat) : Prop :=
  c = Bytes.hexDigit n ∨ c = (Bytes.hexDigit n).toUpper

/-- The ways to percent-encode a byte string. -/
inductive IsPercentEncoding : List Char → Bytes → Prop
  | nil : IsPercentEncoding [] []
  | plain {b : UInt8} {text : List Char} {bytes : Bytes} (hb : isUnreserved b = true)
      (h : IsPercentEncoding text bytes) :
      IsPercentEncoding (Char.ofNat b.toNat :: text) (b :: bytes)
  | escaped {b : UInt8} {high low : Char} {text : List Char} {bytes : Bytes}
      (hb : isUnreserved b = false) (hhigh : IsHexDigit high (b.toNat / 16))
      (hlow : IsHexDigit low (b.toNat % 16)) (h : IsPercentEncoding text bytes) :
      IsPercentEncoding ('%' :: high :: low :: text) (b :: bytes)

/-- The ways to percent-encode a text. -/
def Spells (encoded : List Char) (text : String) : Prop :=
  IsPercentEncoding encoded (Utf8.encode text.toList)

/-- Percent encoding with digits in upper case. -/
def percentEncode (text : String) : List Char :=
  (Utf8.encode text.toList).flatMap fun b =>
    if isUnreserved b then [Char.ofNat b.toNat]
    else '%' :: (Bytes.hexOfByte b).map Char.toUpper

theorem spells_percentEncode (text : String) : Spells (percentEncode text) text := by
  unfold Spells percentEncode
  induction Utf8.encode text.toList with
  | nil => exact .nil
  | cons b bytes ih =>
      rw [List.flatMap_cons]
      cases hb : isUnreserved b with
      | true => exact .plain hb ih
      | false => exact .escaped hb (.inr rfl) (.inr rfl) ih

section Digits

theorem hexValue?_hexDigit {n : Nat} (h : n < 16) :
    hexValue? (Bytes.hexDigit n) = some n ∧ hexValue? (Bytes.hexDigit n).toUpper = some n := by
  have htable : ∀ n < 16, hexValue? (Bytes.hexDigit n) = some n ∧
      hexValue? (Bytes.hexDigit n).toUpper = some n := by decide
  exact htable n h

theorem IsHexDigit.hexValue? {c : Char} {n : Nat} (hc : IsHexDigit c n) (h : n < 16) :
    PackageUrl.hexValue? c = some n := by
  rcases hc with rfl | rfl
  · exact (hexValue?_hexDigit h).1
  · exact (hexValue?_hexDigit h).2

theorem IsHexDigit.isAlphanum {c : Char} {n : Nat} (hc : IsHexDigit c n) (h : n < 16) :
    c.isAlphanum = true := by
  have htable : ∀ n < 16, (Bytes.hexDigit n).isAlphanum = true ∧
      (Bytes.hexDigit n).toUpper.isAlphanum = true := by decide
  rcases hc with rfl | rfl
  · exact (htable n h).1
  · exact (htable n h).2

theorem hexByte?_of_isHexDigit {b : UInt8} {high low : Char}
    (hhigh : IsHexDigit high (b.toNat / 16)) (hlow : IsHexDigit low (b.toNat % 16)) :
    hexByte? high low = some b := by
  have hb := b.toNat_lt
  have hbyte : 16 * (b.toNat / 16) + b.toNat % 16 = b.toNat := by omega
  simp only [hexByte?, hhigh.hexValue? (by omega), hlow.hexValue? (by omega), hbyte,
    UInt8.ofNat_toNat, Option.bind_eq_bind, Option.bind_some, Option.pure_def]

end Digits

section Decoding

/-- A table of the bytes that stand for themselves. -/
theorem isUnreserved_table {b : UInt8} (h : isUnreserved b = true) :
    b.toNat < 128 ∧ b.toNat ≠ 37 := by
  cases b with
  | ofBitVec b =>
      cases b with
      | ofFin b =>
          revert b
          decide +kernel

theorem percentBytes_cons {c : Char} (h : c ≠ '%') (text : List Char) :
    percentBytes (c :: text) = String.utf8EncodeChar c ++ percentBytes text := by
  rw [percentBytes.eq_def]
  split <;> simp_all

theorem IsPercentEncoding.percentBytes {text : List Char} {bytes : Bytes}
    (h : IsPercentEncoding text bytes) : PackageUrl.percentBytes text = bytes := by
  induction h with
  | nil => rfl
  | @plain b text bytes hb _ ih =>
      obtain ⟨hlow, hne⟩ := isUnreserved_table hb
      have hc : (Char.ofNat b.toNat).toNat = b.toNat := Utf8.toNat_ofNat_of_ascii hlow
      have hpercent : Char.ofNat b.toNat ≠ '%' := by
        intro heq
        rw [heq] at hc
        exact hne hc.symm
      have hencode : String.utf8EncodeChar (Char.ofNat b.toNat) = [b] := by
        rcases Utf8.utf8EncodeChar_cases (Char.ofNat b.toNat) with ⟨_, hencode⟩ | ⟨hhigh, _⟩
        · rw [hencode, hc, UInt8.ofNat_toNat]
        · omega
      rw [percentBytes_cons hpercent, hencode, ih, List.singleton_append]
  | @escaped b high low text bytes _ hhigh hlow _ ih =>
      rw [PackageUrl.percentBytes, hexByte?_of_isHexDigit hhigh hlow]
      simp only [ih]

theorem Spells.percentDecode {encoded : List Char} {text : String} (h : Spells encoded text) :
    PackageUrl.percentDecode encoded = .ok text := by
  rw [PackageUrl.percentDecode, IsPercentEncoding.percentBytes h, Utf8.decode?_encode]

/-- An encoded text belongs to one text. -/
theorem Spells.unique {encoded : List Char} {text other : String} (h : Spells encoded text)
    (h' : Spells encoded other) : text = other := by
  have hdecode := h.percentDecode
  rw [h'.percentDecode] at hdecode
  exact (Except.ok.inj hdecode).symm

end Decoding

section Characters

/-- The characters of encoded texts. -/
def isEncoded (c : Char) : Bool :=
  c.isAlphanum || ['-', '.', '_', '~', '%'].contains c

theorem IsPercentEncoding.isEncoded {text : List Char} {bytes : Bytes}
    (h : IsPercentEncoding text bytes) {c : Char} (hc : c ∈ text) :
    PackageUrl.isEncoded c = true := by
  have hletter {d : Char} (hd : d.isAlphanum = true) : PackageUrl.isEncoded d = true :=
    Bool.or_eq_true_iff.mpr (.inl hd)
  induction h with
  | nil => cases hc
  | @plain b text bytes hb _ ih =>
      rcases List.mem_cons.mp hc with rfl | hc
      · rcases Bool.or_eq_true_iff.mp hb with hb | hsign
        · exact hletter hb
        · rw [List.contains_iff_mem] at hsign
          exact Bool.or_eq_true_iff.mpr (.inr (List.contains_iff_mem.mpr
            (List.mem_append_left ['%'] hsign)))
      · exact ih hc
  | @escaped b high low text bytes _ hhigh hlow _ ih =>
      have hb := b.toNat_lt
      simp only [List.mem_cons] at hc
      rcases hc with rfl | rfl | rfl | hc
      · decide
      · exact hletter (hhigh.isAlphanum (by omega))
      · exact hletter (hlow.isAlphanum (by omega))
      · exact ih hc

theorem Spells.not_mem {encoded : List Char} {text : String} (h : Spells encoded text)
    {c : Char} (hc : isEncoded c = false) : c ∉ encoded := by
  intro hmem
  rw [IsPercentEncoding.isEncoded h hmem] at hc
  cases hc

theorem Spells.eq_nil_iff {encoded : List Char} {text : String} (h : Spells encoded text) :
    encoded = [] ↔ text = "" := by
  constructor
  · intro hnil
    subst hnil
    exact h.unique (spells_percentEncode "")
  · intro hempty
    subst hempty
    cases h
    rfl

end Characters

section Cuts

theorem takeLast_append {mark : Char} {front back : List Char} (h : mark ∉ back) :
    takeLast mark (front ++ mark :: back) = (front, some back) := by
  rw [takeLast, Text.cutLast?_append h]

theorem takeLast_of_not_mem {mark : Char} {text : List Char} (h : mark ∉ text) :
    takeLast mark text = (text, none) := by
  rw [takeLast, Text.cutLast?_of_not_mem h]

theorem withoutSlashes_of_not_mem {first last : List Char} (hfirst : '/' ∉ first)
    (hlast : '/' ∉ last) (hne : first ≠ []) (hne' : last ≠ []) :
    withoutSlashes (first ++ '/' :: last) = first ++ '/' :: last := by
  have hdrop {text rest : List Char} (h : '/' ∉ text) (hne : text ≠ []) :
      (text ++ rest).dropWhile (· == '/') = text ++ rest := by
    obtain ⟨c, text, rfl⟩ := List.exists_cons_of_ne_nil hne
    have hc : c ≠ '/' := fun heq => h (heq ▸ List.mem_cons_self)
    rw [List.cons_append, List.dropWhile_cons_of_neg (by simpa using hc)]
  have hreverse : (first ++ '/' :: last).reverse = last.reverse ++ ('/' :: first.reverse) := by
    simp
  have hlast' : '/' ∉ last.reverse := by
    rw [List.mem_reverse]
    exact hlast
  have hne'' : last.reverse ≠ [] := by
    rw [ne_eq, List.reverse_eq_nil_iff]
    exact hne'
  rw [withoutSlashes, hdrop hfirst hne, hreverse, hdrop hlast' hne'', ← hreverse,
    List.reverse_reverse]

/-- The type of package URLs that name artifacts. -/
def artifactType : List Char := ['m', 'a', 'v', 'e', 'n']

/-- How a text without subpath is taken apart, if its type is that of artifacts. -/
theorem parse_of_cuts {text : String} {rest front version path group name : List Char}
    {pairs : Option (List Char)} {qualifiers : List (Option (String × String))}
    {components : List String} {decodedVersion decodedName : String}
    (hscheme : Text.cutFirst? ':' text.toList = some (['p', 'k', 'g'], rest))
    (hrest : rest.dropWhile (· == '/') = rest)
    (hsubpath : takeLast '#' rest = (rest, none))
    (hpairs : takeLast '?' rest = (front, pairs))
    (hqualifiers : (pairs.elim (.ok []) fun pairs =>
      (Text.splitAll '&' pairs).mapM qualifier?) = .ok qualifiers)
    (hversion : takeLast '@' front = (artifactType ++ '/' :: path, some version))
    (hpath : Text.cutLast? '/' (withoutSlashes path) = some (group, name))
    (hname : name ≠ [])
    (hdecodedVersion : percentDecode version = .ok decodedVersion)
    (hdecodedName : percentDecode name = .ok decodedName)
    (hcomponents : (pathParts group).mapM namespaceComponent =
      .ok components) (hne : components ≠ []) :
    parse text =
      .ok ⟨"maven", some ("/".intercalate components), decodedName, some decodedVersion,
        qualifiers.filterMap id, none⟩ := by
  have htype : Text.cutFirst? '/' (artifactType ++ '/' :: path) = some (artifactType, path) :=
    Text.cutFirst?_append (by decide)
  have hword : isWord ['.', '+', '-'] artifactType = true := by decide
  have hlower : Text.lower (String.ofList artifactType) = "maven" := by decide
  unfold parse
  cases pairs with
  | none =>
      obtain rfl : [] = qualifiers := Except.ok.inj hqualifiers
      simp only [hscheme, if_true, ok_bind, hrest, hsubpath, hpairs, Option.mapM_none, hversion,
        Option.mapM_some, hdecodedVersion, htype, hword, hlower, hpath, hname, if_false,
        hdecodedName, hcomponents, hne]
      rfl
  | some pairs =>
      rw [Option.elim_some] at hqualifiers
      simp only [hscheme, if_true, ok_bind, hrest, hsubpath, hpairs, hqualifiers, Option.mapM_none,
        hversion, Option.mapM_some, hdecodedVersion, htype, hword, hlower, hpath, hname, if_false,
        hdecodedName, hcomponents, hne]
      rfl

end Cuts

end CpkProvenance.Maven.PackageUrl
