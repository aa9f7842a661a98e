import CpkProvenance.Proofs.Archive.SignatureFiles
import Mathlib.Computability.Language

/-!
# Exempt names

The names of files that need not be signed form a regular language. The beginnings and
ends that are taken off a name decide it: what remains must not be empty where the
language asks for some text.

Signature files and blocks are found under names in any case, but only upper case is
exempt. `META-INF/a.sf` is read as a signature file and must be signed nevertheless.
-/

namespace CpkProvenance

open scoped Computability

namespace Text

/-- The language of a single text. -/
def word (text : String) : Language Char := {text.toList}

/-- The texts of one character, whichever it is. -/
def anyCharacter : Language Char := {w | ∃ c, w = [c]}

/-- The texts of one or more characters. -/
def someText : Language Char := anyCharacter * anyCharacter∗

variable {l m : Language Char} {text : String}

theorem toList_mem_word {other : String} : text.toList ∈ word other ↔ text = other :=
  String.toList_inj

theorem toList_mem_mul :
    text.toList ∈ l * m ↔ ∃ front back, text = front ++ back ∧ front.toList ∈ l ∧
      back.toList ∈ m := by
  rw [Language.mem_mul]
  constructor
  · rintro ⟨front, hfront, back, hback, h⟩
    refine ⟨String.ofList front, String.ofList back, ?_, ?_, ?_⟩
    · rw [← String.toList_inj, String.toList_append, String.toList_ofList, String.toList_ofList, h]
    · rw [String.toList_ofList]
      exact hfront
    · rw [String.toList_ofList]
      exact hback
  · rintro ⟨front, back, rfl, hfront, hback⟩
    exact ⟨_, hfront, _, hback, String.toList_append.symm⟩

theorem word_append (front back : String) : word (front ++ back) = word front * word back := by
  ext w
  rw [Language.mem_mul]
  constructor
  · rintro rfl
    exact ⟨_, rfl, _, rfl, String.toList_append.symm⟩
  · rintro ⟨_, rfl, _, rfl, rfl⟩
    exact String.toList_append.symm

/-- Taking a beginning off a text decides whether the text is that beginning and a text of
some language. -/
theorem toList_mem_word_mul {start : String} :
    text.toList ∈ word start * l ↔ ∃ rest, dropStart? start text = some rest ∧ rest.toList ∈ l := by
  simp only [toList_mem_mul, toList_mem_word, dropStart?_eq_some_iff]
  constructor
  · rintro ⟨_, rest, h, rfl, hrest⟩
    exact ⟨rest, h, hrest⟩
  · rintro ⟨rest, h, hrest⟩
    exact ⟨start, rest, h, rfl, hrest⟩

theorem toList_mem_mul_word {tail : String} :
    text.toList ∈ l * word tail ↔ ∃ rest, dropEnd? tail text = some rest ∧ rest.toList ∈ l := by
  simp only [toList_mem_mul, toList_mem_word, dropEnd?_eq_some_iff]
  constructor
  · rintro ⟨rest, _, h, hrest, rfl⟩
    exact ⟨rest, h, hrest⟩
  · rintro ⟨rest, h, hrest⟩
    exact ⟨rest, tail, h, hrest, rfl⟩

/-- Every text is made of single characters. -/
theorem mem_kstar_anyCharacter (w : List Char) : w ∈ anyCharacter∗ := by
  induction w with
  | nil => exact Language.nil_mem_kstar anyCharacter
  | cons c w ih =>
      rw [← Language.one_add_self_mul_kstar_eq_kstar, Language.mem_add]
      exact .inr (Language.append_mem_mul (a := [c]) ⟨c, rfl⟩ ih)

theorem toList_mem_someText : text.toList ∈ someText ↔ text ≠ "" := by
  rw [someText, Language.mem_mul, ne_eq, ← String.toList_eq_nil_iff]
  constructor
  · rintro ⟨_, ⟨c, rfl⟩, rest, _, h⟩
    rw [← h]
    exact List.cons_ne_nil c rest
  · intro h
    obtain ⟨c, rest, h⟩ := List.exists_cons_of_ne_nil h
    exact ⟨[c], ⟨c, rfl⟩, rest, mem_kstar_anyCharacter rest, h.symm⟩

end Text

namespace Archive

open Text (word someText)

/-- The types of signature files and signature blocks. -/
def signatureTypes : Language Char := word "SF" + word "DSA" + word "RSA" + word "EC"

/-- What is exempt inside `META-INF/`. The alternatives overlap: `SIG-.SF` is a signature
file and begins with `SIG-`. -/
def exemptInside : Language Char :=
  someText * word "." * signatureTypes + word "SIG-" * someText + word "INDEX.LIST"

/-- The language `META-INF/((.+\.(SF|DSA|RSA|EC)|SIG-.+)|INDEX\.LIST)`. -/
def exemptNames : Language Char := word "META-INF/" * exemptInside

/-- An ending of signature files and blocks is a point and a type. -/
theorem exists_mem_signatureEndings_iff {name : String} :
    (∃ ending ∈ signatureEndings, name.toList ∈ someText * word ending) ↔
      name.toList ∈ someText * word "." * signatureTypes := by
  have hword : ∀ kind, word "." * word kind = word ("." ++ kind) :=
    fun kind => (Text.word_append "." kind).symm
  simp only [signatureTypes, mul_assoc, mul_add, hword, Language.mem_add]
  simp [signatureEndings, or_assoc]

theorem isExempt_iff {name : String} :
    isExempt name = true ↔ name.toList ∈ exemptInside := by
  simp only [isExempt, exemptInside, Bool.or_eq_true, beq_iff_eq, Option.any_eq_true, bne_iff_ne,
    List.any_eq_true, Language.mem_add, ← exists_mem_signatureEndings_iff,
    Text.toList_mem_mul_word, Text.toList_mem_word_mul, Text.toList_mem_word,
    Text.toList_mem_someText]
  -- `isExempt` tries the alternatives in the opposite order
  rw [or_comm, or_left_comm, or_comm]

theorem isSignable_eq_false_iff {name : String} :
    isSignable name false = false ↔ name.toList ∈ exemptNames := by
  rw [exemptNames, Text.toList_mem_word_mul, isSignable]
  cases Text.dropStart? "META-INF/" name with
  | none => simp
  | some rest => simp [← isExempt_iff]

example : "META-INF/SIG-.SF".toList ∈ exemptNames ∧ "META-INF/.SF".toList ∉ exemptNames := by
  rw [← isSignable_eq_false_iff, ← isSignable_eq_false_iff]
  decide

theorem toList_mem_exemptNames {base ending : String} (hbase : base ≠ "")
    (hending : ending ∈ signatureEndings) :
    ("META-INF/" ++ base ++ ending).toList ∈ exemptNames := by
  have hinside : (base ++ ending).toList ∈ someText * word "." * signatureTypes := by
    rw [← exists_mem_signatureEndings_iff]
    refine ⟨ending, hending, Text.toList_mem_mul_word.mpr ⟨base, ?_, ?_⟩⟩
    · exact Text.dropEnd?_eq_some_iff.mpr rfl
    · exact Text.toList_mem_someText.mpr hbase
  rw [String.append_assoc, exemptNames, Text.toList_mem_word_mul]
  exact ⟨base ++ ending, Text.dropStart?_eq_some_iff.mpr rfl, .inl (.inl hinside)⟩

end Archive

namespace Jar

open Archive (exemptNames signatureEndings isSignable)

/-- One of the names in an archive is taken for a signature file, whether that has a block
or not, or for the block of one. -/
inductive IsTaken (names : List String) : String → Prop
  | file {path base : String} (mem : path ∈ names) (isFile : signatureBase? path = some base) :
      IsTaken names path
  | block {path base block : String} (mem : path ∈ names)
      (isFile : signatureBase? path = some base) (isBlock : blockName? names base = some block) :
      IsTaken names block

/-- In upper case, the ending of a block is one of those that are exempt. -/
theorem upper_mem_signatureEndings {ending : String} (h : ending ∈ blockEndings) :
    Text.upper ("." ++ ending) ∈ signatureEndings := by
  revert ending
  decide

theorem upper_of_blockName? {names : List String} {base block : String}
    (h : blockName? names base = some block) :
    ∃ ending ∈ signatureEndings, Text.upper block = "META-INF/" ++ Text.upper base ++ ending := by
  obtain ⟨ending, hending, hfound⟩ := List.exists_of_findSome?_eq_some h
  have hcase := List.find?_some hfound
  refine ⟨Text.upper ("." ++ ending), upper_mem_signatureEndings hending, ?_⟩
  rw [Text.equalIgnoringCase_iff_upper.mp hcase, String.append_assoc, Text.upper_append,
    Text.upper_append]
  rfl

/-- In upper case, every name that is taken is exempt. -/
theorem IsTaken.upper_mem_exemptNames {names : List String} {name : String}
    (h : IsTaken names name) : (Text.upper name).toList ∈ exemptNames := by
  cases h with
  | file mem isFile =>
      obtain ⟨hupper, hbase, _⟩ := signatureBase?_eq_some_iff.mp isFile
      rw [hupper]
      exact Archive.toList_mem_exemptNames hbase (by decide)
  | block mem isFile isBlock =>
      obtain ⟨_, hbase, _⟩ := signatureBase?_eq_some_iff.mp isFile
      obtain ⟨ending, hending, hupper⟩ := upper_of_blockName? isBlock
      rw [hupper]
      exact Archive.toList_mem_exemptNames (Text.upper_eq_empty_iff.not.mpr hbase) hending

-- in lower case a signature file is found, but is not exempt
example : IsTaken ["META-INF/a.sf"] "META-INF/a.sf" ∧ "META-INF/a.sf".toList ∉ exemptNames := by
  constructor
  · exact .file (by decide) (by decide : signatureBase? "META-INF/a.sf" = some "A")
  · rw [← Archive.isSignable_eq_false_iff]
    decide

/-- **Exempt names are those of the language**, for files of every name. The names under
which signature files and their blocks are found are among them if they are in upper case. -/
theorem not_isSignable_iff_mem_exemptNames (name : String) :
    (isSignable name false = false ↔ name.toList ∈ exemptNames) ∧
      ∀ names, IsTaken names name → Text.upper name = name → name.toList ∈ exemptNames := by
  constructor
  · exact Archive.isSignable_eq_false_iff
  · intro names htaken hupper
    have hmem := htaken.upper_mem_exemptNames
    rw [hupper] at hmem
    exact hmem

/-- The block of a signature file whose own name is not in upper case. -/
theorem mem_exemptNames_upperBlock :
    IsTaken ["META-INF/Sig-.sf", "META-INF/SIG-.EC"] "META-INF/SIG-.EC" ∧
      Text.upper "META-INF/SIG-.EC" = "META-INF/SIG-.EC" ∧
      "META-INF/SIG-.EC".toList ∈ exemptNames := by
  have hfile : signatureBase? "META-INF/Sig-.sf" = some "SIG-" := by decide
  have htaken : IsTaken ["META-INF/Sig-.sf", "META-INF/SIG-.EC"] "META-INF/SIG-.EC" :=
    .block List.mem_cons_self hfile (by decide)
  have hupper : Text.upper "META-INF/SIG-.EC" = "META-INF/SIG-.EC" := by decide
  exact ⟨htaken, hupper, (not_isSignable_iff_mem_exemptNames _).2 _ htaken hupper⟩

end Jar

end CpkProvenance
