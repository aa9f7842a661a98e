import CpkProvenance.Proofs.Archive.Opening
import CpkProvenance.Proofs.Digest.Reads
import CpkProvenance.Proofs.Text.Case

/-!
# Digests of entries

An entry is read through a buffer, and each block of it goes to the hashers of all digests
that the manifest records. The verdicts come after the last block. Neither the buffer nor
the blocks show in them: an entry is refused if its whole content lacks a recorded digest,
and the refusal names the algorithm of the first such digest in the section.
-/

namespace CpkProvenance

namespace Manifest

/-- The attribute records a digest that a content does not have. -/
def Attribute.MissesDigest (content : Bytes) (a : Attribute) : Prop :=
  ∃ algorithm, a.IsDigest "-Digest" algorithm ∧
    Text.trim a.value ≠ Base64.encodeText (algorithm.digest content)

theorem Attribute.missesDigest_iff {a : Attribute} {content : Bytes} :
    ((RecordedDigest.ofAttribute? "-Digest" a).any fun d => !d.isOf content) = true ↔
      a.MissesDigest content := by
  simp only [Option.any_eq_true, Bool.not_eq_true', RecordedDigest.ofAttribute?_eq_some_iff,
    RecordedDigest.isOf_eq_false_iff, RecordedDigest.IsDigestOf, Attribute.MissesDigest]
  constructor
  · rintro ⟨d, ⟨hdigest, htext⟩, hne⟩
    rw [htext] at hne
    exact ⟨d.algorithm, hdigest, hne⟩
  · rintro ⟨algorithm, hdigest, hne⟩
    exact ⟨⟨algorithm, a.value⟩, ⟨hdigest, rfl⟩, hne⟩

end Manifest

namespace Jar

open Manifest
open Zip (Member)

/-- The first of the digests in some attributes that a content does not have comes from the
first attribute that records such a digest. -/
theorem firstMismatch?_digests_eq_some_iff {attributes : Attributes} {content : Bytes}
    {d : RecordedDigest} :
    firstMismatch? (attributes.digests "-Digest") content = some d ↔
      ∃ a, IsFirst (·.MissesDigest content) attributes a ∧ a.IsDigest "-Digest" d.algorithm ∧
        d.text = a.value := by
  rw [firstMismatch?, Attributes.digests, List.find?_filterMap, Option.bind_eq_some_iff]
  simp only [find?_eq_some_iff_isFirst fun _ => Attribute.missesDigest_iff,
    RecordedDigest.ofAttribute?_eq_some_iff]

/-- What a member shows if its content is looked at as a whole. -/
def wholeEntry (jar : Jar) (m : Member) : Except Failure Archive.Entry :=
  match m.content with
  | .error fault => .error (readFailure jar.name m fault)
  | .ok content =>
      match firstMismatch? (jar.recordedDigests m.name) content with
      | some d => .error (.signature jar.name (.entryDigest d.algorithm m.name))
      | none => .ok (jar.entryOf m)

theorem readEntry_eq_wholeEntry {buffer : Nat} (hbuffer : buffer ≠ 0) (jar : Jar) (m : Member) :
    jar.readEntry buffer m = jar.wholeEntry m := by
  rw [readEntry, wholeEntry, Member.pieces, if_neg hbuffer]
  cases m.content with
  | error fault => rfl
  | ok content =>
      simp only [Except.map, RecordedDigest.isOfPieces_pieces hbuffer, firstMismatch?]
      rfl

section Checks

/-- A recorded digest with the hasher of its algorithm. -/
structure Check where
  digest : RecordedDigest
  hasher : Digest.Hasher digest.algorithm

def Check.update (c : Check) (block : Bytes) : Check := ⟨c.digest, c.hasher.update block⟩

def Check.passes (c : Check) : Bool := Digest.recorded c.digest.text c.hasher.finish

/-- The check of a digest after some bytes have been received. -/
def Check.ofMessage (d : RecordedDigest) (message : Bytes) : Check :=
  ⟨d, Digest.Stream.ofMessage message⟩

theorem Check.passes_ofMessage (d : RecordedDigest) (message : Bytes) :
    (Check.ofMessage d message).passes = d.isOf message := by
  rw [Check.passes, Check.ofMessage, Digest.Stream.finish_ofMessage]
  rfl

/-- The checks on an entry before any of it is read. -/
def checks (jar : Jar) (name : String) : List Check :=
  (jar.recordedDigests name).map fun d => ⟨d, Digest.Stream.empty⟩

/-- Each block goes to all checks. -/
def advance (checks : List Check) (block : Bytes) : List Check :=
  checks.map (·.update block)

/-- What a member shows, as the checks stand after the last block. -/
def verdict (jar : Jar) (m : Member) (checks : List Check) : Except Failure Archive.Entry :=
  match checks.find? fun c => !c.passes with
  | some c => .error (.signature jar.name (.entryDigest c.digest.algorithm m.name))
  | none => .ok (jar.entryOf m)

theorem advance_ofMessage (digests : List RecordedDigest) (message block : Bytes) :
    advance (digests.map (Check.ofMessage · message)) block =
      digests.map (Check.ofMessage · (message ++ block)) := by
  rw [advance, List.map_map]
  refine List.map_congr_left fun d _ => ?_
  rw [Function.comp_apply, Check.update, Check.ofMessage, Digest.Stream.update_ofMessage]
  rfl

/-- Whatever the blocks, the verdict is on the whole content. -/
theorem verdict_of_reads {jar : Jar} {m : Member} {content : Bytes} {room : Nat}
    {last : List Check} (hcontent : m.content = .ok content)
    (h : Bytes.Reads room advance (jar.checks m.name) content last) :
    jar.verdict m last = jar.wholeEntry m := by
  -- New hashers have received the empty message, so that all states of the run have one form.
  have hchecks : jar.checks m.name = (jar.recordedDigests m.name).map (Check.ofMessage · []) :=
    List.map_congr_left fun d _ => by rw [Check.ofMessage, Digest.Stream.empty_eq_ofMessage]
  rw [hchecks] at h
  have hlast : last = (jar.recordedDigests m.name).map (Check.ofMessage · content) :=
    h.eq_of_step (advance_ofMessage _)
  rw [verdict, wholeEntry, hcontent, hlast, List.find?_map]
  simp only [Function.comp_def, Check.passes_ofMessage, firstMismatch?]
  cases (jar.recordedDigests m.name).find? fun d => !d.isOf content with
  | none => rfl
  | some d => rfl

end Checks

section Refused

variable {jar : Jar} {m : Member} {content : Bytes}

theorem firstMismatch?_recordedDigests_eq_some_iff {name : String} {d : RecordedDigest} :
    firstMismatch? (jar.recordedDigests name) content = some d ↔
      ∃ s, IsFirst (·.name = name) jar.manifest.sections s ∧
        firstMismatch? s.digests content = some d := by
  simp only [← Manifest.section?_eq_some_iff, recordedDigests]
  cases jar.manifest.section? name with
  | none => simp [firstMismatch?]
  | some s => simp

theorem exists_firstMismatch?_recordedDigests_iff {name : String} {algorithm : Digest.Algorithm} :
    (∃ d, firstMismatch? (jar.recordedDigests name) content = some d ∧ d.algorithm = algorithm) ↔
      ∃ s a, IsFirst (·.name = name) jar.manifest.sections s ∧
        IsFirst (·.MissesDigest content) s.attributes a ∧ a.IsDigest "-Digest" algorithm := by
  simp only [firstMismatch?_recordedDigests_eq_some_iff, Section.digests,
    firstMismatch?_digests_eq_some_iff]
  constructor
  · rintro ⟨d, ⟨s, hs, a, ha, hdigest, _⟩, rfl⟩
    exact ⟨s, a, hs, ha, hdigest⟩
  · rintro ⟨s, a, hs, ha, hdigest⟩
    exact ⟨⟨algorithm, a.value⟩, ⟨s, hs, a, ha, hdigest, rfl⟩, rfl⟩

/-- No other failure is one of a digest. -/
theorem wholeEntry_eq_digest_error_iff {archive entry : String} {algorithm : Digest.Algorithm} :
    jar.wholeEntry m = .error (.signature archive (.entryDigest algorithm entry)) ↔
      archive = jar.name ∧ entry = m.name ∧ ∃ content, m.content = .ok content ∧
        ∃ d, firstMismatch? (jar.recordedDigests m.name) content = some d ∧
          d.algorithm = algorithm := by
  rw [wholeEntry]
  cases m.content with
  | error fault => cases fault <;> simp [readFailure]
  | ok content =>
      simp only [Except.ok.injEq, exists_eq_left']
      cases firstMismatch? (jar.recordedDigests m.name) content with
      | none => simp
      | some d =>
          simp only [Except.error.injEq, Failure.signature.injEq, SignatureFault.entryDigest.injEq,
            Option.some.injEq, exists_eq_left']
          constructor
          · rintro ⟨rfl, rfl, rfl⟩
            exact ⟨rfl, rfl, rfl⟩
          · rintro ⟨rfl, rfl, rfl⟩
            exact ⟨rfl, rfl, rfl⟩

/-- **The verdict on an entry is one on its whole content.** All buffers that hold a byte give
the same entry or the same failure, and so does every way to read the content block by block.
The failure is one of a digest exactly if the content can be read, and the first section of
the entry's name records a digest that it does not have. -/
theorem readEntry_verdict (jar : Jar) (m : Member) {first second : Nat} (hfirst : first ≠ 0)
    (hsecond : second ≠ 0) :
    jar.readEntry first m = jar.readEntry second m ∧
    (∀ content room last, m.content = .ok content →
      Bytes.Reads room advance (jar.checks m.name) content last →
        jar.readEntry first m = jar.verdict m last) ∧
    ∀ archive algorithm entry,
      jar.readEntry first m = .error (.signature archive (.entryDigest algorithm entry)) ↔
        archive = jar.name ∧ entry = m.name ∧ ∃ content s a, m.content = .ok content ∧
          IsFirst (·.name = m.name) jar.manifest.sections s ∧
          IsFirst (·.MissesDigest content) s.attributes a ∧ a.IsDigest "-Digest" algorithm := by
  rw [readEntry_eq_wholeEntry hfirst, readEntry_eq_wholeEntry hsecond]
  refine ⟨rfl, fun content room last hcontent h => (verdict_of_reads hcontent h).symm, ?_⟩
  intro archive algorithm entry
  simp only [wholeEntry_eq_digest_error_iff, exists_firstMismatch?_recordedDigests_iff,
    exists_and_left]

/-- A text file with three digests in the manifest: one of an unknown algorithm, and two that
are no digests. -/
def mislabelledFile : Member := ⟨"a.txt", .ok [97], none⟩

@[inherit_doc mislabelledFile]
def mislabelledJar : Jar :=
  ⟨"lib.jar", [mislabelledFile],
    ⟨[], [], [], [⟨"a.txt", [⟨"MD5-Digest", "?"⟩, ⟨"sha1-digest", " AA "⟩,
      ⟨"SHA-256-Digest", "?"⟩], []⟩]⟩, []⟩

theorem readEntry_mislabelledFile :
    mislabelledJar.readEntry 1 mislabelledFile = mislabelledJar.readEntry 8192 mislabelledFile ∧
      mislabelledJar.readEntry 1 mislabelledFile =
        .error (.signature "lib.jar" (.entryDigest .sha1 "a.txt")) := by
  obtain ⟨hsame, _, hrefused⟩ :=
    @readEntry_verdict mislabelledJar mislabelledFile 1 8192 (by decide) (by decide)
  have hunknown : ¬ Attribute.MissesDigest [97] ⟨"MD5-Digest", "?"⟩ := by
    rw [← Attribute.missesDigest_iff]
    decide
  have hdigest : Attribute.IsDigest ⟨"sha1-digest", " AA "⟩ "-Digest" .sha1 :=
    ⟨"SHA1", by decide, by decide⟩
  have hwrong (v : Bytes) : Text.trim " AA " ≠ Base64.encodeText v := by
    intro htext
    have hfail : (Base64.decode (Utf8.encode (Text.trim " AA ").toList)).toOption = none := by
      decide
    rw [Base64.decode_trim_eq_ok_iff.mpr htext] at hfail
    cases hfail
  refine ⟨hsame, (hrefused _ _ _).mpr ⟨rfl, rfl, [97], _, _, rfl, ⟨rfl, [], [], rfl, ?_⟩,
    ⟨⟨.sha1, hdigest, hwrong _⟩, [⟨"MD5-Digest", "?"⟩], [⟨"SHA-256-Digest", "?"⟩], rfl, ?_⟩,
    hdigest⟩⟩
  · exact List.forall_mem_nil _
  · exact List.forall_mem_singleton.mpr hunknown

end Refused

end Jar

end CpkProvenance
