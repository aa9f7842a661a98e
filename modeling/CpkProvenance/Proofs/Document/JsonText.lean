import CpkProvenance.CommandLine.Run
import CpkProvenance.Proofs.Bytes.Base64
import CpkProvenance.Proofs.Json

/-!
# Shown documents

Two documents of dependencies that are shown as the same JSON text are the same document,
and so are the documents in two files for which the same text is printed. Texts have one
reading, so that only the JSON values are compared here: a type that is absent is a member
that is absent, and signers are shown as a text or as an object.
-/

namespace CpkProvenance.Document

open CommandLine (Command inspectDocument)

theorem HashValue.toJson_inj {h k : HashValue} : h.toJson = k.toJson ↔ h = k := by
  obtain ⟨algorithm, value⟩ := h
  obtain ⟨algorithm', value'⟩ := k
  simp [toJson, Base64.encodeText_inj]

theorem map_toJson_inj {hs ks : List HashValue} :
    hs.map HashValue.toJson = ks.map HashValue.toJson ↔ hs = ks :=
  List.map_inj_right fun _ _ => HashValue.toJson_inj.mp

theorem Signers.toJson_inj {x y : Signers} : x.toJson = y.toJson ↔ x = y := by
  cases x with
  | sameAsMe => cases y <;> simp [toJson]
  | publicKeyHashes hashes => cases y <;> simp [toJson, map_toJson_inj]

/-- With a type there is one member more. -/
theorem Dependency.toJson_inj {a b : Dependency} : a.toJson = b.toJson ↔ a = b := by
  obtain ⟨name, version, type, signers⟩ := a
  obtain ⟨name', version', type', signers'⟩ := b
  cases type with
  | none => cases type' <;> simp [toJson, Signers.toJson_inj]
  | some t => cases type' <;> simp [toJson, Signers.toJson_inj]

theorem Dependencies.toJson_inj {d e : Dependencies} : d.toJson = e.toJson ↔ d = e := by
  obtain ⟨dependencies⟩ := d
  obtain ⟨dependencies'⟩ := e
  have hmap : dependencies.map Dependency.toJson = dependencies'.map Dependency.toJson ↔
      dependencies = dependencies' :=
    List.map_inj_right fun _ _ => Dependency.toJson_inj.mp
  simp [toJson, hmap]

theorem result_inspect {files : FileTree} {path : String} {d : Dependencies}
    (h : inspectDocument files path = .ok d) (faults : FileTree.Faults) :
    ((Command.inspect path).run faults files).result = .ok (d.toJson.render ++ "\n") := by
  simp only [Command.run, CommandLine.Execution.ofResult, h, Except.map]

/-- **Showing a document loses nothing.** Documents with the same text are the same. So they
are told apart if at one place one of them has no type and the other an empty one, or one of
them says that the signers are the same and the other lists none. Printing the documents in
two files gives the same output exactly if they are the same document. -/
theorem Dependencies.render_toJson_inj (d e : Dependencies) :
    (d.toJson.render = e.toJson.render ↔ d = e) ∧
      (∀ front a back front' b back', d.dependencies = front ++ a :: back →
        e.dependencies = front' ++ b :: back' → front.length = front'.length →
        (a.type = none ∧ b.type = some "") ∨
          (a.signers = .sameAsMe ∧ b.signers = .publicKeyHashes []) →
        d.toJson.render ≠ e.toJson.render) ∧
      (∀ faults files path faults' files' path', inspectDocument files path = .ok d →
        inspectDocument files' path' = .ok e →
        (((Command.inspect path).run faults files).result =
            ((Command.inspect path').run faults' files').result ↔ d = e)) := by
  have hinj : d.toJson.render = e.toJson.render ↔ d = e := by
    rw [Json.render_inj, toJson_inj]
  refine ⟨hinj, ?_, ?_⟩
  · intro front a back front' b back' hd he hlength hdiffer hrender
    have hsame : front ++ a :: back = front' ++ b :: back' := by
      rw [← hd, ← he, hinj.mp hrender]
    have hplace : a = b := (List.cons.inj (List.append_inj hsame hlength).2).1
    subst hplace
    rcases hdiffer with ⟨hnone, hempty⟩ | ⟨hself, hlist⟩
    · rw [hnone] at hempty
      cases hempty
    · rw [hself] at hlist
      cases hlist
  · intro faults files path faults' files' path' hd he
    rw [result_inspect hd, result_inspect he, Except.ok.injEq, String.append_left_inj, hinj]

/-- A version that is written like the member after it does not stand for one. -/
theorem render_toJson_ne_lookalikes :
    let shown (version : String) (type : Option String) (signers : Signers) : String :=
      (Dependencies.mk [⟨"lib", version, type, signers⟩]).toJson.render
    shown "1" none .sameAsMe ≠ shown "1" (some "") .sameAsMe ∧
      shown "1" none .sameAsMe ≠ shown "1" none (.publicKeyHashes []) ∧
      shown "1\",\n      \"type\": \"cpk" none .sameAsMe ≠ shown "1" (some "cpk") .sameAsMe := by
  intro shown
  refine ⟨?_, ?_, ?_⟩
  · exact (Dependencies.render_toJson_inj _ _).2.1 [] _ [] [] _ [] rfl rfl rfl (.inl ⟨rfl, rfl⟩)
  · exact (Dependencies.render_toJson_inj _ _).2.1 [] _ [] [] _ [] rfl rfl rfl (.inr ⟨rfl, rfl⟩)
  · exact fun h => absurd ((Dependencies.render_toJson_inj _ _).1.mp h) (by decide)

end CpkProvenance.Document
