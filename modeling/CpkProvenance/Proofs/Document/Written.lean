import CpkProvenance.Document.Reader
import CpkProvenance.Document.Writer
import CpkProvenance.Proofs.Text.Blank
import CpkProvenance.Proofs.Traced
import CpkProvenance.Proofs.Xml.Content
import CpkProvenance.Proofs.Xml.Written

/-!
# What a reader finds in a written document

Both documents are written as a root with one element a record. If the lines of a
record are read as some content, the document is read as the contents of its
records, so reading it comes down to reading each of these.
-/

namespace CpkProvenance.Document

open Xml (Content Item Tag isName)
open Xml.Item (Nests layoutEvents lineBreak)
open Xml.Content (EndsIn)

theorem allBlank_lineBreak (depth : Nat) : Text.allBlank (lineBreak depth) = true := by
  apply Text.allBlank_ofList
  intro c hc
  obtain rfl | hc := List.mem_cons.mp hc
  · decide
  · obtain ⟨_, rfl⟩ := List.mem_replicate.mp hc
    decide

/-- A local name does not depend on the attributes. -/
theorem localName_mk (name : String) (attributes : List Xml.Attribute) :
    (⟨name, attributes⟩ : Tag).localName = (plainTag name).localName :=
  rfl

theorem isWritable_plainTag {name : String} (h : isName name = true) :
    (plainTag name).IsWritable :=
  ⟨h, by simp [plainTag], by simp [plainTag]⟩

theorem isWritable_single {name key : String} (hname : isName name = true)
    (hkey : isName key = true) (value : String) : (⟨name, [⟨key, value⟩]⟩ : Tag).IsWritable :=
  ⟨hname, by simpa using hkey, by simp⟩

section Leaf

/-- The content of an element with a written text. -/
def leafBody (text : String) : Content :=
  if text = "" then .close else .text text .close

theorem events_leafBody (text : String) : (leafBody text).events = Xml.Reading.ofWritten text := by
  unfold leafBody Xml.Reading.ofWritten
  split <;> rfl

theorem endsIn_leafBody (text : String) : EndsIn .close (leafBody text) := by
  unfold leafBody
  split <;> rfl

theorem leafText_leafBody (tag text : String) : leafText tag (leafBody text) = .ok text := by
  unfold leafBody
  split
  · next h => rw [h]; rfl
  · exact congrArg Except.ok String.append_empty

end Leaf

section Rooted

/-- The elements inside a root, each on its own lines. -/
def elements (name : String) : List Content → Content
  | [] => .text (lineBreak 0) .close
  | body :: bodies => .text (lineBreak 1) (.element (plainTag name) body (elements name bodies))

/-- The lines of a record are an element of the given name and content. -/
structure IsElement {α : Type} (name : String) (items : α → List Item) (body : α → Content) :
    Prop where
  nests (a : α) (opened : List String) : Nests opened (items a) opened
  events (a : α) (rest : List Item) : layoutEvents 1 (items a ++ rest) =
    .text (lineBreak 1) :: .openTag (plainTag name) ::
      ((body a).events ++ .closeTag :: layoutEvents 1 rest)
  closed (a : α) : EndsIn .close (body a)

variable {α : Type} {root name : String} {items : α → List Item} {body : α → Content}

theorem IsElement.nests_flatMap (h : IsElement name items body) (xs : List α)
    (opened : List String) : Nests opened (xs.flatMap items) opened := by
  induction xs with
  | nil => exact .nil opened
  | cons x xs ih =>
      rw [List.flatMap_cons]
      exact (h.nests x opened).append ih

theorem IsElement.events_elements (h : IsElement name items body) (root : String) (xs : List α) :
    layoutEvents 1 (xs.flatMap items ++ [.closeTag root]) =
      (elements name (xs.map body)).events ++ [.closeTag] := by
  induction xs with
  | nil => rfl
  | cons x xs ih =>
      rw [List.flatMap_cons, List.append_assoc, h.events, ih]
      simp [elements, Content.events]

theorem IsElement.closed_elements (h : IsElement name items body) (xs : List α) :
    EndsIn .close (elements name (xs.map body)) := by
  induction xs with
  | nil => rfl
  | cons x xs ih => exact ⟨h.closed x, ih⟩

/-- The lines of a root element with the given tag. -/
def rootedIn (tag : Tag) (items : List Item) : List Item :=
  .openTag tag :: (items ++ [.closeTag tag.name])

theorem IsElement.nests_rootedIn (h : IsElement name items body) {tag : Tag}
    (htag : tag.IsWritable) (xs : List α) : Nests [] (rootedIn tag (xs.flatMap items)) [] :=
  .openTag htag ((h.nests_flatMap xs _).append (.closeTag htag.name (.nil _)))

/-- The content of a written document. -/
theorem IsElement.ofText_rootedIn (h : IsElement name items body) {tag : Tag}
    (htag : tag.IsWritable) (xs : List α) :
    Content.ofText (Xml.document (rootedIn tag (xs.flatMap items))) =
      .text (lineBreak 0) (.element tag (elements name (xs.map body))
        (.text "\n" (.stop .endOfInput))) := by
  rw [Content.ofText, Xml.ofText_document (h.nests_rootedIn htag xs), Content.ofReading_eq_iff]
  · refine ⟨rfl, ?_⟩
    simp only [rootedIn, layoutEvents, Item.depths, Item.events, h.events_elements tag.name xs,
      Content.events]
    simp
  · exact ⟨h.closed_elements xs, rfl⟩

theorem readItems_elements (root missing : String) (item : Content → Except Fault α)
    (hlocal : (plainTag name).localName = name) (bodies : List Content) :
    readItems root name missing item (elements name bodies) = bodies.mapM item := by
  induction bodies with
  | nil =>
      rw [elements, readItems, if_pos (allBlank_lineBreak 0)]
      rfl
  | cons body bodies ih =>
      rw [elements, readItems, if_pos (allBlank_lineBreak 1), readItems, if_pos hlocal, ih,
        List.mapM_cons]

/-- Reading a written document reads each of its records, if the reader accepts the root. -/
theorem IsElement.readRoot_rootedIn (h : IsElement name items body) {tag : Tag}
    (htag : tag.IsWritable) (hcheck : checkRoot root tag = .ok ())
    (hlocal : (plainTag name).localName = name) (missing : String)
    (item : Content → Except Fault α) (xs : List α) :
    readRoot root name missing item
        (Content.ofText (Xml.document (rootedIn tag (xs.flatMap items)))) =
      xs.mapM fun x => item (body x) := by
  have hafter : readAfter root (.text "\n" (.stop .endOfInput)) = .ok () := rfl
  rw [h.ofText_rootedIn htag, readRoot, if_pos (allBlank_lineBreak 0), readRoot, hcheck, hafter,
    readItems_elements root missing item hlocal, List.mapM_map]
  change (xs.mapM (item ∘ body) >>= fun records => pure records) = _
  exact bind_pure _

/-- Reading a document that was written in its own namespace reads each of its records. -/
theorem IsElement.readRoot_rooted (h : IsElement name items body) (hroot : isName root = true)
    (hlocalRoot : (plainTag root).localName = root) (hlocal : (plainTag name).localName = name)
    (missing : String) (item : Content → Except Fault α) (xs : List α) :
    readRoot root name missing item
        (Content.ofText (Xml.document (rooted root (xs.flatMap items)))) =
      xs.mapM fun x => item (body x) := by
  have hcheck : checkRoot root ⟨root, [⟨"xmlns", xmlNamespace⟩]⟩ = .ok () := by
    rw [checkRoot]
    exact (if_neg (not_not_intro hlocalRoot)).trans (by simp [Tag.attribute?])
  have htag : (⟨root, [⟨"xmlns", xmlNamespace⟩]⟩ : Tag).IsWritable :=
    isWritable_single hroot (by decide) _
  exact h.readRoot_rootedIn htag hcheck hlocal missing item xs

/-- A document is not read by a reader that wants another root. -/
theorem IsElement.readRoot_rooted_of_ne {β : Type} {written : String}
    (h : IsElement name items body) (hwritten : isName written = true)
    (hlocal : (plainTag written).localName = written) (hne : written ≠ root)
    (other missing : String) (item : Content → Except Fault β) (xs : List α) :
    readRoot root other missing item
        (Content.ofText (Xml.document (rooted written (xs.flatMap items)))) =
      .error (.unknownElement written) := by
  have hcheck : checkRoot root ⟨written, [⟨"xmlns", xmlNamespace⟩]⟩ =
      .error (.unknownElement written) := by
    rw [checkRoot, localName_mk, hlocal, if_pos hne]
  have htag : (⟨written, [⟨"xmlns", xmlNamespace⟩]⟩ : Tag).IsWritable :=
    isWritable_single hwritten (by decide) _
  change readRoot root other missing item
    (Content.ofText (Xml.document (rootedIn _ (xs.flatMap items)))) = _
  rw [h.ofText_rootedIn htag, readRoot, if_pos (allBlank_lineBreak 0), readRoot, hcheck]
  rfl

end Rooted

end CpkProvenance.Document
