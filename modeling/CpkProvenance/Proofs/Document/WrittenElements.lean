import CpkProvenance.Proofs.Document.Grammar
import CpkProvenance.Proofs.Document.Written

/-!
# Lines as elements

A writer lays out lines, a grammar describes events. Lines that follow each other at one
depth are written as elements if reading them gives exactly the events of these
elements, with blank text between. The pieces of a document are put together in this
way from the inside out. A grammar whose elements stand for one value each finds no
other values in the events, so nothing that is written can be taken for something else.
-/

namespace CpkProvenance.Document

open Xml (Event Item Reading Tag isName)
open Xml.Item (Nests layoutEvents lineBreak)

section Unambiguity

variable {α β : Type} {element inner : List Event → α → Prop} {es : List Event}

/-- What is described is one element, and stands for one value. -/
structure UnambiguousElement (element : List Event → α → Prop) : Prop where
  isNode : ∀ es v, element es v → IsNode es
  unique : ∀ es v w, element es v → element es w → v = w

/-- What is described can stand in an element, and stands for one value. -/
structure UnambiguousContent (inner : List Event → α → Prop) : Prop where
  isBalanced : ∀ es v, inner es v → IsBalanced es
  unique : ∀ es v w, inner es v → inner es w → v = w

theorem Texts.unique {s t : String} (hs : Texts es s) (ht : Texts es t) : s = t := by
  induction hs generalizing t with
  | nil =>
      cases ht
      rfl
  | cons _ ih =>
      obtain ⟨others, hothers, rfl⟩ := texts_text_iff.mp ht
      rw [ih hothers]

/-- An element that holds a text has one name and one text. -/
theorem Leaf.unique {m n s t : String} (hs : Leaf m es s) (ht : Leaf n es t) : m = n ∧ s = t := by
  cases hs with
  | empty hm =>
      obtain ⟨hn, rfl⟩ := leaf_emptyTag_iff.mp ht
      exact ⟨hm.symm.trans hn, rfl⟩
  | full hs =>
      cases hs with
      | mk hm hs =>
          obtain ⟨hn, ht⟩ := leaf_enclosed_iff.mp ht
          exact ⟨hm.symm.trans hn, hs.unique ht⟩

theorem UnambiguousContent.enclosed (h : UnambiguousContent inner) (name : String) :
    UnambiguousElement (Element name inner) where
  isNode _ _ hv := hv.isNode h.isBalanced
  unique _ v w hv hw := by
    cases hv with
    | mk _ hv => exact h.unique _ v w hv (element_enclosed_iff.mp hw).2

/-- Values may be read off others, as long as no two are read off the same. -/
theorem UnambiguousContent.of_injective (h : UnambiguousContent inner) {f : β → α}
    (hf : Function.Injective f) : UnambiguousContent fun es v => inner es (f v) where
  isBalanced es v := h.isBalanced es (f v)
  unique es v w hv hw := hf (h.unique es (f v) (f w) hv hw)

theorem UnambiguousElement.spaced_unique (h : UnambiguousElement element) {vs ws : List α}
    (hvs : Spaced element es vs) (hws : Spaced element es ws) : vs = ws := by
  induction hvs generalizing ws with
  | nil => exact ((spaced_nil_iff h.isNode).mp hws).symm
  | blank _ _ ih => exact ih ((spaced_text_iff h.isNode).mp hws).2
  | @cons first rest v vs hfirst _ ih =>
      -- The end of the first element is fixed by its own events.
      have hsplit : ∃ w others, ws = w :: others ∧ element first w ∧ Spaced element rest others := by
        cases h.isNode _ _ hfirst with
        | empty tag => exact (spaced_emptyTag_iff h.isNode).mp hws
        | enclosed tag hinner =>
            rw [enclosed, List.cons_append, List.append_assoc] at hws
            exact (spaced_openTag_iff h.isNode hinner).mp hws
      obtain ⟨w, others, rfl, hw, hothers⟩ := hsplit
      rw [h.unique _ _ _ hfirst hw, ih hothers]

/-- Elements in a row can be told apart. -/
theorem UnambiguousElement.spaced (h : UnambiguousElement element) :
    UnambiguousContent (Spaced element) where
  isBalanced _ _ hvs := hvs.isBalanced h.isNode
  unique _ _ _ := h.spaced_unique

end Unambiguity

section Lines

variable {α β : Type} {element : List Event → α → Prop} {inner : List Event → β → Prop}

theorem Spaced.append {as bs : List Event} {vs ws : List α} (ha : Spaced element as vs)
    (hb : Spaced element bs ws) : Spaced element (as ++ bs) (vs ++ ws) := by
  induction ha with
  | nil => exact hb
  | blank hblank _ ih => exact .blank hblank ih
  | cons first _ ih =>
      rw [List.append_assoc]
      exact .cons first ih

theorem texts_ofWritten (text : String) : Texts (Reading.ofWritten text) text := by
  unfold Reading.ofWritten
  split
  · next h =>
      rw [h]
      exact .nil
  · have h : Texts [.text text] (text ++ "") := .cons .nil
    rwa [String.append_empty] at h

/-- Lines at a depth that are read as elements of the given values, whatever follows. -/
structure IsLaidOutAs (element : List Event → α → Prop) (depth : Nat) (items : List Item)
    (values : List α) : Prop where
  nests : ∀ opened, Nests opened items opened
  events : ∃ es, Spaced element es values ∧
    ∀ rest, layoutEvents depth (items ++ rest) = es ++ layoutEvents depth rest

namespace IsLaidOutAs

variable {depth : Nat}

theorem nil : IsLaidOutAs element depth [] [] :=
  ⟨.nil, [], .nil, fun _ => rfl⟩

theorem append {xs ys : List Item} {vs ws : List α} (hx : IsLaidOutAs element depth xs vs)
    (hy : IsLaidOutAs element depth ys ws) : IsLaidOutAs element depth (xs ++ ys) (vs ++ ws) := by
  obtain ⟨as, has, hxs⟩ := hx.events
  obtain ⟨bs, hbs, hys⟩ := hy.events
  refine ⟨fun opened => (hx.nests opened).append (hy.nests opened), as ++ bs, has.append hbs, ?_⟩
  intro rest
  rw [List.append_assoc, hxs, hys, List.append_assoc]

theorem flatMap {γ : Type} {items : γ → List Item} {value : γ → α}
    (h : ∀ c, IsLaidOutAs element depth (items c) [value c]) (cs : List γ) :
    IsLaidOutAs element depth (cs.flatMap items) (cs.map value) := by
  induction cs with
  | nil => exact nil
  | cons c cs ih => exact (h c).append ih

/-- A line with a text, which may be any text. -/
theorem leaf {name text : String} (hname : isName name = true) {value : α}
    (h : element (enclosed (plainTag name) (Reading.ofWritten text)) value) :
    IsLaidOutAs element depth [.leaf (plainTag name) text] [value] := by
  refine ⟨fun opened => .leaf (isWritable_plainTag hname) (.nil opened),
    .text (lineBreak depth) :: (enclosed (plainTag name) (Reading.ofWritten text) ++ []), ?_, ?_⟩
  · exact .blank (allBlank_lineBreak depth) (.cons h .nil)
  · intro rest
    simp [layoutEvents, Item.depths, Item.events, enclosed]

/-- Lines between a start tag and an end tag. -/
theorem enclosing {tag : Tag} (htag : tag.IsWritable) {items : List Item} {inside : List β}
    (hitems : IsLaidOutAs inner (depth + 1) items inside) {value : α}
    (h : ∀ es, Spaced inner es inside → element (enclosed tag es) value) :
    IsLaidOutAs element depth (.openTag tag :: (items ++ [.closeTag tag.name])) [value] := by
  obtain ⟨es, hes, hevents⟩ := hitems.events
  have hbody : Spaced inner (es ++ [.text (lineBreak depth)]) inside := by
    have hlast : Spaced inner [.text (lineBreak depth)] [] :=
      .blank (allBlank_lineBreak depth) .nil
    have hall := hes.append hlast
    rwa [List.append_nil] at hall
  refine ⟨fun opened => .openTag htag ?_,
    .text (lineBreak depth) :: (enclosed tag (es ++ [.text (lineBreak depth)]) ++ []), ?_, ?_⟩
  · exact (hitems.nests _).append (.closeTag htag.name (.nil opened))
  · exact .blank (allBlank_lineBreak depth) (.cons (h _ hbody) .nil)
  · intro rest
    rw [List.cons_append, List.append_assoc, layoutEvents]
    change _ :: _ :: layoutEvents (depth + 1) (items ++ .closeTag tag.name :: rest) = _
    rw [hevents]
    simp [layoutEvents, Item.depths, Item.events, enclosed]

/-- A document of such lines is read to its end, as these elements. -/
theorem ofText_document {items : List Item} {values : List α}
    (h : IsLaidOutAs element 0 items values) :
    (Reading.ofText (Xml.document items).toList).ending = .endOfInput ∧
      Spaced element (Reading.ofText (Xml.document items).toList).events values := by
  obtain ⟨es, hes, hevents⟩ := h.events
  have hitems := hevents []
  rw [List.append_nil] at hitems
  rw [Xml.ofText_document (h.nests []), hitems]
  refine ⟨rfl, ?_⟩
  have hlast : Spaced element (layoutEvents 0 [] ++ [.text "\n"]) [] :=
    .blank (by decide) .nil
  have hall := hes.append hlast
  rwa [List.append_nil, ← List.append_assoc] at hall

end IsLaidOutAs

end Lines

end CpkProvenance.Document
