import CpkProvenance.Proofs.Document.Reader
import CpkProvenance.Proofs.Xml.Content

/-!
# Grammars of documents

A grammar describes lists of events and says what they stand for. Elements follow
each other with blank text between them; an element holds text, or other elements.
Since end tags close the last element that is open, an element is the same for any
grammar: a grammar only chooses among the contents that a reader may find.
-/

namespace CpkProvenance.Document

open Xml (Content Ending Event Tag)
open Xml.Content (EndsIn)

/-- An element with the given events inside. -/
def enclosed (tag : Tag) (inner : List Event) : List Event :=
  .openTag tag :: (inner ++ [.closeTag])

section Grammar

variable {α : Type}

/-- Elements of one kind, with blank text before, between and after them. -/
inductive Spaced (element : List Event → α → Prop) : List Event → List α → Prop
  | nil : Spaced element [] []
  | blank {text : String} {rest : List Event} {values : List α}
      (blank : Text.allBlank text = true) (others : Spaced element rest values) :
      Spaced element (.text text :: rest) values
  | cons {events rest : List Event} {value : α} {values : List α} (first : element events value)
      (others : Spaced element rest values) : Spaced element (events ++ rest) (value :: values)

/-- Text in any number of pieces. -/
inductive Texts : List Event → String → Prop
  | nil : Texts [] ""
  | cons {text : String} {rest : List Event} {others : String} (h : Texts rest others) :
      Texts (.text text :: rest) (text ++ others)

/-- An element of the given name, which must not be empty. -/
inductive Element (name : String) (inner : List Event → α → Prop) : List Event → α → Prop
  | mk {tag : Tag} {events : List Event} {value : α} (named : tag.localName = name)
      (h : inner events value) : Element name inner (enclosed tag events) value

/-- An element of the given name that holds nothing but text. -/
inductive Leaf (name : String) : List Event → String → Prop
  | empty {tag : Tag} (h : tag.localName = name) : Leaf name [.emptyTag tag] ""
  | full {events : List Event} {text : String} (h : Element name Texts events text) :
      Leaf name events text

/-- A root element of records. -/
inductive Root (name : String) (record : List Event → α → Prop) : List Event → List α → Prop
  | empty {tag : Tag} (h : IsRootTag name tag) : Root name record [.emptyTag tag] []
  | full {tag : Tag} {events : List Event} {records : List α} (h : IsRootTag name tag)
      (inner : Spaced record events records) : Root name record (enclosed tag events) records

end Grammar

section Nodes

/-- Events in which every element is closed. -/
def IsBalanced (es : List Event) : Prop :=
  ∃ c : Content, EndsIn .close c ∧ c.events = es

/-- Events of one element. -/
inductive IsNode : List Event → Prop
  | empty (tag : Tag) : IsNode [.emptyTag tag]
  | enclosed (tag : Tag) {inner : List Event} (h : IsBalanced inner) : IsNode (enclosed tag inner)

/-- What is enclosed ends at the end tag that belongs to it, and at no other. -/
theorem IsBalanced.append_inj {a b : List Event} (ha : IsBalanced a) (hb : IsBalanced b)
    {as bs : List Event} (h : a ++ .closeTag :: as = b ++ .closeTag :: bs) : a = b ∧ as = bs := by
  obtain ⟨c, hc, rfl⟩ := ha
  obtain ⟨d, hd, rfl⟩ := hb
  have hlevels := Content.levels_of_endsIn_close hc .endOfInput as
  rw [h, Content.levels_of_endsIn_close hd] at hlevels
  obtain rfl := (List.cons.inj hlevels).1
  exact ⟨rfl, (List.cons.inj (List.append_cancel_left h)).2⟩

theorem Texts.isBalanced {es : List Event} {text : String} (h : Texts es text) :
    IsBalanced es := by
  induction h with
  | nil => exact ⟨.close, rfl, rfl⟩
  | @cons text _ _ _ ih =>
      obtain ⟨c, hc, rfl⟩ := ih
      exact ⟨.text text c, hc, rfl⟩

variable {α : Type} {element inner : List Event → α → Prop}

/-- Spaced elements are the events of a content that ends in any way. -/
theorem Spaced.exists_content (hnode : ∀ es v, element es v → IsNode es) {es : List Event}
    {vs : List α} (h : Spaced element es vs) (last : Content) (hlast : EndsIn last last)
    (hevents : last.events = []) : ∃ c, EndsIn last c ∧ c.events = es := by
  induction h with
  | nil => exact ⟨last, hlast, hevents⟩
  | @blank text _ _ _ _ ih =>
      obtain ⟨c, hc, rfl⟩ := ih
      exact ⟨.text text c, hc, rfl⟩
  | @cons es rest _ _ first _ ih =>
      obtain ⟨c, hc, rfl⟩ := ih
      cases hnode _ _ first with
      | empty tag => exact ⟨.empty tag c, hc, rfl⟩
      | enclosed tag h =>
          obtain ⟨body, hbody, rfl⟩ := h
          refine ⟨.element tag body c, ⟨hbody, hc⟩, ?_⟩
          simp [enclosed, Content.events]

theorem Spaced.isBalanced (hnode : ∀ es v, element es v → IsNode es) {es : List Event}
    {vs : List α} (h : Spaced element es vs) : IsBalanced es :=
  h.exists_content hnode .close rfl rfl

theorem Element.isNode {name : String} (hinner : ∀ es v, inner es v → IsBalanced es)
    {es : List Event} {v : α} (h : Element name inner es v) : IsNode es := by
  cases h with
  | mk _ h => exact .enclosed _ (hinner _ _ h)

theorem Leaf.isNode {name : String} {es : List Event} {text : String} (h : Leaf name es text) :
    IsNode es := by
  cases h with
  | empty _ => exact .empty _
  | full h => exact h.isNode fun _ _ => Texts.isBalanced

theorem Root.isNode {name : String} (hnode : ∀ es v, element es v → IsNode es) {es : List Event}
    {vs : List α} (h : Root name element es vs) : IsNode es := by
  cases h with
  | empty _ => exact .empty _
  | full _ inner => exact .enclosed _ (inner.isBalanced hnode)

end Nodes

section Inversion

variable {α : Type} {element inner : List Event → α → Prop} {es : List Event} {vs : List α}
  {tag : Tag}

theorem enclosed_inj {a b : Tag} {as bs : List Event} (h : enclosed a as = enclosed b bs) :
    a = b ∧ as = bs := by
  obtain ⟨htag, hinner⟩ := List.cons.inj h
  exact ⟨Event.openTag.inj htag, List.append_cancel_right hinner⟩

theorem spaced_cases (h : Spaced element es vs) :
    (es = [] ∧ vs = []) ∨
      (∃ text rest, es = .text text :: rest ∧ Text.allBlank text = true ∧ Spaced element rest vs) ∨
      ∃ first rest v others, es = first ++ rest ∧ vs = v :: others ∧ element first v ∧
        Spaced element rest others := by
  cases h with
  | nil => exact .inl ⟨rfl, rfl⟩
  | blank hblank others => exact .inr (.inl ⟨_, _, rfl, hblank, others⟩)
  | cons first others => exact .inr (.inr ⟨_, _, _, _, rfl, rfl, first, others⟩)

variable (hnode : ∀ es v, element es v → IsNode es)

include hnode

theorem spaced_nil_iff : Spaced element [] vs ↔ vs = [] := by
  constructor
  · intro h
    obtain ⟨_, rfl⟩ | ⟨_, _, h, _⟩ | ⟨first, rest, v, _, h, _, hv, _⟩ := spaced_cases h
    · rfl
    · cases h
    · obtain ⟨rfl, _⟩ := List.append_eq_nil_iff.mp h.symm
      cases hnode _ _ hv
  · rintro rfl
    exact .nil

theorem spaced_text_iff {text : String} :
    Spaced element (.text text :: es) vs ↔ Text.allBlank text = true ∧ Spaced element es vs := by
  constructor
  · intro h
    obtain ⟨h, _⟩ | ⟨_, _, h, hblank, hrest⟩ | ⟨first, rest, v, _, h, _, hv, _⟩ := spaced_cases h
    · cases h
    · obtain ⟨htext, rfl⟩ := List.cons.inj h
      obtain rfl := Event.text.inj htext
      exact ⟨hblank, hrest⟩
    · cases hnode _ _ hv with
      | empty tag => cases h
      | enclosed tag _ => cases h
  · rintro ⟨hblank, h⟩
    exact .blank hblank h

theorem spaced_emptyTag_iff :
    Spaced element (.emptyTag tag :: es) vs ↔
      ∃ v others, vs = v :: others ∧ element [.emptyTag tag] v ∧ Spaced element es others := by
  constructor
  · intro h
    obtain ⟨h, _⟩ | ⟨_, _, h, _⟩ | ⟨first, rest, v, others, h, rfl, hv, hothers⟩ := spaced_cases h
    · cases h
    · cases h
    · cases hnode _ _ hv with
      | empty tag =>
          obtain ⟨htag, rfl⟩ := List.cons.inj h
          obtain rfl := Event.emptyTag.inj htag
          exact ⟨v, others, rfl, hv, hothers⟩
      | enclosed tag _ => cases h
  · rintro ⟨v, others, rfl, hv, hothers⟩
    exact .cons hv hothers

theorem spaced_openTag_iff {body : List Event} (hbody : IsBalanced body) :
    Spaced element (.openTag tag :: (body ++ .closeTag :: es)) vs ↔
      ∃ v others, vs = v :: others ∧ element (enclosed tag body) v ∧ Spaced element es others := by
  constructor
  · intro h
    obtain ⟨h, _⟩ | ⟨_, _, h, _⟩ | ⟨first, rest, v, others, h, rfl, hv, hothers⟩ := spaced_cases h
    · cases h
    · cases h
    · cases hnode _ _ hv with
      | empty tag => cases h
      | @enclosed tag inner hinner =>
          obtain ⟨htag, hevents⟩ := List.cons.inj h
          obtain rfl := Event.openTag.inj htag
          rw [List.append_eq, List.append_assoc] at hevents
          obtain ⟨rfl, rfl⟩ := hbody.append_inj hinner hevents
          exact ⟨v, others, rfl, hv, hothers⟩
  · rintro ⟨v, others, rfl, hv, hothers⟩
    have h := Spaced.cons hv hothers
    rw [enclosed, List.cons_append, List.append_assoc] at h
    exact h

end Inversion

/-- Elements of which only some kind is used. -/
theorem spaced_map_iff {α β : Type} {element : List Event → α → Prop} {part : List Event → β → Prop}
    {f : β → α} (h : ∀ es v, element es (f v) ↔ part es v) {es : List Event} {vs : List β} :
    Spaced element es (vs.map f) ↔ Spaced part es vs := by
  constructor
  · intro hvs
    generalize hmap : vs.map f = ws at hvs
    induction hvs generalizing vs with
    | nil =>
        obtain rfl := List.map_eq_nil_iff.mp hmap
        exact .nil
    | blank hblank _ ih => exact .blank hblank (ih hmap)
    | cons hfirst _ ih =>
        obtain ⟨v, others, rfl, rfl, hothers⟩ := List.map_eq_cons_iff.mp hmap
        exact .cons ((h _ _).mp hfirst) (ih hothers)
  · intro hvs
    induction hvs with
    | nil => exact .nil
    | blank hblank _ ih => exact .blank hblank ih
    | cons hfirst _ ih => exact .cons ((h _ _).mpr hfirst) ih

section Readers

variable {α : Type} {inner : List Event → α → Prop}

theorem element_enclosed_iff {name : String} {tag : Tag} {es : List Event} {v : α} :
    Element name inner (enclosed tag es) v ↔ tag.localName = name ∧ inner es v := by
  constructor
  · intro h
    generalize henclosed : enclosed tag es = all at h
    cases h with
    | mk named h =>
        obtain ⟨rfl, rfl⟩ := enclosed_inj henclosed
        exact ⟨named, h⟩
  · rintro ⟨named, h⟩
    exact .mk named h

theorem not_element_emptyTag {name : String} {tag : Tag} {v : α} :
    ¬ Element name inner [.emptyTag tag] v := by
  intro h
  generalize hevents : [Event.emptyTag tag] = all at h
  cases h with
  | mk _ _ => cases hevents

theorem leaf_emptyTag_iff {tag : Tag} {name text : String} :
    Leaf name [.emptyTag tag] text ↔ tag.localName = name ∧ text = "" := by
  constructor
  · intro h
    generalize hevents : [Event.emptyTag tag] = all at h
    cases h with
    | empty h =>
        obtain rfl := Event.emptyTag.inj (List.cons.inj hevents).1
        exact ⟨h, rfl⟩
    | full h =>
        subst hevents
        exact absurd h not_element_emptyTag
  · rintro ⟨h, rfl⟩
    exact .empty h

theorem leaf_enclosed_iff {tag : Tag} {es : List Event} {name text : String} :
    Leaf name (enclosed tag es) text ↔ tag.localName = name ∧ Texts es text := by
  rw [← element_enclosed_iff]
  constructor
  · intro h
    generalize henclosed : enclosed tag es = all at h
    cases h with
    | empty h => cases henclosed
    | full h => exact h
  · exact .full

theorem texts_text_iff {text : String} {es : List Event} {all : String} :
    Texts (.text text :: es) all ↔ ∃ others, Texts es others ∧ text ++ others = all := by
  constructor
  · intro h
    cases h with
    | cons h => exact ⟨_, h, rfl⟩
  · rintro ⟨others, h, rfl⟩
    exact .cons h

/-- The text of an element is all text in it, and it must hold nothing else. -/
theorem leafText_eq_ok_iff {tag : String} {c : Content} {text : String} :
    leafText tag c = .ok text ↔ EndsIn .close c ∧ Texts c.events text := by
  induction c generalizing text with
  | close =>
      rw [leafText, Except.ok.injEq]
      constructor
      · rintro rfl
        exact ⟨rfl, .nil⟩
      · rintro ⟨_, h⟩
        cases h
        rfl
  | stop ending => exact iff_of_false (by rintro ⟨⟩) (by rintro ⟨⟨⟩, _⟩)
  | text piece rest ih =>
      simp only [leafText, bind_eq_ok_iff, ih, Content.events, texts_text_iff]
      constructor
      · rintro ⟨others, ⟨hend, hothers⟩, h⟩
        exact ⟨hend, others, hothers, Except.ok.inj h⟩
      · rintro ⟨hend, others, hothers, rfl⟩
        exact ⟨others, ⟨hend, hothers⟩, rfl⟩
  | empty child rest => exact iff_of_false (by rintro ⟨⟩) (by rintro ⟨_, ⟨⟩⟩)
  | element child body rest => exact iff_of_false (by rintro ⟨⟩) (by rintro ⟨_, ⟨⟩⟩)

end Readers

section Loops

variable {α σ : Type} {element : List Event → α → Prop} {add? : σ → α → Option σ}
  {read : σ → Content → Except Fault σ}

/-- A reader that passes over blank text, and adds the elements that it finds to its state
one by one, as long as they can be added. -/
structure Accumulates (read : σ → Content → Except Fault σ) (element : List Event → α → Prop)
    (add? : σ → α → Option σ) : Prop where
  isNode : ∀ es v, element es v → IsNode es
  close : ∀ s, read s .close = .ok s
  stop : ∀ s ending found, read s (.stop ending) ≠ .ok found
  text : ∀ s text rest found, read s (.text text rest) = .ok found ↔
    Text.allBlank text = true ∧ read s rest = .ok found
  empty : ∀ s tag rest found, read s (.empty tag rest) = .ok found ↔
    ∃ v next, element [.emptyTag tag] v ∧ add? s v = some next ∧ read next rest = .ok found
  full : ∀ s tag body rest found, read s (.element tag body rest) = .ok found ↔
    EndsIn .close body ∧ ∃ v next, element (enclosed tag body.events) v ∧
      add? s v = some next ∧ read next rest = .ok found

theorem foldlM_cons_eq_some_iff {s found : σ} {v : α} {vs : List α} :
    (v :: vs).foldlM add? s = some found ↔
      ∃ next, add? s v = some next ∧ vs.foldlM add? next = some found := by
  rw [List.foldlM_cons]
  exact Option.bind_eq_some_iff

/-- The run of such a reader over a content. -/
theorem Accumulates.eq_ok_iff (h : Accumulates read element add?) {c : Content} {s found : σ} :
    read s c = .ok found ↔
      EndsIn .close c ∧ ∃ vs, Spaced element c.events vs ∧ vs.foldlM add? s = some found := by
  induction c generalizing s with
  | close =>
      rw [h.close, Except.ok.injEq, Content.events]
      simp only [spaced_nil_iff h.isNode]
      constructor
      · rintro rfl
        exact ⟨rfl, [], rfl, rfl⟩
      · rintro ⟨_, _, rfl, hfold⟩
        exact Option.some.inj hfold
  | stop ending => exact iff_of_false (h.stop s ending found) (by rintro ⟨⟨⟩, _⟩)
  | text text rest ih =>
      rw [h.text, ih, Content.events]
      simp only [spaced_text_iff h.isNode]
      constructor
      · rintro ⟨hblank, hend, vs, hvs, hfold⟩
        exact ⟨hend, vs, ⟨hblank, hvs⟩, hfold⟩
      · rintro ⟨hend, vs, ⟨hblank, hvs⟩, hfold⟩
        exact ⟨hblank, hend, vs, hvs, hfold⟩
  | empty tag rest ih =>
      rw [h.empty, Content.events]
      simp only [ih, spaced_emptyTag_iff h.isNode]
      constructor
      · rintro ⟨v, next, hv, hnext, hend, vs, hvs, hfold⟩
        exact ⟨hend, v :: vs, ⟨v, vs, rfl, hv, hvs⟩,
          foldlM_cons_eq_some_iff.mpr ⟨next, hnext, hfold⟩⟩
      · rintro ⟨hend, _, ⟨v, vs, rfl, hv, hvs⟩, hfold⟩
        obtain ⟨next, hnext, hfold⟩ := foldlM_cons_eq_some_iff.mp hfold
        exact ⟨v, next, hv, hnext, hend, vs, hvs, hfold⟩
  | element tag body rest _ ih =>
      rw [h.full, Content.events]
      simp only [ih]
      constructor
      · rintro ⟨hbody, v, next, hv, hnext, hend, vs, hvs, hfold⟩
        refine ⟨⟨hbody, hend⟩, v :: vs, ?_, foldlM_cons_eq_some_iff.mpr ⟨next, hnext, hfold⟩⟩
        exact (spaced_openTag_iff h.isNode ⟨body, hbody, rfl⟩).mpr ⟨v, vs, rfl, hv, hvs⟩
      · rintro ⟨⟨hbody, hend⟩, _, hvs, hfold⟩
        obtain ⟨v, vs, rfl, hv, hvs⟩ := (spaced_openTag_iff h.isNode ⟨body, hbody, rfl⟩).mp hvs
        obtain ⟨next, hnext, hfold⟩ := foldlM_cons_eq_some_iff.mp hfold
        exact ⟨hbody, v, next, hv, hnext, hend, vs, hvs, hfold⟩

end Loops

section Documents

variable {α : Type} {inner : List Event → α → Prop}

/-- A root is read if it holds records, each of which is read. -/
theorem readItems_eq_ok_iff {root name missing : String} {item : Content → Except Fault α}
    (hbalanced : ∀ es v, inner es v → IsBalanced es)
    (hitem : ∀ body v, item body = .ok v ↔ EndsIn .close body ∧ inner body.events v)
    {c : Content} {vs : List α} :
    readItems root name missing item c = .ok vs ↔
      EndsIn .close c ∧ Spaced (Element name inner) c.events vs := by
  have hnode (es : List Event) (v : α) (h : Element name inner es v) : IsNode es :=
    h.isNode hbalanced
  induction c generalizing vs with
  | close =>
      rw [readItems, Content.events, spaced_nil_iff hnode, Except.ok.injEq, eq_comm]
      exact ⟨fun h => ⟨rfl, h⟩, fun h => h.2⟩
  | stop ending => exact iff_of_false (by rintro ⟨⟩) (by rintro ⟨⟨⟩, _⟩)
  | text text rest ih =>
      rw [readItems, Content.events, spaced_text_iff hnode, ite_error_eq_ok_iff]
      exact (and_congr_right fun _ => ih).trans and_left_comm
  | empty tag rest ih =>
      rw [readItems, Content.events, spaced_emptyTag_iff hnode]
      constructor
      · intro h
        split at h <;> cases h
      · rintro ⟨_, v, _, _, hv, _⟩
        exact absurd hv not_element_emptyTag
  | element tag body rest _ ih =>
      rw [readItems, Content.events, ite_error_eq_ok_iff]
      simp only [bind_eq_ok_iff, hitem, ih]
      constructor
      · rintro ⟨hname, first, ⟨hbody, hfirst⟩, others, ⟨hrest, hothers⟩, h⟩
        refine ⟨⟨hbody, hrest⟩, (spaced_openTag_iff hnode ⟨body, hbody, rfl⟩).mpr ?_⟩
        exact ⟨first, others, (Except.ok.inj h).symm, .mk hname hfirst, hothers⟩
      · rintro ⟨⟨hbody, hrest⟩, h⟩
        obtain ⟨first, others, rfl, hfirst, hothers⟩ :=
          (spaced_openTag_iff hnode ⟨body, hbody, rfl⟩).mp h
        obtain ⟨hname, hfirst⟩ := element_enclosed_iff.mp hfirst
        exact ⟨hname, first, ⟨hbody, hfirst⟩, others, ⟨hrest, hothers⟩, rfl⟩

theorem readAfter_eq_ok_iff {element : List Event → α → Prop}
    (hnode : ∀ es v, element es v → IsNode es) {root : String} {c : Content} {u : Unit} :
    readAfter root c = .ok u ↔
      EndsIn (.stop .endOfInput) c ∧ Spaced element c.events [] := by
  induction c with
  | close => exact iff_of_false (by rintro ⟨⟩) (by rintro ⟨⟨⟩, _⟩)
  | stop ending =>
      cases ending with
      | endOfInput => exact ⟨fun _ => ⟨rfl, .nil⟩, fun _ => rfl⟩
      | fault fault => exact iff_of_false (by rintro ⟨⟩) (by rintro ⟨⟨⟩, _⟩)
  | text text rest ih =>
      rw [readAfter, Content.events, spaced_text_iff hnode, ite_error_eq_ok_iff]
      exact (and_congr_right fun _ => ih).trans and_left_comm
  | empty tag rest =>
      rw [readAfter, Content.events, spaced_emptyTag_iff hnode]
      constructor
      · intro h
        split at h <;> cases h
      · rintro ⟨_, _, _, h, _⟩
        cases h
  | element tag body rest =>
      rw [readAfter, Content.events]
      constructor
      · intro h
        split at h <;> cases h
      · rintro ⟨⟨hbody, _⟩, h⟩
        obtain ⟨_, _, h, _⟩ := (spaced_openTag_iff hnode ⟨body, hbody, rfl⟩).mp h
        cases h

theorem root_emptyTag_iff {name : String} {record : List Event → α → Prop} {tag : Tag}
    {vs : List α} :
    Root name record [.emptyTag tag] vs ↔ IsRootTag name tag ∧ vs = [] := by
  constructor
  · intro h
    generalize hevents : [Event.emptyTag tag] = all at h
    cases h with
    | empty h =>
        obtain rfl := Event.emptyTag.inj (List.cons.inj hevents).1
        exact ⟨h, rfl⟩
    | full _ _ => cases hevents
  · rintro ⟨h, rfl⟩
    exact .empty h

theorem root_enclosed_iff {name : String} {record : List Event → α → Prop} {tag : Tag}
    {es : List Event} {vs : List α} :
    Root name record (enclosed tag es) vs ↔ IsRootTag name tag ∧ Spaced record es vs := by
  constructor
  · intro h
    generalize henclosed : enclosed tag es = all at h
    cases h with
    | empty _ => cases henclosed
    | full h inner =>
        obtain ⟨rfl, rfl⟩ := enclosed_inj henclosed
        exact ⟨h, inner⟩
  · rintro ⟨h, inner⟩
    exact .full h inner

/-- A document is read if it is a root of records, and nothing else. -/
theorem readRoot_eq_ok_iff {root name missing : String} {item : Content → Except Fault α}
    (hbalanced : ∀ es v, inner es v → IsBalanced es)
    (hitem : ∀ body v, item body = .ok v ↔ EndsIn .close body ∧ inner body.events v)
    {c : Content} {vs : List α} :
    readRoot root name missing item c = .ok vs ↔
      EndsIn (.stop .endOfInput) c ∧ Spaced (Root root (Element name inner)) c.events [vs] := by
  have hrecord (es : List Event) (v : α) (h : Element name inner es v) : IsNode es :=
    h.isNode hbalanced
  have hnode (es : List Event) (vs : List α) (h : Root root (Element name inner) es vs) :
      IsNode es :=
    h.isNode hrecord
  induction c with
  | close => exact iff_of_false (by rintro ⟨⟩) (by rintro ⟨⟨⟩, _⟩)
  | stop ending =>
      rw [Content.events, spaced_nil_iff hnode]
      exact iff_of_false (by cases ending <;> rintro ⟨⟩) (by rintro ⟨_, ⟨⟩⟩)
  | text text rest ih =>
      rw [readRoot, Content.events, spaced_text_iff hnode, ite_error_eq_ok_iff]
      exact (and_congr_right fun _ => ih).trans and_left_comm
  | empty tag rest =>
      rw [readRoot, Content.events, spaced_emptyTag_iff hnode]
      simp only [bind_eq_ok_iff, checkRoot_eq_ok_iff, readAfter_eq_ok_iff hnode,
        root_emptyTag_iff]
      constructor
      · rintro ⟨_, hroot, _, ⟨hend, hafter⟩, h⟩
        exact ⟨hend, [], [], by rw [Except.ok.inj h], ⟨hroot, rfl⟩, hafter⟩
      · rintro ⟨hend, _, _, h, ⟨hroot, rfl⟩, hafter⟩
        obtain ⟨rfl, rfl⟩ := List.cons.inj h
        exact ⟨(), hroot, (), ⟨hend, hafter⟩, rfl⟩
  | element tag body rest =>
      rw [readRoot, Content.events]
      simp only [bind_eq_ok_iff, checkRoot_eq_ok_iff, readAfter_eq_ok_iff hnode,
        readItems_eq_ok_iff hbalanced hitem]
      constructor
      · rintro ⟨_, hroot, records, ⟨hbody, hrecords⟩, _, ⟨hend, hafter⟩, h⟩
        refine ⟨⟨hbody, hend⟩, (spaced_openTag_iff hnode ⟨body, hbody, rfl⟩).mpr ?_⟩
        exact ⟨records, [], by rw [Except.ok.inj h], .full hroot hrecords, hafter⟩
      · rintro ⟨⟨hbody, hend⟩, h⟩
        obtain ⟨_, _, h, hroot, hafter⟩ := (spaced_openTag_iff hnode ⟨body, hbody, rfl⟩).mp h
        obtain ⟨rfl, rfl⟩ := List.cons.inj h
        obtain ⟨hroot, hrecords⟩ := root_enclosed_iff.mp hroot
        exact ⟨(), hroot, vs, ⟨hbody, hrecords⟩, (), ⟨hend, hafter⟩, rfl⟩

/-- A text is a document if its tokens can be read to the end, and its events are a
root of records. -/
theorem readRoot_ofReading_eq_ok_iff {root name missing : String}
    {item : Content → Except Fault α} (hbalanced : ∀ es v, inner es v → IsBalanced es)
    (hitem : ∀ body v, item body = .ok v ↔ EndsIn .close body ∧ inner body.events v)
    {r : Xml.Reading} {vs : List α} :
    readRoot root name missing item (Content.ofReading r) = .ok vs ↔
      r.ending = .endOfInput ∧ Spaced (Root root (Element name inner)) r.events [vs] := by
  have hnode (es : List Event) (vs : List α) (h : Root root (Element name inner) es vs) :
      IsNode es :=
    h.isNode fun _ _ h => h.isNode hbalanced
  rw [readRoot_eq_ok_iff hbalanced hitem]
  constructor
  · rintro ⟨hend, h⟩
    obtain ⟨hending, hevents⟩ := (Content.ofReading_eq_iff hend).mp rfl
    exact ⟨hending, hevents ▸ h⟩
  · rintro ⟨hending, h⟩
    obtain ⟨c, hc, hevents⟩ := h.exists_content hnode (.stop .endOfInput) rfl rfl
    rw [(Content.ofReading_eq_iff hc).mpr ⟨hending, hevents.symm⟩, hevents]
    exact ⟨hc, h⟩

end Documents

end CpkProvenance.Document
