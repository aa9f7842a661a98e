import CpkProvenance.Proofs.Traced
import CpkProvenance.Xml.Content

/-!
# Contents and events

A text is read as some events if it is cut into pieces up to its end and these are
the events of its pieces, apart from comments, instructions and document types,
which are dropped.

A content in which all elements are closed tells the same as its events. Such a
content is found again in a reading that has these events, and a reading whose
content is of this kind has no other events.
-/

namespace CpkProvenance.Xml

/-- The event that a piece of content is, if it is well-formed. -/
inductive Markup.Tells : Markup → Event → Prop
  | text {raw text : List Char} (resolved : unescape raw = .ok text) :
      Tells (.text raw) (.text (String.ofList text))
  | data (raw : List Char) : Tells (.data raw) (.text (String.ofList raw))
  | openTag {content : List Char} {tag : Tag} (tagged : Tag.ofContent content = .ok tag) :
      Tells (.openTag content) (.openTag tag)
  | emptyTag {content : List Char} {tag : Tag} (tagged : Tag.ofContent content = .ok tag) :
      Tells (.emptyTag content) (.emptyTag tag)
  | closeTag (name : List Char) : Tells (.closeTag name) .closeTag

/-- A text that is cut up to its end, and whose content is the given events. -/
structure IsReadAs (text : List Char) (events : List Event) : Prop where
  whole : (Pieces.ofText text).fault? = none
  content : List.Forall₂ Markup.Tells (significant (Pieces.ofText text).toList) events

theorem Event.ofMarkup_eq_ok_iff {m : Markup} {e : Event} :
    Event.ofMarkup m = .ok e ↔ m.Tells e := by
  constructor
  · intro h
    cases m with
    | text raw =>
        obtain ⟨text, htext, rfl⟩ := map_eq_ok_iff.mp (mapError_eq_ok_iff.mp h)
        exact .text htext
    | data raw =>
        obtain rfl := Except.ok.inj h
        exact .data raw
    | openTag content =>
        obtain ⟨tag, htag, rfl⟩ := map_eq_ok_iff.mp (mapError_eq_ok_iff.mp h)
        exact .openTag htag
    | emptyTag content =>
        obtain ⟨tag, htag, rfl⟩ := map_eq_ok_iff.mp (mapError_eq_ok_iff.mp h)
        exact .emptyTag htag
    | closeTag name =>
        obtain rfl := Except.ok.inj h
        exact .closeTag name
  · intro h
    cases h with
    | text htext => rw [ofMarkup, htext]; rfl
    | data raw => rfl
    | openTag htag => rw [ofMarkup, htag]; rfl
    | emptyTag htag => rw [ofMarkup, htag]; rfl
    | closeTag name => rfl

theorem Reading.push_eq_iff {e : Event} {r : Reading} {es : List Event} {ending : Ending} :
    push e r = ⟨es, ending⟩ ↔ ∃ rest, es = e :: rest ∧ r = ⟨rest, ending⟩ := by
  obtain ⟨events, last⟩ := r
  simp only [push, Reading.mk.injEq]
  constructor
  · rintro ⟨rfl, rfl⟩
    exact ⟨events, rfl, rfl, rfl⟩
  · rintro ⟨rest, rfl, rfl, rfl⟩
    exact ⟨rfl, rfl⟩

theorem Reading.ofMarkup_eq_endOfInput_iff {ending : Ending} {ms : List Markup}
    {es : List Event} :
    Reading.ofMarkup ending ms = ⟨es, .endOfInput⟩ ↔
      ending = .endOfInput ∧ List.Forall₂ Markup.Tells ms es := by
  induction ms generalizing es with
  | nil => simp [ofMarkup, and_comm, eq_comm]
  | cons m ms ih =>
      rw [ofMarkup, List.forall₂_cons_left_iff]
      simp only [← Event.ofMarkup_eq_ok_iff]
      cases Event.ofMarkup m with
      | error fault => simp
      | ok e =>
          simp only [push_eq_iff, ih, Except.ok.injEq]
          constructor
          · rintro ⟨rest, rfl, hending, hrest⟩
            exact ⟨hending, e, rest, rfl, hrest, rfl⟩
          · rintro ⟨hending, _, rest, rfl, hrest, rfl⟩
            exact ⟨rest, rfl, hending, hrest⟩

theorem Reading.ofText_eq_endOfInput_iff {text : List Char} {es : List Event} :
    Reading.ofText text = ⟨es, .endOfInput⟩ ↔ IsReadAs text es := by
  rw [Reading.ofText, Reading.ofPieces, Reading.ofMarkup_eq_endOfInput_iff]
  cases h : (Pieces.ofText text).fault? with
  | none => exact ⟨fun hes => ⟨h, hes.2⟩, fun hes => ⟨rfl, hes.content⟩⟩
  | some fault =>
      refine iff_of_false (by rintro ⟨⟨⟩, _⟩) fun hes => ?_
      rw [hes.whole] at h
      cases h

/-- What holds of the events of a text that is read to its end. -/
theorem exists_isReadAs_iff {text : List Char} {P : List Event → Prop} :
    (∃ es, IsReadAs text es ∧ P es) ↔
      (Reading.ofText text).ending = .endOfInput ∧ P (Reading.ofText text).events := by
  simp only [← Reading.ofText_eq_endOfInput_iff]
  obtain ⟨events, ending⟩ := Reading.ofText text
  simp only [Reading.mk.injEq]
  constructor
  · rintro ⟨es, ⟨rfl, rfl⟩, h⟩
    exact ⟨rfl, h⟩
  · rintro ⟨rfl, h⟩
    exact ⟨events, ⟨rfl, rfl⟩, h⟩

namespace Content

/-- The events that a content consists of, without the end tag after it. -/
def events : Content → List Event
  | .close => []
  | .stop _ => []
  | .text t rest => .text t :: events rest
  | .empty tag rest => .emptyTag tag :: events rest
  | .element tag body rest => .openTag tag :: (events body ++ .closeTag :: events rest)

/-- A content ends in the given way, and the elements in it are closed. -/
def EndsIn : Content → Content → Prop
  | last, .close => last = .close
  | last, .stop ending => last = .stop ending
  | last, .text _ rest => EndsIn last rest
  | last, .empty _ rest => EndsIn last rest
  | last, .element _ body rest => EndsIn .close body ∧ EndsIn last rest

/-- The content up to the end of an element is the first, and what comes after the
element follows. -/
theorem levels_of_endsIn_close {c : Content} (h : EndsIn .close c) (ending : Ending)
    (after : List Event) :
    levels ending (c.events ++ .closeTag :: after) = c :: levels ending after := by
  induction c generalizing after with
  | close => rfl
  | stop _ => cases h
  | text t rest ih =>
      rw [events, List.cons_append, levels, ih h]
      rfl
  | empty tag rest ih =>
      rw [events, List.cons_append, levels, ih h]
      rfl
  | element tag body rest ihbody ihrest =>
      rw [events, List.cons_append, List.append_assoc, List.cons_append, levels, ihbody h.1,
        ihrest h.2]
      rfl

theorem headD_levels_of_endsIn_stop {c : Content} {ending : Ending} (h : EndsIn (.stop ending) c) :
    (levels ending c.events).headD (.stop ending) = c := by
  induction c with
  | close => cases h
  | stop _ => exact h
  | text t rest ih =>
      rw [events, levels, ih h]
      rfl
  | empty tag rest ih =>
      rw [events, levels, ih h]
      rfl
  | element tag body rest _ ih =>
      rw [events, levels, levels_of_endsIn_close h.1, List.tail_cons, ih h.2]
      rfl

theorem eq_cons_of_headD {ending : Ending} {contents : List Content}
    (h : EndsIn .close (contents.headD (.stop ending))) :
    contents = contents.headD (.stop ending) :: contents.tail := by
  cases contents with
  | nil => cases h
  | cons c above => rfl

/-- If the first content ends in an end tag, the events are its own up to there. -/
theorem exists_of_levels_eq_cons {ending : Ending} {es : List Event} {c : Content}
    {above : List Content} (hlevels : levels ending es = c :: above) (h : EndsIn .close c) :
    ∃ after, es = c.events ++ .closeTag :: after ∧ levels ending after = above := by
  match es with
  | [] => cases hlevels
  | .closeTag :: es =>
      obtain ⟨rfl, rfl⟩ := List.cons.inj hlevels
      exact ⟨es, rfl, rfl⟩
  | .text t :: es =>
      obtain ⟨rfl, rfl⟩ := List.cons.inj hlevels
      obtain ⟨after, hes, hafter⟩ := exists_of_levels_eq_cons (eq_cons_of_headD h) h
      exact ⟨after, congrArg (.text t :: ·) hes, hafter⟩
  | .emptyTag tag :: es =>
      obtain ⟨rfl, rfl⟩ := List.cons.inj hlevels
      obtain ⟨after, hes, hafter⟩ := exists_of_levels_eq_cons (eq_cons_of_headD h) h
      exact ⟨after, congrArg (.emptyTag tag :: ·) hes, hafter⟩
  | .openTag tag :: es =>
      -- First the body of the element, then what follows it.
      obtain ⟨rfl, rfl⟩ := List.cons.inj hlevels
      obtain ⟨inner, hes, hinner⟩ := exists_of_levels_eq_cons (eq_cons_of_headD h.1) h.1
      have hshorter : inner.length < es.length := by
        rw [hes, List.length_append, List.length_cons]
        omega
      rw [eq_cons_of_headD h.2] at hinner
      obtain ⟨after, hrest, hafter⟩ := exists_of_levels_eq_cons hinner h.2
      refine ⟨after, ?_, hafter⟩
      rw [events, List.cons_append, List.append_assoc, List.cons_append, ← hrest, ← hes]
termination_by es.length

/-- If the first content ends where the reading stops, the events are its own. -/
theorem eq_events_of_headD_levels {ending last : Ending} (es : List Event)
    (h : EndsIn (.stop last) ((levels ending es).headD (.stop ending))) :
    last = ending ∧ es = ((levels ending es).headD (.stop ending)).events := by
  match es with
  | [] => exact ⟨Content.stop.inj h, rfl⟩
  | .closeTag :: es => cases h
  | .text t :: es =>
      obtain ⟨hlast, hes⟩ := eq_events_of_headD_levels es h
      exact ⟨hlast, congrArg (.text t :: ·) hes⟩
  | .emptyTag tag :: es =>
      obtain ⟨hlast, hes⟩ := eq_events_of_headD_levels es h
      exact ⟨hlast, congrArg (.emptyTag tag :: ·) hes⟩
  | .openTag tag :: es =>
      obtain ⟨inner, hes, hinner⟩ := exists_of_levels_eq_cons (eq_cons_of_headD h.1) h.1
      have hshorter : inner.length < es.length := by
        rw [hes, List.length_append, List.length_cons]
        omega
      have hrest := h.2
      rw [← hinner] at hrest
      obtain ⟨hlast, hafter⟩ := eq_events_of_headD_levels inner hrest
      refine ⟨hlast, ?_⟩
      rw [levels, List.headD_cons, events, ← hinner, ← hafter, ← hes]
termination_by es.length

/-- The content of a reading is complete if it is the tree of the events. -/
theorem ofReading_eq_iff {r : Reading} {c : Content} (h : EndsIn (.stop .endOfInput) c) :
    ofReading r = c ↔ r.ending = .endOfInput ∧ r.events = c.events := by
  constructor
  · rintro rfl
    obtain ⟨hending, hevents⟩ := eq_events_of_headD_levels r.events h
    exact ⟨hending.symm, hevents⟩
  · rintro ⟨hending, hevents⟩
    rw [ofReading, hending, hevents, headD_levels_of_endsIn_stop h]

end Content

end CpkProvenance.Xml
