import CpkProvenance.Proofs.Xml.WrittenTag
import CpkProvenance.Xml.Event

/-!
# Written documents are read back

A document of lines whose tags match is read without a fault, and its events are
those of the lines, with the line breaks between them. Texts and values may hold
any characters.
-/

namespace CpkProvenance.Xml

namespace Reading

/-- Puts events before those of a reading. -/
def prepend (events : List Event) (r : Reading) : Reading := ⟨events ++ r.events, r.ending⟩

@[simp] theorem prepend_nil (r : Reading) : prepend [] r = r := rfl

@[simp] theorem push_prepend (e : Event) (es : List Event) (r : Reading) :
    push e (prepend es r) = prepend (e :: es) r := rfl

/-- The events of the rest of a text inside the start tags of the given names, innermost
first. -/
def inside (opened : List (List Char)) (text : List Char) : Reading :=
  ofPieces (Pieces.inside opened text)

section Pieces

variable {opened inner : List (List Char)} {c : Char} {rest after : List Char}

theorem pieces_inside_of_next {piece : Piece} (h : Piece.next c rest = .ok (piece, after))
    (hnest : piece.nest opened = .ok inner) :
    Pieces.inside opened (c :: rest) =
      ⟨piece :: (Pieces.inside inner after).toList, (Pieces.inside inner after).fault?⟩ := by
  rw [Pieces.inside]
  split
  · next hnext =>
      rw [h] at hnext
      cases hnext
  · next hnext =>
      rw [h] at hnext
      obtain ⟨rfl, rfl⟩ := Prod.mk.inj (Except.ok.inj hnext)
      rw [hnest]

/-- A piece of content is an event. -/
theorem inside_of_markup {m : Markup} {event : Event}
    (h : Piece.next c rest = .ok (.markup m, after)) (hnest : m.nest opened = .ok inner)
    (hevent : Event.ofMarkup m = .ok event) :
    inside opened (c :: rest) = push event (inside inner after) := by
  have hsignificant (ps : List Piece) : significant (.markup m :: ps) = m :: significant ps := rfl
  rw [inside, pieces_inside_of_next h hnest, ofPieces, hsignificant, ofMarkup, hevent]
  rfl

theorem inside_of_instruction {raw : List Char}
    (h : Piece.next c rest = .ok (.instruction raw, after)) :
    inside opened (c :: rest) = inside opened after := by
  rw [inside, pieces_inside_of_next h rfl]
  rfl

end Pieces

section Written

variable {opened : List (List Char)}

/-- The event of a written text. No text is no event. -/
def ofWritten (text : String) : List Event :=
  if text = "" then [] else [.text text]

/-- A text is read back if nothing follows that would belong to it. -/
theorem inside_escape (text : String) {after : List Char}
    (hafter : after = [] ∨ ∃ rest, after = '<' :: rest) :
    inside opened (escape text.toList ++ after) =
      prepend (ofWritten text) (inside opened after) := by
  by_cases hempty : text = ""
  · rw [ofWritten, if_pos hempty, hempty]
    rfl
  · have hne : escape text.toList ≠ [] := fun h =>
      hempty (String.toList_eq_nil_iff.mp (escape_eq_nil_iff.mp h))
    obtain ⟨c, rest, hcons, hnext⟩ := next_text hne
      (fun d hd => (ne_of_not_isMarkup (isMarkup_of_mem_escape hd)).1) hafter
    have hevent : Event.ofMarkup (.text (escape text.toList)) = .ok (.text text) := by
      rw [Event.ofMarkup, unescape_escape, ok_map, String.ofList_toList]
      rfl
    rw [hcons, inside_of_markup hnext rfl hevent, ofWritten, if_neg hempty]
    rfl

theorem inside_openTag {tag : Tag} (h : tag.IsWritable) (after : List Char) :
    inside opened ('<' :: (tag.render ++ '>' :: after)) =
      push (.openTag tag) (inside (tag.name.toList :: opened) after) := by
  rw [← h.span_name.1]
  refine inside_of_markup (h.next_openTag after) rfl ?_
  rw [Event.ofMarkup, h.ofContent_render]
  rfl

theorem inside_emptyTag {tag : Tag} (h : tag.IsWritable) (after : List Char) :
    inside opened ('<' :: (tag.render ++ '/' :: '>' :: after)) =
      push (.emptyTag tag) (inside opened after) := by
  refine inside_of_markup (h.next_emptyTag after) rfl ?_
  rw [Event.ofMarkup, h.ofContent_render]
  rfl

theorem inside_closing {name : String} (h : isName name = true) (after : List Char) :
    inside (name.toList :: opened) (Item.closing name ++ after) =
      push .closeTag (inside opened after) := by
  have hclosing : Item.closing name ++ after = '<' :: '/' :: (name.toList ++ '>' :: after) := by
    simp [Item.closing]
  rw [hclosing]
  exact inside_of_markup (next_closing h after) (if_pos rfl) rfl

end Written

end Reading

namespace Item

/-- The line break before a line, and its indentation. -/
def lineBreak (depth : Nat) : String :=
  String.ofList ('\n' :: List.replicate (2 * depth) ' ')

/-- The events of a line. -/
def events : Item → List Event
  | .openTag tag => [.openTag tag]
  | .closeTag _ => [.closeTag]
  | .emptyTag tag => [.emptyTag tag]
  | .leaf tag text => .openTag tag :: (Reading.ofWritten text ++ [.closeTag])

/-- The events of lines, each after a line break. -/
def layoutEvents (depth : Nat) : List Item → List Event
  | [] => []
  | item :: rest =>
      .text (lineBreak (item.depths depth).1) ::
        (item.events ++ layoutEvents (item.depths depth).2 rest)

/-- Lines that can be written inside elements of the given names, innermost first,
and leave elements of the last names open. -/
inductive Nests : List String → List Item → List String → Prop
  | nil (opened : List String) : Nests opened [] opened
  | openTag {opened outer : List String} {tag : Tag} {items : List Item} (h : tag.IsWritable)
      (rest : Nests (tag.name :: opened) items outer) : Nests opened (.openTag tag :: items) outer
  | closeTag {opened outer : List String} {name : String} {items : List Item}
      (h : isName name = true) (rest : Nests opened items outer) :
      Nests (name :: opened) (.closeTag name :: items) outer
  | emptyTag {opened outer : List String} {tag : Tag} {items : List Item} (h : tag.IsWritable)
      (rest : Nests opened items outer) : Nests opened (.emptyTag tag :: items) outer
  | leaf {opened outer : List String} {tag : Tag} {text : String} {items : List Item}
      (h : tag.IsWritable) (rest : Nests opened items outer) :
      Nests opened (.leaf tag text :: items) outer

theorem Nests.append {a b c : List String} {xs ys : List Item} (hxs : Nests a xs b)
    (hys : Nests b ys c) : Nests a (xs ++ ys) c := by
  induction hxs with
  | nil => exact hys
  | openTag h _ ih => exact .openTag h (ih hys)
  | closeTag h _ ih => exact .closeTag h (ih hys)
  | emptyTag h _ ih => exact .emptyTag h (ih hys)
  | leaf h _ ih => exact .leaf h (ih hys)

section Reading

open Reading (inside prepend push)

theorem escape_lineBreak (depth : Nat) :
    escape (lineBreak depth).toList = '\n' :: List.replicate (2 * depth) ' ' := by
  have hspaces (n : Nat) : escape (List.replicate n ' ') = List.replicate n ' ' := by
    induction n with
    | zero => rfl
    | succ n ih => rw [List.replicate_succ, escape_cons, ih]; rfl
  rw [lineBreak, String.toList_ofList, escape_cons, hspaces]
  rfl

theorem ofWritten_lineBreak (depth : Nat) :
    Reading.ofWritten (lineBreak depth) = [.text (lineBreak depth)] := by
  refine if_neg fun h => ?_
  have hlist := congrArg String.toList h
  rw [lineBreak, String.toList_ofList] at hlist
  cases hlist

theorem layout_cons (depth : Nat) (item : Item) (rest : List Item) :
    layout depth (item :: rest) = escape (lineBreak (item.depths depth).1).toList ++
      (item.render ++ layout (item.depths depth).2 rest) := by
  rw [escape_lineBreak]
  rfl

theorem exists_render_eq_cons (item : Item) : ∃ rest, item.render = '<' :: rest := by
  cases item <;> exact ⟨_, rfl⟩

/-- A line break is read before every line. -/
theorem inside_layout_cons (opened : List (List Char)) (depth : Nat) (item : Item)
    (rest : List Item) (after : List Char) :
    inside opened (layout depth (item :: rest) ++ after) =
      push (.text (lineBreak (item.depths depth).1))
        (inside opened (item.render ++ (layout (item.depths depth).2 rest ++ after))) := by
  obtain ⟨tail, htail⟩ := exists_render_eq_cons item
  rw [layout_cons, List.append_assoc, List.append_assoc, Reading.inside_escape,
    ofWritten_lineBreak]
  · rfl
  · exact .inr ⟨_, by rw [htail, List.cons_append]⟩

/-- Lines whose tags match are read back. The induction is on how they nest. -/
theorem Nests.inside_layout {opened outer : List String} {items : List Item}
    (h : Nests opened items outer) (depth : Nat) (after : List Char) :
    inside (opened.map String.toList) (layout depth items ++ after) =
      prepend (layoutEvents depth items) (inside (outer.map String.toList) after) := by
  induction h generalizing depth with
  | nil => rfl
  | openTag h _ ih =>
      rw [inside_layout_cons, render, List.cons_append, List.append_assoc, List.singleton_append,
        Reading.inside_openTag h]
      exact congrArg (fun r => push _ (push _ r)) (ih _)
  | closeTag h _ ih =>
      rw [inside_layout_cons, render, List.map_cons, Reading.inside_closing h]
      exact congrArg (fun r => push _ (push _ r)) (ih _)
  | emptyTag h _ ih =>
      rw [inside_layout_cons, render, List.cons_append, List.append_assoc, List.cons_append,
        List.singleton_append, Reading.inside_emptyTag h]
      exact congrArg (fun r => push _ (push _ r)) (ih _)
  | @leaf _ _ tag text items h _ ih =>
      rw [inside_layout_cons, render, List.cons_append, List.append_assoc, List.cons_append,
        Reading.inside_openTag h, List.append_assoc, Reading.inside_escape text,
        Reading.inside_closing h.name, ih]
      · simp [layoutEvents, events, Reading.prepend, Reading.push]
      · exact .inr ⟨_, rfl⟩

end Reading

end Item

section Document

theorem inside_declaration (opened : List (List Char)) (after : List Char) :
    Reading.inside opened (declaration ++ after) = Reading.inside opened after := by
  have hnext : Piece.next '<' ("?xml version=\"1.0\" encoding=\"UTF-8\"?>".toList ++ after) =
      .ok (.instruction "xml version=\"1.0\" encoding=\"UTF-8\"".toList, after) :=
    rfl
  exact Reading.inside_of_instruction hnext

/-- The events of a written document. -/
theorem ofText_document {items : List Item} (h : Item.Nests [] items []) :
    Reading.ofText (document items).toList =
      ⟨Item.layoutEvents 0 items ++ [.text "\n"], .endOfInput⟩ := by
  have hbreak : Reading.inside [] ['\n'] = ⟨[.text "\n"], .endOfInput⟩ :=
    (Reading.inside_escape "\n" (.inl rfl)).trans (by rw [Reading.inside, Pieces.inside]; rfl)
  have htext : Reading.ofText (declaration ++ (Item.layout 0 items ++ ['\n'])) =
      Reading.inside [] (declaration ++ (Item.layout 0 items ++ ['\n'])) :=
    rfl
  rw [document, String.toList_ofList, htext, inside_declaration]
  exact (h.inside_layout 0 ['\n']).trans (by rw [List.map_nil, hbreak]; rfl)

end Document

end CpkProvenance.Xml
