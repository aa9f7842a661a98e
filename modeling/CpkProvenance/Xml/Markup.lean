import CpkProvenance.Xml.Tag

/-!
# Markup

The pieces of an XML text: character data, literal character data, tags, and what
does not belong to the content (comments, processing instructions with the XML
declaration among them, document types). A text is cut into pieces up to its end,
or up to the first place where it is malformed or an end tag does not match the
start tag that it closes.
-/

namespace CpkProvenance.Xml

/-- Why a text is not cut into pieces, or its tags do not nest. -/
inductive MarkupFault
  | unknownMarkup
  | unclosedComment
  | unclosedData
  | unclosedDoctype
  | unnamedDoctype
  | unclosedInstruction
  | unclosedTag
  | mismatchedTag (expected found : String)
  | unmatchedTag (found : String)
  deriving DecidableEq, Repr

def MarkupFault.message : MarkupFault → String
  | .unknownMarkup => "syntax error: unknown or missed symbol in markup"
  | .unclosedComment =>
      "syntax error: comment not closed: `-->` not found before end of input"
  | .unclosedData => "syntax error: CDATA not closed: `]]>` not found before end of input"
  | .unclosedDoctype => "syntax error: DOCTYPE not closed: `>` not found before end of input"
  | .unnamedDoctype =>
      "ill-formed document: `<!DOCTYPE>` declaration does not contain a name of a document type"
  | .unclosedInstruction =>
      "syntax error: processing instruction or xml declaration not closed: `?>` not found before end of input"
  | .unclosedTag => "syntax error: tag not closed: `>` not found before end of input"
  | .mismatchedTag expected found =>
      s!"ill-formed document: expected `</{expected}>`, but `</{found}>` was found"
  | .unmatchedTag found =>
      s!"ill-formed document: close tag `</{found}>` does not match any open tag"

/-- A piece of the content of an XML text. Tags are given by what is in them. -/
inductive Markup
  | text (raw : List Char)
  | data (raw : List Char)
  | openTag (content : List Char)
  | emptyTag (content : List Char)
  | closeTag (name : List Char)
  deriving DecidableEq, Repr

inductive Piece
  | markup (m : Markup)
  | comment (raw : List Char)
  | instruction (raw : List Char)
  | doctype (raw : List Char)
  deriving DecidableEq, Repr

def splitAtFirst? (mark : List Char) : List Char → Option (List Char × List Char)
  | [] => none
  | c :: rest =>
      if mark.isPrefixOf (c :: rest) then some ([], (c :: rest).drop mark.length)
      else (splitAtFirst? mark rest).map fun (before, after) => (c :: before, after)

/-- The texts before and after the first `>` outside quotes. -/
def splitTag? (quote : Option Char) : List Char → Option (List Char × List Char)
  | [] => none
  | c :: rest =>
      if quote = none ∧ c = '>' then some ([], rest)
      else
        let quote :=
          match quote with
          | some q => if c = q then none else some q
          | none => if isQuote c then some c else none
        (splitTag? quote rest).map fun (before, after) => (c :: before, after)

/-- The texts before and after the `>` that closes `depth` brackets and one
more. -/
def splitDoctype? (depth : Nat) : List Char → Option (List Char × List Char)
  | [] => none
  | c :: rest =>
      if depth = 0 ∧ c = '>' then some ([], rest)
      else
        let depth := if c = '<' then depth + 1 else if c = '>' then depth - 1 else depth
        (splitDoctype? depth rest).map fun (before, after) => (c :: before, after)

theorem splitAtFirst?_length {mark input before after : List Char}
    (h : splitAtFirst? mark input = some (before, after)) : after.length ≤ input.length := by
  induction input generalizing before after with
  | nil => simp [splitAtFirst?] at h
  | cons c rest ih =>
      simp only [splitAtFirst?] at h
      split at h
      · obtain ⟨_, rfl⟩ := Prod.mk.inj (Option.some.inj h)
        simp only [List.length_drop]
        omega
      · obtain ⟨p, hp, he⟩ := Option.map_eq_some_iff.mp h
        obtain ⟨_, rfl⟩ := Prod.mk.inj he
        have := ih hp
        simp only [List.length_cons]
        omega

theorem splitTag?_length {quote : Option Char} {input before after : List Char}
    (h : splitTag? quote input = some (before, after)) : after.length ≤ input.length := by
  induction input generalizing quote before after with
  | nil => simp [splitTag?] at h
  | cons c rest ih =>
      simp only [splitTag?] at h
      split at h
      · obtain ⟨_, rfl⟩ := Prod.mk.inj (Option.some.inj h)
        simp
      · obtain ⟨p, hp, he⟩ := Option.map_eq_some_iff.mp h
        obtain ⟨_, rfl⟩ := Prod.mk.inj he
        have := ih hp
        simp only [List.length_cons]
        omega

theorem splitDoctype?_length {depth : Nat} {input before after : List Char}
    (h : splitDoctype? depth input = some (before, after)) : after.length ≤ input.length := by
  induction input generalizing depth before after with
  | nil => simp [splitDoctype?] at h
  | cons c rest ih =>
      simp only [splitDoctype?] at h
      split at h
      · obtain ⟨_, rfl⟩ := Prod.mk.inj (Option.some.inj h)
        simp
      · obtain ⟨p, hp, he⟩ := Option.map_eq_some_iff.mp h
        obtain ⟨_, rfl⟩ := Prod.mk.inj he
        have := ih hp
        simp only [List.length_cons]
        omega

/-- What remains of a text after a beginning, whose letters match in any case. -/
def afterStart? (start text : List Char) : Option (List Char) :=
  if (text.take start.length).map Char.toLower = start then some (text.drop start.length)
  else none

/-- The name in an end tag: its content without spaces at the end. Content of
nothing but spaces is kept. -/
def closingName (content : List Char) : List Char :=
  if content.all isSpace then content else (content.reverse.dropWhile isSpace).reverse

namespace Piece

/-- The piece that starts with `<!`, given what follows. -/
def declaration (body : List Char) : Except MarkupFault (Piece × List Char) :=
  match body with
  | '[' :: _ =>
      if "[CDATA[".toList.isPrefixOf body then
        match splitAtFirst? "]]>".toList (body.drop 7) with
        | some (raw, after) => .ok (.markup (.data raw), after)
        | none => .error .unclosedData
      else .error .unclosedData
  | '-' :: '-' :: inner =>
      match splitAtFirst? "-->".toList inner with
      | some (raw, after) => .ok (.comment raw, after)
      | none => .error .unclosedComment
  | '-' :: _ => .error .unclosedComment
  | c :: _ =>
      if c = 'D' ∨ c = 'd' then
        match splitDoctype? 0 body with
        | none => .error .unclosedDoctype
        | some (content, after) =>
            match afterStart? "doctype".toList content with
            | none => .error .unclosedDoctype
            | some name =>
                if name.all isSpace then .error .unnamedDoctype else .ok (.doctype name, after)
      else .error .unknownMarkup
  | [] => .error .unknownMarkup

/-- The piece that starts with `<` and is no declaration, given what follows. An
instruction is closed by a question mark other than the one that opens it, and
`<?>` is never closed. -/
def bracketed (rest : List Char) : Except MarkupFault (Piece × List Char) :=
  match rest with
  | '?' :: '>' :: _ => .error .unclosedInstruction
  | '?' :: body =>
      match splitAtFirst? "?>".toList body with
      | some (raw, after) => .ok (.instruction raw, after)
      | none => .error .unclosedInstruction
  | '/' :: body =>
      match splitTag? none body with
      | some (content, after) => .ok (.markup (.closeTag (closingName content)), after)
      | none => .error .unclosedTag
  | _ =>
      match splitTag? none rest with
      | some (content, after) =>
          if content.getLast? = some '/' then .ok (.markup (.emptyTag content.dropLast), after)
          else .ok (.markup (.openTag content), after)
      | none => .error .unclosedTag

/-- The piece at the front of the text `c :: rest`, and what follows it. -/
def next (c : Char) (rest : List Char) : Except MarkupFault (Piece × List Char) :=
  if c = '<' then
    match rest with
    | '!' :: body => declaration body
    | _ => bracketed rest
  else .ok (.markup (.text (c :: rest.takeWhile (· != '<'))), rest.dropWhile (· != '<'))

theorem declaration_length {body after : List Char} {piece : Piece}
    (h : declaration body = .ok (piece, after)) : after.length ≤ body.length := by
  unfold declaration at h
  split at h
  · split at h
    · split at h
      · next raw rest hs =>
          obtain ⟨_, rfl⟩ := Prod.mk.inj (Except.ok.inj h)
          have := splitAtFirst?_length hs
          simp only [List.length_drop] at this
          omega
      · simp at h
    · simp at h
  · split at h
    · next raw rest hs =>
        obtain ⟨_, rfl⟩ := Prod.mk.inj (Except.ok.inj h)
        have := splitAtFirst?_length hs
        simp only [List.length_cons]
        omega
    · simp at h
  · simp at h
  · split at h
    · split at h
      · simp at h
      · next content rest hs =>
          split at h
          · simp at h
          · split at h
            · simp at h
            · obtain ⟨_, rfl⟩ := Prod.mk.inj (Except.ok.inj h)
              exact splitDoctype?_length hs
    · simp at h
  · simp at h

theorem bracketed_length {rest after : List Char} {piece : Piece}
    (h : bracketed rest = .ok (piece, after)) : after.length ≤ rest.length := by
  unfold bracketed at h
  split at h
  · simp at h
  · split at h
    · next raw tail hs =>
        obtain ⟨_, rfl⟩ := Prod.mk.inj (Except.ok.inj h)
        have := splitAtFirst?_length hs
        simp only [List.length_cons]
        omega
    · simp at h
  · split at h
    · next content tail hs =>
        obtain ⟨_, rfl⟩ := Prod.mk.inj (Except.ok.inj h)
        have := splitTag?_length hs
        simp only [List.length_cons]
        omega
    · simp at h
  · split at h
    · next content tail hs =>
        split at h
        all_goals
          obtain ⟨_, rfl⟩ := Prod.mk.inj (Except.ok.inj h)
          exact splitTag?_length hs
    · simp at h

/-- A piece takes at least one character. -/
theorem next_length {c : Char} {rest after : List Char} {piece : Piece}
    (h : next c rest = .ok (piece, after)) : after.length ≤ rest.length := by
  unfold next at h
  split at h
  · split at h
    · have := declaration_length h
      simp only [List.length_cons]
      omega
    · exact bracketed_length h
  · obtain ⟨_, rfl⟩ := Prod.mk.inj (Except.ok.inj h)
    exact (List.dropWhile_sublist _).length_le

end Piece

/-- The names of the elements that are open after a piece of content, given those
before it, innermost first. -/
def Markup.nest (opened : List (List Char)) : Markup → Except MarkupFault (List (List Char))
  | .openTag content => .ok (tagName content :: opened)
  | .closeTag name =>
      match opened with
      | [] => .error (.unmatchedTag (String.ofList name))
      | expected :: outer =>
          if name = expected then .ok outer
          else .error (.mismatchedTag (String.ofList expected) (String.ofList name))
  | _ => .ok opened

def Piece.nest (opened : List (List Char)) : Piece → Except MarkupFault (List (List Char))
  | .markup m => m.nest opened
  | _ => .ok opened

/-- The pieces of a text, and the fault that they stop at unless they go to its end. -/
structure Pieces where
  toList : List Piece
  fault? : Option MarkupFault
  deriving DecidableEq, Repr

namespace Pieces

/-- Cuts the rest of a text inside the start tags of the given names, innermost
first. -/
def inside (opened : List (List Char)) : List Char → Pieces
  | [] => ⟨[], none⟩
  | c :: rest =>
      match _h : Piece.next c rest with
      | .error fault => ⟨[], some fault⟩
      | .ok (piece, after) =>
          match piece.nest opened with
          | .error fault => ⟨[], some fault⟩
          | .ok inner =>
              let others := inside inner after
              ⟨piece :: others.toList, others.fault?⟩
termination_by text => text.length
decreasing_by
  have := Piece.next_length _h
  simp only [List.length_cons]
  omega

/-- Cuts a whole text, without the byte order mark that it may start with. -/
def ofText (text : List Char) : Pieces :=
  match text with
  | '\ufeff' :: rest => inside [] rest
  | _ => inside [] text

end Pieces

end CpkProvenance.Xml
