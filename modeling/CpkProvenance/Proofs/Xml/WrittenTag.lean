import CpkProvenance.Proofs.Xml.Escape
import CpkProvenance.Xml.Layout
import CpkProvenance.Xml.Markup

/-!
# Written tags are read back

A tag whose name and keys are plain names can be written and read, whatever the
values of its attributes are: escaping keeps quotes out of a value, so the value
ends where it was written to end, and so does the tag.
-/

namespace CpkProvenance.Xml

/-- Whether a character may stand in a plain name. -/
def isNameChar (c : Char) : Bool :=
  !isSpace c && !isMarkup c && c != '=' && c != '/' && c != '!' && c != '?'

/-- Whether a text is a name that needs no escaping. -/
def isName (name : String) : Bool :=
  name.toList != [] && name.toList.all isNameChar

/-- The tags that can be written. -/
structure Tag.IsWritable (t : Tag) : Prop where
  name : isName t.name = true
  keys : ∀ a ∈ t.attributes, isName a.key = true
  distinct : (t.attributes.map (·.key)).Nodup

section Names

theorem isNameChar_of_mem {name : String} (h : isName name = true) {c : Char}
    (hc : c ∈ name.toList) : isNameChar c = true := by
  simp only [isName, Bool.and_eq_true, List.all_eq_true] at h
  exact h.2 c hc

theorem exists_cons_of_isName {name : String} (h : isName name = true) :
    ∃ c rest, name.toList = c :: rest ∧ isNameChar c = true := by
  cases hname : name.toList with
  | nil => simp [isName, hname] at h
  | cons c rest =>
      exact ⟨c, rest, rfl, isNameChar_of_mem h (by rw [hname]; exact List.mem_cons_self ..)⟩

variable {c : Char}

theorem isSpace_of_isNameChar (h : isNameChar c = true) : isSpace c = false := by
  simp only [isNameChar, Bool.and_eq_true, Bool.not_eq_true'] at h
  exact h.1.1.1.1.1

theorem isMarkup_of_isNameChar (h : isNameChar c = true) : isMarkup c = false := by
  simp only [isNameChar, Bool.and_eq_true, Bool.not_eq_true'] at h
  exact h.1.1.1.1.2

theorem inKey_of_isNameChar (h : isNameChar c = true) : inKey c = true := by
  simp only [isNameChar, Bool.and_eq_true, Bool.not_eq_true'] at h
  simp only [inKey, Bool.and_eq_true, Bool.not_eq_true']
  exact ⟨h.1.1.1.2, h.1.1.1.1.1⟩

theorem isQuote_of_not_isMarkup (h : isMarkup c = false) : isQuote c = false := by
  simp only [isMarkup, Bool.or_eq_false_iff] at h
  simp only [isQuote, Bool.or_eq_false_iff]
  exact ⟨h.2, h.1.2⟩

theorem ne_of_not_isMarkup (h : isMarkup c = false) : c ≠ '<' ∧ c ≠ '>' ∧ c ≠ '\x22' := by
  simp only [isMarkup, Bool.or_eq_false_iff, beq_eq_false_iff_ne] at h
  exact ⟨h.1.1.1, h.1.1.2, h.2⟩

end Names

section End

/-- A text in which no tag ends, whatever follows it. -/
def HasNoEnd (text : List Char) : Prop :=
  ∀ rest, splitTag? none (text ++ rest) =
    (splitTag? none rest).map fun p => (text ++ p.1, p.2)

theorem HasNoEnd.nil : HasNoEnd [] := by
  intro rest
  rw [List.nil_append]
  exact Option.map_id'.symm

theorem HasNoEnd.append {a b : List Char} (ha : HasNoEnd a) (hb : HasNoEnd b) :
    HasNoEnd (a ++ b) := by
  intro rest
  rw [List.append_assoc, ha, hb, Option.map_map]
  simp only [Function.comp_def, List.append_assoc]

theorem hasNoEnd_of_plain {text : List Char} (h : ∀ c ∈ text, isMarkup c = false) :
    HasNoEnd text := by
  induction text with
  | nil => exact .nil
  | cons c text ih =>
      obtain ⟨hc, htext⟩ := List.forall_mem_cons.mp h
      intro rest
      rw [List.cons_append, splitTag?, if_neg fun hend => (ne_of_not_isMarkup hc).2.1 hend.2,
        isQuote_of_not_isMarkup hc]
      simp only [Bool.false_eq_true, if_false]
      rw [ih htext, Option.map_map]
      rfl

/-- No tag ends inside quotes. -/
theorem hasNoEnd_of_quoted {text : List Char} (h : ∀ c ∈ text, isMarkup c = false) :
    HasNoEnd ('\x22' :: (text ++ ['\x22'])) := by
  have inside (rest : List Char) : splitTag? (some '\x22') (text ++ '\x22' :: rest) =
      (splitTag? none rest).map fun p => (text ++ '\x22' :: p.1, p.2) := by
    induction text with
    | nil => rfl
    | cons c text ih =>
        obtain ⟨hc, htext⟩ := List.forall_mem_cons.mp h
        rw [List.cons_append, splitTag?, if_neg fun hend => Option.some_ne_none _ hend.1]
        simp only [if_neg (ne_of_not_isMarkup hc).2.2]
        rw [ih htext, Option.map_map]
        rfl
  intro rest
  rw [List.cons_append, List.append_assoc, List.singleton_append, splitTag?,
    if_neg fun hend => absurd hend.2 (by decide)]
  simp only [show isQuote '\x22' = true from rfl, if_true]
  rw [inside, Option.map_map]
  simp [Function.comp_def]

theorem Attribute.hasNoEnd {a : Attribute} (h : isName a.key = true) : HasNoEnd a.render := by
  have hkey : ∀ c ∈ ' ' :: (a.key.toList ++ ['=']), isMarkup c = false := by
    intro c hc
    simp only [List.mem_cons, List.mem_append, List.not_mem_nil, or_false] at hc
    obtain rfl | hc | rfl := hc
    · rfl
    · exact isMarkup_of_isNameChar (isNameChar_of_mem h hc)
    · rfl
  have hrender : a.render = (' ' :: (a.key.toList ++ ['='])) ++
      ('\x22' :: (escape a.value.toList ++ ['\x22'])) := by
    simp [Attribute.render]
  rw [hrender]
  exact (hasNoEnd_of_plain hkey).append (hasNoEnd_of_quoted fun c => isMarkup_of_mem_escape)

theorem hasNoEnd_of_attributes {attributes : List Attribute}
    (h : ∀ a ∈ attributes, isName a.key = true) :
    HasNoEnd (attributes.flatMap Attribute.render) := by
  induction attributes with
  | nil => exact .nil
  | cons a attributes ih =>
      obtain ⟨ha, hattributes⟩ := List.forall_mem_cons.mp h
      rw [List.flatMap_cons]
      exact (Attribute.hasNoEnd ha).append (ih hattributes)

theorem Tag.IsWritable.hasNoEnd {t : Tag} (h : t.IsWritable) : HasNoEnd t.render :=
  (hasNoEnd_of_plain fun _ hc => isMarkup_of_isNameChar (isNameChar_of_mem h.name hc)).append
    (hasNoEnd_of_attributes h.keys)

end End

section Attributes

/-- One attribute is read, and then those after it. -/
theorem attributesFrom_step {tag : String} {total : Nat} {seen : List (String × List Char)}
    {input rest assigned body next value : List Char} {c quote close : Char}
    (hinput : input.dropWhile isSpace = c :: rest)
    (hequals : (rest.dropWhile inKey).dropWhile isSpace = '=' :: assigned)
    (hnew : seen.find? (·.1 == String.ofList (c :: rest.takeWhile inKey)) = none)
    (hquote : assigned.dropWhile isSpace = quote :: body) (hisQuote : isQuote quote = true)
    (hclose : body.dropWhile (· != quote) = close :: next)
    (hvalue : unescape (body.takeWhile (· != quote)) = .ok value) :
    attributesFrom tag total seen input =
      (attributesFrom tag total ((String.ofList (c :: rest.takeWhile inKey), c :: rest) :: seen)
        next).map (⟨String.ofList (c :: rest.takeWhile inKey), String.ofList value⟩ :: ·) := by
  rw [attributesFrom]
  split
  · next h => exact absurd (hinput.symm.trans h) (List.cons_ne_nil _ _)
  · next h =>
      obtain ⟨rfl, rfl⟩ := List.cons.inj (hinput.symm.trans h)
      split
      · next h =>
          obtain ⟨_, rfl⟩ := List.cons.inj (hequals.symm.trans h)
          simp only [hnew]
          split
          · next h => exact absurd (hquote.symm.trans h) (List.cons_ne_nil _ _)
          · next h =>
              obtain ⟨rfl, rfl⟩ := List.cons.inj (hquote.symm.trans h)
              rw [if_pos hisQuote]
              split
              · next h => exact absurd (hclose.symm.trans h) (List.cons_ne_nil _ _)
              · next h =>
                  obtain ⟨rfl, rfl⟩ := List.cons.inj (hclose.symm.trans h)
                  simp only [hvalue]
                  cases attributesFrom tag total _ next <;> rfl
      · next h => exact absurd hequals (h assigned)

/-- A written attribute is read if its key is new. -/
theorem attributesFrom_render (tag : String) (total : Nat) {seen : List (String × List Char)}
    {a : Attribute} (ha : isName a.key = true) (hnew : ∀ p ∈ seen, p.1 ≠ a.key)
    (next : List Char) :
    ∃ start, attributesFrom tag total seen (a.render ++ next) =
      (attributesFrom tag total ((a.key, start) :: seen) next).map (a :: ·) := by
  obtain ⟨c, rest, hkey, hc⟩ := exists_cons_of_isName ha
  have hrest : ∀ d ∈ rest, inKey d = true := fun d hd =>
    inKey_of_isNameChar (isNameChar_of_mem ha (by rw [hkey]; exact List.mem_cons_of_mem c hd))
  have hvalue : ∀ d ∈ escape a.value.toList, (d != '\x22') = true := fun d hd =>
    bne_iff_ne.mpr (ne_of_not_isMarkup (isMarkup_of_mem_escape hd)).2.2
  let tail := escape a.value.toList ++ '\x22' :: next
  let input := rest ++ '=' :: '\x22' :: tail
  have hread : String.ofList (c :: input.takeWhile inKey) = a.key := by
    rw [takeWhile_run hrest (by decide), ← hkey, String.ofList_toList]
  have hinput : (a.render ++ next).dropWhile isSpace = c :: input := by
    have hrender : a.render ++ next = ' ' :: c :: input := by
      simp [Attribute.render, hkey, tail, input]
    rw [hrender, List.dropWhile_cons_of_pos (by decide),
      List.dropWhile_cons_of_neg (by simp [isSpace_of_isNameChar hc])]
  have hequals : (input.dropWhile inKey).dropWhile isSpace = '=' :: '\x22' :: tail := by
    rw [dropWhile_run hrest (by decide), List.dropWhile_cons_of_neg (by decide)]
  have hfind : seen.find? (·.1 == String.ofList (c :: input.takeWhile inKey)) = none := by
    rw [hread, List.find?_eq_none]
    exact fun p hp => by simpa using hnew p hp
  have hclose : tail.dropWhile (· != '\x22') = '\x22' :: next := dropWhile_run hvalue (by decide)
  have hunescape : unescape (tail.takeWhile (· != '\x22')) = .ok a.value.toList := by
    rw [takeWhile_run hvalue (by decide), unescape_escape]
  refine ⟨c :: input, (attributesFrom_step hinput hequals hfind rfl rfl hclose hunescape).trans ?_⟩
  rw [hread, String.ofList_toList]

/-- Written attributes with new and distinct keys are read. -/
theorem attributesFrom_flatMap_render {tag : String} {total : Nat}
    {seen : List (String × List Char)} {attributes : List Attribute}
    (hkeys : ∀ a ∈ attributes, isName a.key = true) (hdistinct : (attributes.map (·.key)).Nodup)
    (hnew : ∀ a ∈ attributes, ∀ p ∈ seen, p.1 ≠ a.key) :
    attributesFrom tag total seen (attributes.flatMap Attribute.render) = .ok attributes := by
  induction attributes generalizing seen with
  | nil =>
      rw [List.flatMap_nil, attributesFrom]
      rfl
  | cons a attributes ih =>
      obtain ⟨hkey, hkeys⟩ := List.forall_mem_cons.mp hkeys
      obtain ⟨hfirst, hdistinct⟩ := List.nodup_cons.mp hdistinct
      obtain ⟨hnewKey, hnew⟩ := List.forall_mem_cons.mp hnew
      obtain ⟨start, hstep⟩ := attributesFrom_render tag total hkey hnewKey
        (attributes.flatMap Attribute.render)
      rw [List.flatMap_cons, hstep, ih hkeys hdistinct]
      · rfl
      · intro b hb p hp
        obtain rfl | hp := List.mem_cons.mp hp
        · exact fun heq => hfirst (List.mem_map.mpr ⟨b, hb, heq.symm⟩)
        · exact hnew b hb p hp

end Attributes

section Tags

variable {t : Tag}

/-- What follows the name of a written tag does not continue it. -/
theorem Tag.IsWritable.span_name (h : t.IsWritable) :
    tagName t.render = t.name.toList ∧
      t.render.dropWhile (!isSpace ·) = t.attributes.flatMap Attribute.render := by
  have hname : ∀ c ∈ t.name.toList, (!isSpace c) = true := fun c hc => by
    simp [isSpace_of_isNameChar (isNameChar_of_mem h.name hc)]
  unfold tagName Tag.render
  cases t.attributes with
  | nil =>
      rw [List.flatMap_nil, List.takeWhile_append_of_pos hname, List.dropWhile_append_of_pos hname]
      exact ⟨List.append_nil _, rfl⟩
  | cons a attributes =>
      exact ⟨takeWhile_run hname (by decide), dropWhile_run hname (by decide)⟩

theorem Tag.IsWritable.ofContent_render (h : t.IsWritable) : Tag.ofContent t.render = .ok t := by
  unfold Tag.ofContent
  rw [h.span_name.1, h.span_name.2, String.ofList_toList]
  exact bind_eq_ok_iff.mpr
    ⟨t.attributes, attributesFrom_flatMap_render h.keys h.distinct (by simp), rfl⟩

/-- The first character of a written tag is one of its name. -/
theorem Tag.IsWritable.exists_cons (h : t.IsWritable) :
    ∃ c rest, t.render = c :: rest ∧ isNameChar c = true := by
  obtain ⟨c, rest, hname, hc⟩ := exists_cons_of_isName h.name
  exact ⟨c, rest ++ t.attributes.flatMap Attribute.render, by rw [Tag.render, hname]; rfl, hc⟩

/-- The last character of a written tag is one of its name or a quote. -/
theorem Tag.IsWritable.getLast?_ne (h : t.IsWritable) : t.render.getLast? ≠ some '/' := by
  rcases List.eq_nil_or_concat t.attributes with hnil | ⟨front, a, hconcat⟩
  · rw [Tag.render, hnil, List.flatMap_nil, List.append_nil]
    intro hlast
    exact absurd (isNameChar_of_mem h.name (List.mem_of_getLast? hlast)) (by decide)
  · have hrender : a.render = (' ' :: (a.key.toList ++ '=' :: '\x22' :: escape a.value.toList)) ++
        ['\x22'] := by
      simp [Attribute.render]
    rw [Tag.render, hconcat, List.concat_eq_append, List.flatMap_append, List.flatMap_singleton, hrender,
      ← List.append_assoc, ← List.append_assoc, List.getLast?_concat]
    decide

theorem next_of_isNameChar {c : Char} {rest content after : List Char}
    (hc : isNameChar c = true) (hsplit : splitTag? none (c :: rest) = some (content, after)) :
    Piece.next '<' (c :: rest) =
      if content.getLast? = some '/' then .ok (.markup (.emptyTag content.dropLast), after)
      else .ok (.markup (.openTag content), after) := by
  have hne : c ≠ '!' ∧ c ≠ '?' ∧ c ≠ '/' := by
    refine ⟨?_, ?_, ?_⟩ <;> (rintro rfl; exact absurd hc (by decide))
  have hbracketed : Piece.next '<' (c :: rest) = Piece.bracketed (c :: rest) := by
    unfold Piece.next
    rw [if_pos rfl]
    split
    · next h => exact absurd (List.cons.inj h).1 hne.1
    · rfl
  rw [hbracketed]
  unfold Piece.bracketed
  split
  · next h => exact absurd (List.cons.inj h).1 hne.2.1
  · next h => exact absurd (List.cons.inj h).1 hne.2.1
  · next h => exact absurd (List.cons.inj h).1 hne.2.2
  · rw [hsplit]

theorem Tag.IsWritable.next_openTag (h : t.IsWritable) (after : List Char) :
    Piece.next '<' (t.render ++ '>' :: after) = .ok (.markup (.openTag t.render), after) := by
  obtain ⟨c, rest, hcons, hc⟩ := h.exists_cons
  have hsplit : splitTag? none (t.render ++ '>' :: after) = some (t.render, after) := by
    rw [h.hasNoEnd]
    simp [splitTag?]
  rw [hcons, List.cons_append] at hsplit ⊢
  rw [next_of_isNameChar hc hsplit, ← hcons, if_neg h.getLast?_ne]

theorem Tag.IsWritable.next_emptyTag (h : t.IsWritable) (after : List Char) :
    Piece.next '<' (t.render ++ '/' :: '>' :: after) =
      .ok (.markup (.emptyTag t.render), after) := by
  obtain ⟨c, rest, hcons, hc⟩ := h.exists_cons
  have hsplit : splitTag? none (t.render ++ '/' :: '>' :: after) =
      some (t.render ++ ['/'], after) := by
    rw [h.hasNoEnd]
    rfl
  rw [hcons, List.cons_append] at hsplit ⊢
  rw [next_of_isNameChar hc hsplit, ← hcons, if_pos List.getLast?_concat, List.dropLast_concat]

theorem closingName_of_isName {name : String} (h : isName name = true) :
    closingName name.toList = name.toList := by
  have hspace : ∀ c ∈ name.toList, isSpace c = false := fun c hc =>
    isSpace_of_isNameChar (isNameChar_of_mem h hc)
  obtain ⟨c, rest, hcons, hc⟩ := exists_cons_of_isName h
  have hall : ¬ name.toList.all isSpace = true := by
    rw [hcons, List.all_cons, isSpace_of_isNameChar hc]
    simp
  rw [closingName, if_neg hall]
  cases hreverse : name.toList.reverse with
  | nil => exact absurd (List.reverse_eq_nil_iff.mp hreverse) (by rw [hcons]; simp)
  | cons d front =>
      have hd : d ∈ name.toList := List.mem_reverse.mp (by rw [hreverse]; exact List.mem_cons_self ..)
      rw [List.dropWhile_cons_of_neg (by simp [hspace d hd]), ← hreverse, List.reverse_reverse]

theorem next_closing {name : String} (h : isName name = true) (after : List Char) :
    Piece.next '<' ('/' :: (name.toList ++ '>' :: after)) =
      .ok (.markup (.closeTag name.toList), after) := by
  have hsplit : splitTag? none (name.toList ++ '>' :: after) = some (name.toList, after) := by
    rw [hasNoEnd_of_plain fun c hc => isMarkup_of_isNameChar (isNameChar_of_mem h hc)]
    simp [splitTag?]
  change Piece.bracketed ('/' :: (name.toList ++ '>' :: after)) = _
  unfold Piece.bracketed
  split
  · next h => exact absurd (List.cons.inj h).1 (by decide)
  · next h => exact absurd (List.cons.inj h).1 (by decide)
  · next hrest =>
      obtain rfl := (List.cons.inj hrest).2
      simp only [hsplit, closingName_of_isName h]
  · next hother => exact absurd rfl (hother _)

/-- Text ends where the next tag begins. -/
theorem next_text {text : List Char} (hne : text ≠ []) (h : ∀ c ∈ text, c ≠ '<')
    {after : List Char} (hafter : after = [] ∨ ∃ rest, after = '<' :: rest) :
    ∃ c rest, text ++ after = c :: rest ∧
      Piece.next c rest = .ok (.markup (.text text), after) := by
  cases text with
  | nil => exact absurd rfl hne
  | cons c text =>
      obtain ⟨hc, htext⟩ := List.forall_mem_cons.mp h
      have hrun : ∀ d ∈ text, (d != '<') = true := fun d hd => bne_iff_ne.mpr (htext d hd)
      refine ⟨c, text ++ after, rfl, ?_⟩
      unfold Piece.next
      rw [if_neg hc]
      obtain rfl | ⟨rest, rfl⟩ := hafter
      · rw [List.takeWhile_append_of_pos hrun, List.dropWhile_append_of_pos hrun]
        simp
      · rw [takeWhile_run hrun (by decide), dropWhile_run hrun (by decide)]

end Tags

end CpkProvenance.Xml
