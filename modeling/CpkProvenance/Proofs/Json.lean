import CpkProvenance.Json
import Mathlib.Data.List.Basic

/-!
# JSON text can be read in one way only

Values with the same text are the same value. Nothing is parsed to see this: the text of a
value shows where it ends, whatever follows it. A quoted text ends at the first quote that
is not part of an escape, and a list or an object ends where a line starts with its bracket
after an item that is not followed by a comma. So no content of a text can be taken for a
piece of the structure around it.
-/

namespace CpkProvenance

section Delimited

variable {α : Type}

/-- The written form of a value shows which value it is and where it ends, whatever
follows. -/
def Delimits (write : α → List Char) (x : α) : Prop :=
  ∀ y s t, write x ++ s = write y ++ t → x = y ∧ s = t

variable {write : α → List Char} {x : α}

theorem Delimits.append_left (h : Delimits write x) (start : List Char) :
    Delimits (fun y => start ++ write y) x := by
  intro y s t heq
  rw [List.append_assoc, List.append_assoc] at heq
  exact h y s t (List.append_cancel_left heq)

/-- Pieces that follow one another end at the first mark, if no piece begins with it. -/
theorem Delimits.flatMap_inj {mark : Char} (hmark : ∀ x, ∃ c rest, write x = c :: rest ∧ c ≠ mark)
    {xs ys : List α} {s t : List Char} (hxs : ∀ x ∈ xs, Delimits write x)
    (h : xs.flatMap write ++ mark :: s = ys.flatMap write ++ mark :: t) : xs = ys ∧ s = t := by
  induction xs generalizing ys with
  | nil =>
      cases ys with
      | nil => exact ⟨rfl, (List.cons.inj h).2⟩
      | cons y ys =>
          obtain ⟨c, rest, hy, hc⟩ := hmark y
          rw [List.flatMap_cons, hy] at h
          exact absurd (List.cons.inj h).1.symm hc
  | cons x xs ih =>
      rw [List.forall_mem_cons] at hxs
      cases ys with
      | nil =>
          obtain ⟨c, rest, hx, hc⟩ := hmark x
          rw [List.flatMap_cons, hx] at h
          exact absurd (List.cons.inj h).1 hc
      | cons y ys =>
          rw [List.flatMap_cons, List.flatMap_cons, List.append_assoc, List.append_assoc] at h
          have hfirst := hxs.1 y _ _ h
          have hrest := ih hxs.2 hfirst.2
          rw [hfirst.1, hrest.1]
          exact ⟨rfl, hrest.2⟩

end Delimited

namespace Json

/-- To prove something of all values, prove it of texts, of lists from their items, and of
objects from the values of their members. -/
@[elab_as_elim]
theorem inductionOn {motive : Json → Prop} (value : Json)
    (text : ∀ content, motive (.text content))
    (list : ∀ items, (∀ item ∈ items, motive item) → motive (.list items))
    (object : ∀ members, (∀ member ∈ members, motive member.2) → motive (.object members)) :
    motive value := by
  refine @Json.rec motive (fun items => ∀ item ∈ items, motive item)
    (fun members => ∀ member ∈ members, motive member.2) (fun member => motive member.2)
    text list object ?_ ?_ ?_ ?_ ?_ value
  · simp
  · intro item items hitem hitems
    exact List.forall_mem_cons.mpr ⟨hitem, hitems⟩
  · simp
  · intro member members hmember hmembers
    exact List.forall_mem_cons.mpr ⟨hmember, hmembers⟩
  · intro key value hvalue
    exact hvalue

section Texts

/-- The characters that stand for something else between quotes. -/
def escaped : List Char :=
  '\x22' :: '\\' :: (List.range 32).map Char.ofNat

theorem escape_of_not_mem {c : Char} (h : c ∉ escaped) :
    escape c = [c] ∧ c ≠ '\\' ∧ c ≠ '\x22' := by
  have hlow : ¬ c.toNat < 32 := by
    intro hc
    apply h
    have hmem : Char.ofNat c.toNat ∈ (List.range 32).map Char.ofNat :=
      List.mem_map_of_mem (List.mem_range.mpr hc)
    rw [Char.ofNat_toNat] at hmem
    exact List.mem_cons_of_mem _ (List.mem_cons_of_mem _ hmem)
  have hquote : c ≠ '\x22' := by
    rintro rfl
    exact h (by simp [escaped])
  have hslash : c ≠ '\\' := by
    rintro rfl
    exact h (by simp [escaped])
  refine ⟨?_, hslash, hquote⟩
  unfold escape
  split <;> simp_all

/-- A table of the escapes: each begins with a backslash, and none begins another. -/
theorem escape_table :
    (escaped.all fun c => (escape c).head? == some '\\') = true ∧
      (escaped.all fun c => escaped.all fun d =>
        !(escape c).isPrefixOf (escape d) || c == d) = true := by
  decide +kernel

theorem escape_of_mem {c : Char} (h : c ∈ escaped) : ∃ code, escape c = '\\' :: code := by
  have hhead := List.all_eq_true.mp escape_table.1 c h
  exact List.head?_eq_some_iff.mp (eq_of_beq hhead)

theorem eq_of_prefix_escape {c d : Char} (hc : c ∈ escaped) (hd : d ∈ escaped)
    (h : escape c <+: escape d) : c = d := by
  have hrow := List.all_eq_true.mp escape_table.2 c hc
  have hentry := List.all_eq_true.mp hrow d hd
  simpa [List.isPrefixOf_iff_prefix.mpr h] using hentry

theorem delimits_escape (c : Char) : Delimits escape c := by
  intro d s t h
  have heq : c = d := by
    by_cases hc : c ∈ escaped
    · obtain ⟨code, hcode⟩ := escape_of_mem hc
      by_cases hd : d ∈ escaped
      · -- Of two beginnings of one text, the shorter one begins the longer one.
        have hprefix := List.prefix_or_prefix_of_prefix (List.prefix_append (escape c) s)
          (h ▸ List.prefix_append (escape d) t)
        rcases hprefix with hprefix | hprefix
        · exact eq_of_prefix_escape hc hd hprefix
        · exact (eq_of_prefix_escape hd hc hprefix).symm
      · obtain ⟨hplain, hslash, _⟩ := escape_of_not_mem hd
        rw [hcode, hplain] at h
        exact absurd (List.cons.inj h).1.symm hslash
    · obtain ⟨hplain, hslash, _⟩ := escape_of_not_mem hc
      by_cases hd : d ∈ escaped
      · obtain ⟨code, hcode⟩ := escape_of_mem hd
        rw [hcode, hplain] at h
        exact absurd (List.cons.inj h).1 hslash
      · obtain ⟨hplain', _, _⟩ := escape_of_not_mem hd
        rw [hplain, hplain'] at h
        exact (List.cons.inj h).1
  subst heq
  exact ⟨rfl, List.append_cancel_left h⟩

/-- No written character begins with a quote. -/
theorem exists_escape_eq_cons (c : Char) : ∃ a rest, escape c = a :: rest ∧ a ≠ '\x22' := by
  by_cases hc : c ∈ escaped
  · obtain ⟨code, hcode⟩ := escape_of_mem hc
    exact ⟨'\\', code, hcode, by decide⟩
  · obtain ⟨hplain, _, hquote⟩ := escape_of_not_mem hc
    exact ⟨c, [], hplain, hquote⟩

theorem delimits_quote (content : String) : Delimits quote content := by
  intro other s t h
  simp only [quote, List.cons_append, List.append_assoc, List.nil_append] at h
  have hinj := Delimits.flatMap_inj exists_escape_eq_cons (fun c _ => delimits_escape c)
    (List.cons.inj h).2
  exact ⟨String.toList_inj.mp hinj.1, hinj.2⟩

end Texts

section Blocks

variable {α : Type} {left right : Char} {level : Nat} {write : α → List Char}

/-- Items between brackets, each on a line of its own. Lists and objects are laid out so. -/
def block (left right : Char) (level : Nat) (write : α → List Char) : List α → List Char
  | [] => [left, right]
  | item :: rest =>
      left :: (newLine (level + 1) ++ write item ++
        rest.flatMap (fun further => [','] ++ newLine (level + 1) ++ write further) ++
        newLine level ++ [right])

theorem exists_block_eq_cons (items : List α) :
    ∃ rest, block left right level write items = left :: rest := by
  cases items with
  | nil => exact ⟨_, rfl⟩
  | cons item items => exact ⟨_, rfl⟩

theorem delimits_block (hright : right ≠ '\n') {items : List α}
    (hitems : ∀ item ∈ items, Delimits write item) :
    Delimits (block left right level write) items := by
  intro others s t h
  cases items with
  | nil =>
      cases others with
      | nil => exact ⟨rfl, by simpa [block] using h⟩
      | cons other others => simp [block, newLine, hright] at h
  | cons item items =>
      cases others with
      | nil => simp [block, newLine, hright.symm] at h
      | cons other others =>
          rw [List.forall_mem_cons] at hitems
          simp only [block, List.cons_append, List.append_assoc, List.cons.injEq, true_and,
            List.append_cancel_left_eq] at h
          have hfirst := hitems.1 other _ _ h
          have hfurther : ∀ further ∈ items,
              Delimits (fun y => [','] ++ newLine (level + 1) ++ write y) further :=
            fun further hmem => (hitems.2 further hmem).append_left _
          have hcomma : ∀ y : α, ∃ c rest,
              [','] ++ newLine (level + 1) ++ write y = c :: rest ∧ c ≠ '\n' :=
            fun y => ⟨',', _, rfl, by decide⟩
          have hlines := Delimits.flatMap_inj hcomma hfurther hfirst.2
          refine ⟨by rw [hfirst.1, hlines.1], ?_⟩
          simpa using hlines.2

end Blocks

section Values

variable {level : Nat}

theorem layout_text (content : String) : layout level (.text content) = quote content := by
  rw [layout]

theorem layoutItems_eq_flatMap (items : List Json) :
    layoutItems level items =
      items.flatMap fun item => [','] ++ newLine level ++ layout level item := by
  induction items with
  | nil => rw [layoutItems, List.flatMap_nil]
  | cons item items ih => simp [layoutItems, ih]

theorem layoutMembers_eq_flatMap (members : List (String × Json)) :
    layoutMembers level members =
      members.flatMap fun member => [','] ++ newLine level ++ layoutMember level member := by
  induction members with
  | nil => rw [layoutMembers, List.flatMap_nil]
  | cons member members ih => simp [layoutMembers, ih]

theorem layout_list (items : List Json) :
    layout level (.list items) = block '[' ']' level (layout (level + 1)) items := by
  cases items with
  | nil => rw [layout, block]
  | cons item items => rw [layout, block, layoutItems_eq_flatMap]

theorem layout_object (members : List (String × Json)) :
    layout level (.object members) =
      block '\x7b' '\x7d' level (layoutMember (level + 1)) members := by
  cases members with
  | nil => rw [layout, block]
  | cons member members => rw [layout, block, layoutMembers_eq_flatMap]

theorem delimits_layoutMember {key : String} {value : Json} (h : Delimits (layout level) value) :
    Delimits (layoutMember level) (key, value) := by
  intro other s t heq
  obtain ⟨key', value'⟩ := other
  rw [layoutMember, layoutMember, List.append_assoc, List.append_assoc, List.append_assoc,
    List.append_assoc] at heq
  have hkey := delimits_quote key key' _ _ heq
  have hvalue := h value' s t (List.append_cancel_left hkey.2)
  exact ⟨Prod.ext hkey.1 hvalue.1, hvalue.2⟩

/-- The character with which the text of a value begins. -/
def opening : Json → Char
  | .text _ => '\x22'
  | .list _ => '['
  | .object _ => '\x7b'

theorem exists_layout_eq_cons (level : Nat) (value : Json) :
    ∃ rest, layout level value = opening value :: rest := by
  cases value with
  | text content => exact ⟨_, layout_text content⟩
  | list items =>
      rw [layout_list]
      exact exists_block_eq_cons items
  | object members =>
      rw [layout_object]
      exact exists_block_eq_cons members

theorem opening_eq_of_layout_append {value other : Json} {s t : List Char}
    (h : layout level value ++ s = layout level other ++ t) : opening value = opening other := by
  obtain ⟨rest, hrest⟩ := exists_layout_eq_cons level value
  obtain ⟨rest', hrest'⟩ := exists_layout_eq_cons level other
  rw [hrest, hrest'] at h
  exact (List.cons.inj h).1

/-- The text of a value shows where it ends. -/
theorem delimits_layout (value : Json) : Delimits (layout level) value := by
  induction value using inductionOn generalizing level with
  | text content =>
      intro other s t h
      have hopening := opening_eq_of_layout_append h
      cases other with
      | text content' =>
          rw [layout_text, layout_text] at h
          have hquote := delimits_quote content content' s t h
          exact ⟨congrArg text hquote.1, hquote.2⟩
      | list items => cases hopening
      | object members => cases hopening
  | list items ih =>
      intro other s t h
      have hopening := opening_eq_of_layout_append h
      cases other with
      | list items' =>
          rw [layout_list, layout_list] at h
          have hblock := delimits_block (by decide) (fun item hitem => ih item hitem) items' s t h
          exact ⟨congrArg list hblock.1, hblock.2⟩
      | text content => cases hopening
      | object members => cases hopening
  | object members ih =>
      intro other s t h
      have hopening := opening_eq_of_layout_append h
      cases other with
      | object members' =>
          rw [layout_object, layout_object] at h
          have hmembers : ∀ member ∈ members, Delimits (layoutMember (level + 1)) member :=
            fun member hmember => delimits_layoutMember (ih member hmember)
          have hblock := delimits_block (by decide) hmembers members' s t h
          exact ⟨congrArg object hblock.1, hblock.2⟩
      | text content => cases hopening
      | list items => cases hopening

theorem render_inj {value other : Json} : render value = render other ↔ value = other := by
  constructor
  · intro h
    have htext : layout 0 value ++ [] = layout 0 other ++ [] := by
      rw [List.append_nil, List.append_nil]
      exact String.ofList_injective h
    exact (delimits_layout value other [] [] htext).1
  · intro h
    rw [h]

end Values

end Json

end CpkProvenance
