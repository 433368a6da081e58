import Calculator.Proofs.Scanning

/-!
# Calculator.Proofs.Trimming

White space at the ends of texts, and texts without it.
-/

namespace Calculator

/-- Texts without white space at their ends. -/
def Edged (text : List Char) : Prop :=
  (∀ c ∈ text.head?, isBlank c = false) ∧ ∀ c ∈ text.getLast?, isBlank c = false

theorem edged_of_filled {text : List Char} (h : ∀ c ∈ text, isBlank c = false) : Edged text :=
  ⟨fun c hc => h c (List.mem_of_mem_head? hc), fun c hc => h c (List.mem_of_getLast? hc)⟩

theorem trimLeft_head (text : List Char) : ∀ c ∈ (trimLeft text).head?, isBlank c = false := by
  induction text with
  | nil => exact nofun
  | cons first rest ih =>
    intro c hc
    rw [trimLeft, List.dropWhile_cons] at hc
    split at hc
    · exact ih c hc
    · rename_i filled
      cases hc
      simpa using filled

theorem trimLeft_of_head {text : List Char} (h : ∀ c ∈ text.head?, isBlank c = false) :
    trimLeft text = text := by
  cases text with
  | nil => rfl
  | cons first rest => exact List.dropWhile_cons_of_neg (by simp [h first rfl])

theorem trimLeft_split (text : List Char) : ∃ gap, Blank gap ∧ text = gap ++ trimLeft text :=
  ⟨text.takeWhile isBlank, List.all_eq_true.mp List.all_takeWhile,
    (List.takeWhile_append_dropWhile).symm⟩

theorem trimRight_split (text : List Char) : ∃ gap, Blank gap ∧ text = trimRight text ++ gap := by
  obtain ⟨gap, blank, same⟩ := trimLeft_split text.reverse
  refine ⟨gap.reverse, fun c hc => blank c (List.mem_reverse.mp hc), ?_⟩
  have turned := congrArg List.reverse same
  rw [List.reverse_reverse, List.reverse_append] at turned
  exact turned

theorem mem_trimLeft {text : List Char} {c : Char} (h : c ∈ trimLeft text) : c ∈ text := by
  obtain ⟨gap, -, same⟩ := trimLeft_split text
  rw [same]
  exact List.mem_append_right _ h

/-- A text is what is left of it when it is trimmed, between white space. -/
theorem trim_split (text : List Char) :
    ∃ before after, Blank before ∧ Blank after ∧ text = before ++ (trim text ++ after) := by
  obtain ⟨before, blank, same⟩ := trimLeft_split text
  obtain ⟨after, blank', same'⟩ := trimRight_split (trimLeft text)
  refine ⟨before, after, blank, blank', ?_⟩
  rw [trim, ← same']
  exact same

theorem mem_trim {text : List Char} {c : Char} (h : c ∈ trim text) : c ∈ text := by
  obtain ⟨before, after, -, -, same⟩ := trim_split text
  rw [same]
  exact List.mem_append_right _ (List.mem_append_left _ h)

theorem trim_edged (text : List Char) : Edged (trim text) := by
  constructor
  · intro c hc
    obtain ⟨gap, -, same⟩ := trimRight_split (trimLeft text)
    have first := trimLeft_head text c
    rw [same, List.head?_append] at first
    rw [trim] at hc
    rw [hc] at first
    exact first rfl
  · intro c hc
    rw [trim, trimRight, List.getLast?_reverse] at hc
    exact trimLeft_head _ c hc

theorem trimRight_blank {gap : List Char} (text : List Char) (h : Blank gap) :
    trimRight (text ++ gap) = trimRight text := by
  have turned : Blank gap.reverse := fun c hc => h c (List.mem_reverse.mp hc)
  have left := trimLeft_blank text.reverse turned
  rw [trimRight, List.reverse_append]
  exact congrArg List.reverse left

/-- White space at the right end of a text is that of its last part, which is not blank. -/
theorem trimRight_append {text : List Char} (before : List Char) (filled : ¬ Blank text) :
    trimRight (before ++ text) = before ++ trimRight text ∧ trimRight text ≠ [] := by
  have remains : trimRight text ≠ [] := by
    intro none
    obtain ⟨gap, blank, same⟩ := trimRight_split text
    rw [none, List.nil_append] at same
    exact filled (same ▸ blank)
  refine ⟨?_, remains⟩
  have some_left : (text.reverse.dropWhile isBlank).isEmpty = false := by
    simpa [trimRight] using remains
  rw [trimRight, List.reverse_append, List.dropWhile_append, some_left]
  simp [trimRight]

theorem trim_of_edged {text : List Char} (h : Edged text) : trim text = text := by
  have last : ∀ c ∈ text.reverse.head?, isBlank c = false := by
    rw [List.head?_reverse]
    exact h.2
  rw [trim, trimLeft_of_head h.1, trimRight]
  change (trimLeft text.reverse).reverse = text
  rw [trimLeft_of_head last, List.reverse_reverse]

/-- White space around a text does not matter once it is trimmed. -/
theorem trim_padded {before text after : List Char} (hb : Blank before) (ha : Blank after)
    (h : Edged text) : trim (before ++ (text ++ after)) = text := by
  rw [trim, trimLeft_blank _ hb]
  cases text with
  | nil =>
    have none : trimLeft (after ++ []) = [] := trimLeft_blank [] ha
    rw [List.append_nil] at none
    rw [List.nil_append, none]
    rfl
  | cons first rest =>
    have head : trimLeft (first :: rest ++ after) = first :: rest ++ after := trimLeft_of_head h.1
    rw [head, trimRight_blank _ ha]
    have whole := trim_of_edged h
    rw [trim, trimLeft_of_head h.1] at whole
    exact whole

theorem trim_space {text : List Char} (h : Edged text) : trim (' ' :: text) = text := by
  have padded := trim_padded (by decide : Blank [' ']) blank_nil h
  rw [List.append_nil] at padded
  exact padded

/-- What is left of a text without white space at its ends has none at its right end. -/
theorem trimLeft_edged {before text : List Char} (h : Edged (before ++ text)) :
    Edged (trimLeft text) := by
  refine ⟨trimLeft_head text, ?_⟩
  intro c hc
  obtain ⟨gap, -, same⟩ := trimLeft_split text
  apply h.2 c
  rw [same, List.getLast?_append, List.getLast?_append, hc]
  rfl

theorem edged_append {first last : List Char} (h : ∀ c ∈ first.head?, isBlank c = false)
    (edged : Edged last) (ne : first ≠ []) (filled : last ≠ []) : Edged (first ++ last) := by
  obtain ⟨c, rest, rfl⟩ := List.exists_cons_of_ne_nil ne
  refine ⟨h, ?_⟩
  intro d hd
  apply edged.2 d
  obtain ⟨e, same⟩ := Option.isSome_iff_exists.mp (List.getLast?_isSome.mpr filled)
  rw [List.getLast?_append, same] at hd
  rw [same]
  exact hd

end Calculator
