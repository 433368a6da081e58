import Calculator.Definition
import Calculator.Proofs.Families
import Calculator.Proofs.Trees
import Calculator.Proofs.Trimming

/-!
# Calculator.Proofs.Definitions

Reading definitions, and that the line of a function which was read is read as that function.

* `parse_eq_ok`: what is read of a definition, part by part.
* `UserFunction.Storable`: what the parts of a function look like that was read from one line.
* `parse_stated`, `parse_definitionLine`: every function that is read has the form of a definition, and
  the line of such a function is read as its parts.
* `parse_rewritten`: so the line of the function that a definition defines is read as that definition.
* `parse_variableName`, `parse_variableLine`: the same for variables.
-/

namespace Calculator

/-! ## The characters of names -/

/-- The names that definitions can give: valid ones without brackets. -/
structure Label (role : Role) (text : List Char) : Prop where
  valid : nameProblem? role text = none
  symbols : ∀ c ∈ text, isNameSymbol c = true

theorem label_of_plain {role : Role} {text : List Char} (valid : nameProblem? role text = none)
    (plain : ∀ c ∈ text, c ≠ '(' ∧ c ≠ ')') : Label role text :=
  ⟨valid, Name.symbols_of_plain ⟨text, valid⟩ plain⟩

theorem label_of_role {role : Role} {text : List Char} (valid : nameProblem? role text = none)
    (brackets : role.allowsBrackets = false) : Label role text := by
  refine ⟨valid, ?_⟩
  intro c hc
  obtain ⟨_, _, _, _, _, symbols⟩ := nameProblem?_eq_none valid
  cases symbols c hc with
  | inl symbol => exact symbol
  | inr bracket =>
    rw [brackets] at bracket
    cases bracket.1

theorem Label.ne {role : Role} {text : List Char} (h : Label role text) : text ≠ [] :=
  Name.text_ne ⟨text, h.valid⟩

theorem Label.filled {role : Role} {text : List Char} (h : Label role text) :
    ∀ c ∈ text, isBlank c = false := fun c hc =>
  isBlank_of_isValueSymbol (isNameSymbol_value (h.symbols c hc)).1

theorem Label.edged {role : Role} {text : List Char} (h : Label role text) : Edged text :=
  ⟨fun c hc => h.filled c (List.mem_of_mem_head? hc), fun c hc => h.filled c (List.mem_of_getLast? hc)⟩

theorem not_mem_of_symbols {mark : Char} {text : List Char}
    (h : ∀ c ∈ text, isNameSymbol c = true) (symbol : isNameSymbol mark = false) : mark ∉ text := by
  intro hc
  rw [h mark hc] at symbol
  cases symbol

theorem Label.not_mem {role : Role} {text : List Char} (h : Label role text) {c : Char}
    (symbol : isNameSymbol c = false) : c ∉ text := not_mem_of_symbols h.symbols symbol

theorem validateName_label {role : Role} {name : String} (h : Label role name.toList) :
    validateName role (some name) = .ok name := by
  rw [validateName]
  simp only [trim_of_edged h.edged, h.valid, String.ofList_toList]

theorem validateName_edged {role : Role} {name key : String} (edged : Edged name.toList)
    (h : validateName role (some name) = .ok key) : key = name := by
  rw [validateName] at h
  simp only [trim_of_edged edged] at h
  split at h
  · cases h
  · cases h
    exact String.ofList_toList

namespace Definition

/-! ## Cutting -/

theorem cutAt_eq_some {mark : Char} {text before after : List Char} :
    cutAt mark text = some (before, after) ↔ text = before ++ mark :: after ∧ mark ∉ before := by
  induction text generalizing before with
  | nil => simp [cutAt]
  | cons c rest ih =>
    rw [cutAt]
    by_cases found : c = mark
    · subst found
      rw [beq_self_eq_true, if_pos rfl]
      constructor
      · intro h
        cases h
        exact ⟨rfl, List.not_mem_nil⟩
      · rintro ⟨same, free⟩
        cases before with
        | nil =>
          cases same
          rfl
        | cons first more =>
          cases same
          exact absurd List.mem_cons_self free
    · rw [beq_eq_false_iff_ne.mpr found, if_neg (by decide), Option.map_eq_some_iff]
      constructor
      · rintro ⟨⟨inner, tail⟩, cut, same⟩
        cases same
        obtain ⟨rfl, free⟩ := ih.mp cut
        refine ⟨rfl, ?_⟩
        rw [List.mem_cons, not_or]
        exact ⟨Ne.symm found, free⟩
      · rintro ⟨same, free⟩
        cases before with
        | nil =>
          cases same
          exact absurd rfl found
        | cons first more =>
          cases same
          rw [List.mem_cons, not_or] at free
          exact ⟨(more, after), ih.mpr ⟨rfl, free.2⟩, rfl⟩

theorem cutAt_none {mark : Char} {text : List Char} (h : mark ∉ text) : cutAt mark text = none := by
  cases cut : cutAt mark text with
  | none => rfl
  | some parts =>
    rw [(cutAt_eq_some.mp cut).1] at h
    exact absurd (List.mem_append_right _ List.mem_cons_self) h

theorem cutAt_mark {mark : Char} {before : List Char} (after : List Char) (h : mark ∉ before) :
    cutAt mark (before ++ mark :: after) = some (before, after) := cutAt_eq_some.mpr ⟨rfl, h⟩

/-! ## Conditions -/

/-- The texts between square brackets in a condition. -/
structure GuardPart (text : List Char) : Prop where
  edged : Edged text
  opens : '[' ∉ text
  closes : ']' ∉ text

theorem readGuardPart_eq_none {body : List Char} :
    readGuardPart body = .ok none ↔ body.head? ≠ some '[' := by
  cases body with
  | nil => simp [readGuardPart]
  | cons c rest =>
    by_cases bracket : c = '['
    · subst bracket
      rw [readGuardPart]
      constructor
      · intro h
        split at h
        · cases h
        · split at h <;> cases h
      · intro h
        exact absurd rfl h
    · constructor
      · intro _ h
        cases h
        exact bracket rfl
      · intro _
        rw [readGuardPart]
        rintro _ ⟨⟩
        exact bracket rfl

theorem readGuardPart_eq_some {body part rest : List Char}
    (h : readGuardPart body = .ok (some (part, rest))) :
    GuardPart part ∧ rest = trimLeft rest ∧ (∀ c ∈ part, c ∈ body) ∧
      ∃ before after, body = before ++ after ∧ rest = trimLeft after := by
  cases body with
  | nil => cases h
  | cons c more =>
    by_cases bracket : c = '['
    · subst bracket
      rw [readGuardPart] at h
      split at h
      · cases h
      · rename_i inner after cut
        split at h
        · cases h
        · rename_i opens
          cases h
          obtain ⟨rfl, closes⟩ := cutAt_eq_some.mp cut
          refine ⟨⟨trim_edged inner, ?_, ?_⟩, ?_, ?_, '[' :: inner ++ [']'], after, by simp, rfl⟩
          · intro mem
            exact opens (by simpa using mem_trim mem)
          · intro mem
            exact closes (mem_trim mem)
          · exact (trimLeft_of_head (trimLeft_head after)).symm
          · intro c mem
            exact List.mem_cons_of_mem _ (List.mem_append_left _ (mem_trim mem))
    · have none : readGuardPart (c :: more) = .ok none :=
        readGuardPart_eq_none.mpr (by simpa using bracket)
      rw [none] at h
      cases h

theorem readGuardPart_bracket {part : List Char} (after : List Char) (h : GuardPart part) :
    readGuardPart ('[' :: (part ++ ']' :: after)) = .ok (some (part, trimLeft after)) := by
  have opens : part.contains '[' = false := by
    rw [List.contains_eq_mem, decide_eq_false h.opens]
  rw [readGuardPart, cutAt_mark after h.closes]
  simp only [opens, trim_of_edged h.edged, Bool.false_eq_true, if_false]

/-- What is read of a body: a condition of two parts, or none. -/
theorem readGuard_eq_ok {body rest : List Char} {guard : Option Guard} (edged : Edged body)
    (h : readGuard body = .ok (guard, rest)) :
    Edged rest ∧ (∀ c ∈ rest, c ∈ body) ∧ (guard = none → rest.head? ≠ some '[') ∧
      ∀ g ∈ guard, GuardPart g.condition.toList ∧ GuardPart g.result.toList ∧
        (∀ c ∈ g.condition.toList, c ∈ body) ∧ ∀ c ∈ g.result.toList, c ∈ body := by
  rw [readGuard] at h
  split at h
  · cases h
  · rename_i none
    cases h
    exact ⟨edged, fun _ mem => mem, fun _ => readGuardPart_eq_none.mp none, nofun⟩
  · rename_i condition middle first
    split at h
    · cases h
    · cases h
    · rename_i result last second
      cases h
      obtain ⟨part, -, mem, before, after, rfl, rfl⟩ := readGuardPart_eq_some first
      obtain ⟨part', -, mem', before', after', same, rfl⟩ := readGuardPart_eq_some second
      have inside : ∀ c ∈ trimLeft after, c ∈ before ++ after := fun c hc =>
        List.mem_append_right _ (mem_trimLeft hc)
      have edged' : Edged (before' ++ after') := same ▸ trimLeft_edged edged
      refine ⟨trimLeft_edged edged', ?_, nofun, ?_⟩
      · intro c hc
        apply inside
        rw [same]
        exact List.mem_append_right _ (mem_trimLeft hc)
      · rintro g ⟨⟩
        simp only [String.toList_ofList]
        exact ⟨part, part', mem, fun c hc => inside c (mem' c hc)⟩

theorem readGuard_none {body : List Char} (h : body.head? ≠ some '[') :
    readGuard body = .ok (none, body) := by
  rw [readGuard, readGuardPart_eq_none.mpr h]

theorem readGuard_some {condition result body : List Char} (hc : GuardPart condition)
    (hr : GuardPart result) (hb : ∀ c ∈ body.head?, isBlank c = false) :
    readGuard ('[' :: (condition ++ ']' :: '[' :: (result ++ ']' :: ' ' :: body))) =
      .ok (some ⟨String.ofList condition, String.ofList result⟩, body) := by
  have bracket : trimLeft ('[' :: (result ++ ']' :: ' ' :: body)) =
      '[' :: (result ++ ']' :: ' ' :: body) := trimLeft_of_head (by rintro c ⟨⟩; decide)
  have space : trimLeft (' ' :: body) = body := by
    have blank := trimLeft_blank body (by decide : Blank [' '])
    exact blank.trans (trimLeft_of_head hb)
  rw [readGuard, readGuardPart_bracket _ hc, bracket]
  simp only [readGuardPart_bracket _ hr, space]

/-! ## Heads -/

theorem readHead_function {head name : List Char} {parameters : List (List Char)}
    (h : readHead head = .ok (name, some parameters)) :
    (∀ c ∈ name, c ≠ '(' ∧ c ≠ ')') ∧ ∀ c ∈ name, c ∈ head := by
  rw [readHead] at h
  split at h
  · split at h
    · cases h
    · split at h <;> cases h
  · rename_i before after closed
    split at h
    · cases h
    · rename_i first inner opened
      split at h
      · cases h
      · split at h
        · cases h
        · dsimp only at h
          generalize (if inner.isEmpty = true then [] else splitOnChar ',' inner) = pieces at h
          split at h
          · cases h
          · cases h
            obtain ⟨rfl, closes⟩ := cutAt_eq_some.mp closed
            obtain ⟨rfl, opens⟩ := cutAt_eq_some.mp opened
            refine ⟨?_, fun c hc => List.mem_append_left _ (List.mem_append_left _ hc)⟩
            intro c hc
            constructor
            · rintro rfl
              exact opens hc
            · rintro rfl
              exact closes (List.mem_append_left _ hc)

theorem readHead_variable {head name : List Char} (h : readHead head = .ok (name, none)) :
    name = head := by
  rw [readHead] at h
  split at h
  · split at h
    · cases h
    · split at h
      · cases h
      · cases h
        rfl
  · split at h
    · cases h
    · rename_i first inner opened
      split at h
      · cases h
      · split at h
        · cases h
        · dsimp only at h
          generalize (if inner.isEmpty = true then [] else splitOnChar ',' inner) = pieces at h
          split at h <;> cases h

theorem splitOnChar_ne (mark : Char) (text : List Char) : splitOnChar mark text ≠ [] := by
  cases text with
  | nil => exact List.cons_ne_nil _ _
  | cons c rest =>
    rw [splitOnChar]
    split
    · exact List.cons_ne_nil _ _
    · split <;> exact List.cons_ne_nil _ _

theorem splitOnChar_plain {mark : Char} : ∀ {text : List Char}, mark ∉ text →
    splitOnChar mark text = [text] := by
  intro text
  induction text with
  | nil =>
    intro _
    rfl
  | cons c rest ih =>
    intro h
    rw [List.mem_cons, not_or] at h
    have other : (c == mark) = false := beq_eq_false_iff_ne.mpr (Ne.symm h.1)
    simp [splitOnChar, ih h.2, other]

theorem splitOnChar_mark {mark : Char} (text : List Char) : ∀ {first : List Char}, mark ∉ first →
    splitOnChar mark (first ++ mark :: text) = first :: splitOnChar mark text := by
  intro first
  induction first with
  | nil =>
    intro _
    obtain ⟨piece, pieces, same⟩ := List.exists_cons_of_ne_nil (splitOnChar_ne mark text)
    simp [splitOnChar, same]
  | cons c rest ih =>
    intro h
    rw [List.mem_cons, not_or] at h
    have other : (c == mark) = false := beq_eq_false_iff_ne.mpr (Ne.symm h.1)
    simp [splitOnChar, ih h.2, other]

theorem splitOnChar_commaSeparated {texts : List (List Char)} (ne : texts ≠ [])
    (h : ∀ text ∈ texts, ',' ∉ text) : splitOnChar ',' (commaSeparated texts) = texts := by
  induction texts with
  | nil => exact absurd rfl ne
  | cons text rest ih =>
    obtain ⟨first, later⟩ := List.forall_mem_cons.mp h
    cases rest with
    | nil => exact splitOnChar_plain first
    | cons next rest =>
      rw [commaSeparated_cons, splitOnChar_mark _ first, ih (List.cons_ne_nil _ _) later]

theorem mem_commaSeparated {c : Char} : ∀ {texts : List (List Char)}, c ∈ commaSeparated texts →
    c = ',' ∨ ∃ text ∈ texts, c ∈ text := by
  intro texts
  induction texts with
  | nil => exact nofun
  | cons text rest ih =>
    intro h
    cases rest with
    | nil => exact .inr ⟨text, List.mem_singleton.mpr rfl, h⟩
    | cons next rest =>
      rw [commaSeparated_cons, List.mem_append, List.mem_cons] at h
      obtain inside | rfl | later := h
      · exact .inr ⟨text, List.mem_cons_self, inside⟩
      · exact .inl rfl
      · obtain comma | ⟨other, mem, inside⟩ := ih later
        · exact .inl comma
        · exact .inr ⟨other, List.mem_cons_of_mem _ mem, inside⟩

theorem not_mem_commaSeparated {parameters : List (List Char)} {mark : Char}
    (h : ∀ p ∈ parameters, ∀ c ∈ p, isNameSymbol c = true) (comma : mark ≠ ',')
    (symbol : isNameSymbol mark = false) : mark ∉ commaSeparated parameters := by
  intro hc
  obtain same | ⟨p, mem, inside⟩ := mem_commaSeparated hc
  · exact comma same
  · exact not_mem_of_symbols (h p mem) symbol inside

/-- The parameters between the brackets, which may be none. -/
theorem splitOnChar_parameters {parameters : List (List Char)} (filled : ∀ p ∈ parameters, p ≠ [])
    (h : ∀ p ∈ parameters, ∀ c ∈ p, isNameSymbol c = true) :
    (if (commaSeparated parameters).isEmpty then []
      else splitOnChar ',' (commaSeparated parameters)) = parameters := by
  cases parameters with
  | nil => rfl
  | cons p rest =>
    have ne : (commaSeparated (p :: rest)).isEmpty = false := by
      rw [List.isEmpty_eq_false_iff]
      cases rest with
      | nil => exact filled p List.mem_cons_self
      | cons next more => simp [commaSeparated_cons]
    rw [ne, if_neg (by decide), splitOnChar_commaSeparated (List.cons_ne_nil _ _)]
    intro text mem
    exact not_mem_of_symbols (h text mem) (by decide)

theorem readHead_call {name : List Char} {parameters : List (List Char)}
    (hn : ∀ c ∈ name, isNameSymbol c = true) (filled : ∀ p ∈ parameters, p ≠ [])
    (hp : ∀ p ∈ parameters, ∀ c ∈ p, isNameSymbol c = true) :
    readHead (name ++ '(' :: (commaSeparated parameters ++ [')'])) =
      .ok (name, some parameters) := by
  have closes : ')' ∉ name ++ '(' :: commaSeparated parameters := by
    rw [List.mem_append, List.mem_cons, not_or, not_or]
    exact ⟨not_mem_of_symbols hn (by decide), by decide,
      not_mem_commaSeparated hp (by decide) (by decide)⟩
  have closed := cutAt_mark [] closes
  rw [List.append_assoc, List.cons_append] at closed
  have opened := cutAt_mark (commaSeparated parameters)
    (not_mem_of_symbols hn (by decide : isNameSymbol '(' = false))
  have opens : (commaSeparated parameters).contains '(' = false := by
    rw [List.contains_eq_mem, decide_eq_false (not_mem_commaSeparated hp (by decide) (by decide))]
  have named : parameters.any (·.isEmpty) = false := by
    rw [List.any_eq_false]
    intro p mem
    simpa using filled p mem
  rw [readHead, closed]
  simp only [opened, opens, splitOnChar_parameters filled hp, named, List.contains_nil,
    Bool.or_false, Bool.false_eq_true, if_false]

theorem readHead_name {name : List Char} (hn : ∀ c ∈ name, isNameSymbol c = true) :
    readHead name = .ok (name, none) := by
  have bare {mark : Char} (symbol : isNameSymbol mark = false) : mark ∉ name :=
    not_mem_of_symbols hn symbol
  rw [readHead, cutAt_none (bare (by decide))]
  simp [bare (by decide : isNameSymbol '(' = false), bare (by decide : isNameSymbol ',' = false)]

/-! ## Names -/

theorem checkNames_valid {role : Role} : ∀ {names : List (List Char)} {checked : List String},
    checkNames role names = .ok checked → ∀ p ∈ checked, nameProblem? role p.toList = none := by
  intro names
  induction names with
  | nil =>
    intro checked h
    cases h
    exact nofun
  | cons name rest ih =>
    intro checked h
    rw [checkNames] at h
    split at h
    · cases h
    · rename_i valid named
      split at h
      · cases h
      · rename_i others more
        cases h
        rw [List.forall_mem_cons]
        exact ⟨Family.validateName_problem named, ih more⟩

theorem checkNames_blankless {role : Role} {name : List Char} {checked : List String}
    (blankless : ∀ c ∈ name, isBlank c = false) (h : checkNames role [name] = .ok checked) :
    nameProblem? role name = none := by
  have edged : Edged name := ⟨fun c hc => blankless c (List.mem_of_mem_head? hc),
    fun c hc => blankless c (List.mem_of_getLast? hc)⟩
  rw [checkNames] at h
  split at h
  · cases h
  · rename_i key validated
    simp only [validateName, String.toList_ofList, trim_of_edged edged] at validated
    split at validated
    · cases validated
    · rename_i fine
      exact fine

theorem checkNames_labels {role : Role} {names : List (List Char)}
    (h : ∀ name ∈ names, Label role name) :
    checkNames role names = .ok (names.map String.ofList) := by
  induction names with
  | nil => rfl
  | cons name rest ih =>
    obtain ⟨first, later⟩ := List.forall_mem_cons.mp h
    have label : Label role (String.ofList name).toList := by rwa [String.toList_ofList]
    simp only [checkNames, validateName_label label, ih later, List.map_cons]

/-! ## Whole definitions -/

/-- The role of the name that a definition with or without parameters gives. -/
def nameRole (parameters : Option (List (List Char))) : Role :=
  if parameters.isSome then .functionName else .variableName

/-- The guard and the rest of a trimmed body; only functions have a guard. -/
def bodyParts (parameters : Option (List (List Char))) (body : List Char) :
    Except DefinitionProblem (Option Guard × List Char) :=
  if parameters.isSome then readGuard body else .ok (none, body)

/-- The definition that is put together of a name, its parameters and a body. -/
def assemble (name : List Char) (parameters : Option (List (List Char))) (guard : Option Guard)
    (rest : List Char) : Except DefinitionProblem Definition :=
  if rest.isEmpty then .error .missingBody
  else
    match checkNames (nameRole parameters) [name] with
    | .error problem => .error problem
    | .ok _ =>
      match checkNames .parameterName (parameters.getD []) with
      | .error problem => .error problem
      | .ok names => .ok ⟨String.ofList name, if parameters.isSome then some names else none, guard,
          String.ofList rest⟩

theorem assemble_eq_do (name : List Char) (parameters : Option (List (List Char)))
    (guard : Option Guard) (rest : List Char) :
    (do
      if rest.isEmpty then .error .missingBody
      let _ ← checkNames (nameRole parameters) [name]
      let names ← checkNames .parameterName (parameters.getD [])
      return (⟨String.ofList name, if parameters.isSome then some names else none, guard,
        String.ofList rest⟩ : Definition)) = assemble name parameters guard rest := by
  rw [assemble]
  cases rest with
  | nil => rfl
  | cons c more =>
    cases checkNames (nameRole parameters) [name] with
    | error problem => rfl
    | ok named => cases checkNames .parameterName (parameters.getD []) <;> rfl

theorem assemble_eq_ok {name rest : List Char} {parameters : Option (List (List Char))}
    {guard : Option Guard} {d : Definition} :
    assemble name parameters guard rest = .ok d ↔ ∃ named names, rest ≠ [] ∧
      checkNames (nameRole parameters) [name] = .ok named ∧
      checkNames .parameterName (parameters.getD []) = .ok names ∧
      d = ⟨String.ofList name, if parameters.isSome then some names else none, guard,
        String.ofList rest⟩ := by
  rw [assemble]
  constructor
  · intro h
    split at h
    · cases h
    · rename_i full
      split at h
      · cases h
      · rename_i named checked
        split at h
        · cases h
        · rename_i names checked'
          cases h
          exact ⟨named, names, by simpa using full, checked, checked', rfl⟩
  · rintro ⟨named, names, full, checked, checked', rfl⟩
    simp only [List.isEmpty_eq_false_iff.mpr full, checked, checked', Bool.false_eq_true, if_false]

/-- Reading a definition, one part after another. -/
theorem parse_eq (text : String) : parse text =
    match cutAt '=' text.toList with
    | none => .error .missingEquals
    | some (head, body) =>
      match readHead (head.filter fun c => !isBlank c) with
      | .error problem => .error problem
      | .ok (name, parameters) =>
        if name.isEmpty then .error .missingName
        else
          match bodyParts parameters (trim body) with
          | .error problem => .error problem
          | .ok (guard, rest) => assemble name parameters guard rest := by
  rw [parse]
  cases cutAt '=' text.toList with
  | none => rfl
  | some halves =>
    obtain ⟨head, body⟩ := halves
    dsimp only
    cases readHead (head.filter fun c => !isBlank c) with
    | error problem => rfl
    | ok parts =>
      obtain ⟨name, parameters⟩ := parts
      cases name with
      | nil => rfl
      | cons c more =>
        cases parameters with
        | none => exact assemble_eq_do (c :: more) none none (trim body)
        | some parameters =>
          cases read : readGuard (trim body) with
          | error problem => simp [bodyParts, read]; rfl
          | ok parts =>
            obtain ⟨guard, rest⟩ := parts
            simp only [bodyParts, read]
            exact assemble_eq_do (c :: more) (some parameters) guard rest

theorem parse_eq_ok {text : String} {d : Definition} :
    parse text = .ok d ↔ ∃ head body name parameters guard rest named names,
      cutAt '=' text.toList = some (head, body) ∧
      readHead (head.filter fun c => !isBlank c) = .ok (name, parameters) ∧ name ≠ [] ∧
      bodyParts parameters (trim body) = .ok (guard, rest) ∧ rest ≠ [] ∧
      checkNames (nameRole parameters) [name] = .ok named ∧
      checkNames .parameterName (parameters.getD []) = .ok names ∧
      d = ⟨String.ofList name, if parameters.isSome then some names else none, guard,
        String.ofList rest⟩ := by
  rw [parse_eq]
  constructor
  · intro h
    split at h
    · cases h
    · rename_i head body cut
      split at h
      · cases h
      · rename_i name parameters read
        split at h
        · cases h
        · rename_i filled
          split at h
          · cases h
          · rename_i guard rest guarded
            obtain ⟨named, names, full, checked, checked', rfl⟩ := assemble_eq_ok.mp h
            exact ⟨head, body, name, parameters, guard, rest, named, names, cut, read,
              by simpa using filled, guarded, full, checked, checked', rfl⟩
  · rintro ⟨head, body, name, parameters, guard, rest, named, names, cut, read, filled, guarded,
      full, checked, checked', same⟩
    simp only [cut, read, List.isEmpty_eq_false_iff.mpr filled, guarded, Bool.false_eq_true, if_false]
    exact assemble_eq_ok.mpr ⟨named, names, full, checked, checked', same⟩

end Definition

/-! ## Storing functions -/

/-- Texts without line boundaries. -/
def Unbroken (text : List Char) : Prop := ∀ c ∈ text, isLineBoundary c = false

instance (text : List Char) : Decidable (Unbroken text) := List.decidableBAll _ text

open Definition

namespace UserFunction

/-- Functions that a definition can define. -/
structure Stated (f : UserFunction) : Prop where
  name : Label .functionName f.name.toList
  parameters : ∀ p ∈ f.parameters, Label .parameterName p.toList
  guard : ∀ g ∈ f.guard, GuardPart g.condition.toList ∧ GuardPart g.result.toList
  filled : f.body.toList ≠ []
  edged : Edged f.body.toList
  unguarded : f.guard = none → f.body.toList.head? ≠ some '['

/-- Nothing in the texts of a function ends a line. -/
structure OnOneLine (f : UserFunction) : Prop where
  unbroken : Unbroken f.body.toList
  unbrokenGuard : ∀ g ∈ f.guard, Unbroken g.condition.toList ∧ Unbroken g.result.toList

/-- Functions that a definition on one line can define. -/
structure Storable (f : UserFunction) : Prop extends Stated f, OnOneLine f

/-- A condition as it is written after the equals sign. -/
def guardText : Option Guard → List Char
  | none => []
  | some g => ' ' :: '[' :: (g.condition.toList ++ ']' :: '[' :: (g.result.toList ++ [']']))

theorem definitionLine_toList (f : UserFunction) : f.definitionLine.toList =
    f.name.toList ++ '(' :: (commaSeparated (f.parameters.map String.toList) ++ [')']) ++ [' '] ++
      '=' :: (guardText f.guard ++ ' ' :: f.body.toList) := by
  have comma := intercalate_comma (f.parameters.map String.toList)
  rw [definitionLine]
  cases f.guard with
  | none => simp [guardText, String.toList_intercalate, comma]
  | some g => simp [guardText, String.toList_intercalate, comma]

theorem Stated.bodyParts_written {f : UserFunction} (h : f.Stated)
    (parameters : List (List Char)) :
    bodyParts (some parameters) (trim (guardText f.guard ++ ' ' :: f.body.toList)) =
      .ok (f.guard, f.body.toList) := by
  cases guard : f.guard with
  | none =>
    rw [guardText, List.nil_append, trim_space h.edged]
    exact readGuard_none (h.unguarded guard)
  | some g =>
    obtain ⟨condition, result⟩ := h.guard g guard
    have written : guardText (some g) ++ ' ' :: f.body.toList =
        ' ' :: '[' :: (g.condition.toList ++ ']' :: '[' ::
          (g.result.toList ++ ']' :: ' ' :: f.body.toList)) := by simp [guardText]
    have edged : Edged ('[' :: (g.condition.toList ++ ']' :: '[' ::
        (g.result.toList ++ ']' :: ' ' :: f.body.toList))) := by
      have mark : ∀ c ∈ ('[' :: (g.condition.toList ++ ']' :: '[' ::
          (g.result.toList ++ [']', ' ']))).head?, isBlank c = false := by
        rintro c ⟨⟩
        decide
      simpa using edged_append mark h.edged (List.cons_ne_nil _ _) h.filled
    have read := readGuard_some condition result h.edged.1
    rw [String.ofList_toList, String.ofList_toList] at read
    rw [written, trim_space edged]
    exact read

end UserFunction

theorem parse_functionName {text : String} {d : Definition} {parameters : List String}
    (h : parse text = .ok d) (given : d.parameters = some parameters) :
    Label .functionName d.name.toList := by
  obtain ⟨head, body, name, inner, guard, rest, named, names, -, read, -, -, -, checked, -, rfl⟩ :=
    parse_eq_ok.mp h
  cases inner with
  | none => cases given
  | some inner =>
    obtain ⟨plain, mem⟩ := readHead_function read
    have blankless : ∀ c ∈ name, isBlank c = false := by
      intro c hc
      simpa using (List.mem_filter.mp (mem c hc)).2
    rw [String.toList_ofList]
    exact label_of_plain (checkNames_blankless blankless checked) plain

/-- Every function that is read of a text has the form of a definition. -/
theorem parse_stated {text : String} {d : Definition} {parameters : List String}
    (scope : Option EnvId) (h : parse text = .ok d) (given : d.parameters = some parameters) :
    (d.function parameters scope).Stated := by
  have label := parse_functionName h given
  obtain ⟨head, body, name, inner, guard, rest, named, names, -, -, -, parts, filled, -, checked,
    rfl⟩ := parse_eq_ok.mp h
  cases inner with
  | none => cases given
  | some inner =>
    cases given
    obtain ⟨edged, -, unguarded, conditions⟩ := readGuard_eq_ok (trim_edged body) parts
    refine ⟨label, ?_, ?_, ?_, ?_, ?_⟩
    · intro p hp
      exact label_of_role (checkNames_valid checked p hp) rfl
    · intro g hg
      obtain ⟨condition, result, -, -⟩ := conditions g hg
      exact ⟨condition, result⟩
    · simpa [Definition.function] using filled
    · simpa [Definition.function] using edged
    · simpa [Definition.function] using unguarded

/-- A function that is read of one line stands on one line. -/
theorem parse_onOneLine {text : String} {d : Definition} {parameters : List String}
    (scope : Option EnvId) (unbroken : Unbroken text.toList) (h : parse text = .ok d)
    (given : d.parameters = some parameters) : (d.function parameters scope).OnOneLine := by
  obtain ⟨head, body, name, inner, guard, rest, named, names, cut, -, -, parts, -, -, -, rfl⟩ :=
    parse_eq_ok.mp h
  cases inner with
  | none => cases given
  | some inner =>
    cases given
    obtain ⟨same, -⟩ := cutAt_eq_some.mp cut
    have inside : Unbroken (trim body) := by
      intro c hc
      apply unbroken c
      rw [same]
      exact List.mem_append_right _ (List.mem_cons_of_mem _ (mem_trim hc))
    obtain ⟨-, inRest, -, conditions⟩ := readGuard_eq_ok (trim_edged body) parts
    refine ⟨?_, ?_⟩
    · intro c hc
      exact inside c (inRest c (by simpa [Definition.function] using hc))
    · intro g hg
      obtain ⟨-, -, condition, result⟩ := conditions g hg
      exact ⟨fun c hc => inside c (condition c hc), fun c hc => inside c (result c hc)⟩

/-- Every function that is read of one line is storable. -/
theorem parse_storable {text : String} {d : Definition} {parameters : List String}
    (scope : Option EnvId) (unbroken : Unbroken text.toList) (h : parse text = .ok d)
    (given : d.parameters = some parameters) : (d.function parameters scope).Storable :=
  ⟨parse_stated scope h given, parse_onOneLine scope unbroken h given⟩

/-- The line of a function is read as its parts. -/
theorem parse_definitionLine {f : UserFunction} (h : f.Stated) :
    parse f.definitionLine = .ok ⟨f.name, some f.parameters, f.guard, f.body⟩ := by
  have labels : ∀ p ∈ f.parameters.map String.toList, Label .parameterName p := by
    intro p hp
    obtain ⟨p', mem, rfl⟩ := List.mem_map.mp hp
    exact h.parameters p' mem
  have head := readHead_call h.name.symbols (fun p hp => (labels p hp).ne)
    fun p hp => (labels p hp).symbols
  have symbols : ∀ c ∈ f.name.toList ++ '(' :: (commaSeparated (f.parameters.map String.toList) ++ [')']),
      c ≠ '=' ∧ isBlank c = false := by
    intro c hc
    rw [List.mem_append, List.mem_cons, List.mem_append, List.mem_singleton] at hc
    have symbol (named : isNameSymbol c = true) : c ≠ '=' ∧ isBlank c = false := by
      refine ⟨?_, isBlank_of_isValueSymbol (isNameSymbol_value named).1⟩
      rintro rfl
      cases named
    obtain inName | rfl | inParameters | rfl := hc
    · exact symbol (h.name.symbols c inName)
    · decide
    · obtain rfl | ⟨p, mem, inside⟩ := mem_commaSeparated inParameters
      · decide
      · exact symbol ((labels p mem).symbols c inside)
    · decide
  generalize written : f.name.toList ++ '(' :: (commaSeparated (f.parameters.map String.toList) ++ [')']) =
    head' at head symbols
  have noEquals : '=' ∉ head' ++ [' '] := by
    rw [List.mem_append, not_or]
    exact ⟨fun mem => (symbols '=' mem).1 rfl, by decide⟩
  have unblanked : (head' ++ [' ']).filter (fun c => !isBlank c) = head' := by
    rw [List.filter_append, List.filter_eq_self.mpr fun c hc => by simp [(symbols c hc).2]]
    exact List.append_nil head'
  have parts : bodyParts (some (f.parameters.map String.toList))
      (trim (UserFunction.guardText f.guard ++ ' ' :: f.body.toList)) =
      .ok (f.guard, f.body.toList) := h.bodyParts_written _
  refine parse_eq_ok.mpr ⟨head' ++ [' '], _, f.name.toList, some (f.parameters.map String.toList),
    f.guard, f.body.toList, _, _, ?_, ?_, h.name.ne, parts, h.filled,
    checkNames_labels (List.forall_mem_singleton.mpr h.name), checkNames_labels labels, ?_⟩
  · rw [UserFunction.definitionLine_toList, written]
    exact cutAt_mark _ noEquals
  · rw [unblanked]
    exact head
  · simp

/-- The parts of a definition make a function, whose line is read as the definition again, however
the text was written that the definition was read of. -/
theorem parse_rewritten {text : String} {d : Definition} {parameters : List String}
    (scope : Option EnvId) (h : parse text = .ok d) (given : d.parameters = some parameters) :
    Guard.create? (d.guard.map (·.condition)) (d.guard.map (·.result)) = .ok d.guard ∧
      parse (d.function parameters scope).definitionLine = .ok d := by
  obtain ⟨name, given', guard, body⟩ := d
  obtain rfl : given' = some parameters := given
  refine ⟨?_, parse_definitionLine (parse_stated scope h rfl)⟩
  cases guard with
  | none => rfl
  | some guard => rfl

/-- A condition with an equals sign, no expression for it, and a body that begins with a bracket. -/
theorem parse_rewritten_brackets :
    parse " f ( a ,b) = [ a = b ] [] [a = b" =
        .ok ⟨"f", some ["a", "b"], some ⟨"a = b", ""⟩, "[a = b"⟩ ∧
      parse "f(a,b) = [a = b][] [a = b" =
        .ok ⟨"f", some ["a", "b"], some ⟨"a = b", ""⟩, "[a = b"⟩ := by
  have read : parse " f ( a ,b) = [ a = b ] [] [a = b" =
      .ok ⟨"f", some ["a", "b"], some ⟨"a = b", ""⟩, "[a = b"⟩ := by rfl
  exact ⟨read, (parse_rewritten none read rfl).2⟩

/-! ## Storing variables -/

theorem parse_variableName {text : String} {d : Definition} (h : parse text = .ok d)
    (given : d.parameters = none) : Label .variableName d.name.toList := by
  obtain ⟨head, body, name, inner, guard, rest, named, names, -, read, -, -, -, checked, -, rfl⟩ :=
    parse_eq_ok.mp h
  cases inner with
  | some inner => cases given
  | none =>
    have blankless : ∀ c ∈ name, isBlank c = false := by
      intro c hc
      rw [readHead_variable read] at hc
      simpa using (List.mem_filter.mp hc).2
    rw [String.toList_ofList]
    exact label_of_role (checkNames_blankless blankless checked) rfl

/-- The line of a variable is read as its name and the text of its value. -/
theorem parse_variableLine {name text : String} (h : Label .variableName name.toList)
    (edged : Edged text.toList) (filled : text.toList ≠ []) :
    parse (name ++ " = " ++ text) = .ok ⟨name, none, none, text⟩ := by
  have noEquals : '=' ∉ name.toList ++ [' '] := by
    rw [List.mem_append, not_or]
    exact ⟨h.not_mem (by decide), by decide⟩
  have unblanked : (name.toList ++ [' ']).filter (fun c => !isBlank c) = name.toList := by
    rw [List.filter_append, List.filter_eq_self.mpr fun c hc => by simp [h.filled c hc]]
    exact List.append_nil name.toList
  refine parse_eq_ok.mpr ⟨name.toList ++ [' '], ' ' :: text.toList, name.toList, none, none,
    text.toList, _, _, ?_, ?_, h.ne, ?_, filled,
    checkNames_labels (List.forall_mem_singleton.mpr h), rfl, ?_⟩
  · have cut := cutAt_mark (' ' :: text.toList) noEquals
    simpa using cut
  · rw [unblanked]
    exact readHead_name h.symbols
  · rw [bodyParts, trim_space edged]
    rfl
  · simp

end Calculator
