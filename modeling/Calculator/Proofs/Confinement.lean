import Calculator.Proofs.Definitions
import Calculator.Files.State
import Mathlib.Logic.Relation

/-!
# Calculator.Proofs.Confinement

State files lie in the base directory or below it. What a path means is told by rewriting its steps,
apart from the way the calculator follows them.

* `Path.normalizes_iff_follow`: the steps from the root have one normal form, which is where
  following them leads.
* `StateFile.path_confined`: a name is refused where its normal form leaves the base directory, and
  otherwise leads to that normal form.
-/

namespace Calculator
namespace Path

/-! ## Normal forms -/

/-- What a file or directory can be called. -/
structure IsName (name : String) : Prop where
  filled : name ≠ ""
  notHere : name ≠ "."
  notUp : name ≠ ".."
  flat : '/' ∉ name.toList

/-- Only names stand on the path. -/
def Normal (path : Path) : Prop := ∀ name ∈ path, IsName name

/-- One step of the simplification of a path from the root, whatever files there are. -/
inductive Simplifies : List String → List String → Prop
  | empty (before after : List String) : Simplifies (before ++ "" :: after) (before ++ after)
  | here (before after : List String) : Simplifies (before ++ "." :: after) (before ++ after)
  /-- A name and the way back from it cancel. -/
  | back (before after : List String) {name : String} (named : IsName name) :
      Simplifies (before ++ name :: ".." :: after) (before ++ after)
  /-- Nothing lies above the root. -/
  | root (after : List String) : Simplifies (".." :: after) after

/-- A path from the root is simplified as far as possible. -/
def Normalizes (steps : List String) (path : Path) : Prop :=
  Relation.ReflTransGen Simplifies steps path ∧ Normal path

theorem step_name (path : Path) {name : String} (h : IsName name) :
    path.step name = path ++ [name] := by
  rw [step, if_neg (not_or.mpr ⟨h.filled, h.notHere⟩), if_neg h.notUp]

theorem step_up (path : Path) : path.step ".." = path.dropLast := by
  rw [step, if_neg (by decide), if_pos rfl]

theorem step_stay (path : Path) {name : String} (h : name = "" ∨ name = ".") :
    path.step name = path := by
  rw [step, if_pos h]

theorem follow_cons (path : Path) (name : String) (rest : List String) :
    path.follow (name :: rest) = (path.step name).follow rest := rfl

theorem follow_append (path : Path) (before after : List String) :
    path.follow (before ++ after) = (path.follow before).follow after := List.foldl_append

theorem follow_normal (path : Path) : ∀ {names : Path}, Normal names →
    path.follow names = path ++ names := by
  intro names
  induction names generalizing path with
  | nil =>
    intro _
    exact (List.append_nil path).symm
  | cons name rest ih =>
    intro normal
    obtain ⟨first, later⟩ := List.forall_mem_cons.mp normal
    rw [follow_cons, step_name path first, ih _ later, List.append_assoc, List.singleton_append]

/-- A simplification leads to the same place. -/
theorem Simplifies.follow {steps simpler : List String} (h : Simplifies steps simpler) (path : Path)
    (root : path = []) : path.follow steps = path.follow simpler := by
  cases h with
  | empty before after => rw [follow_append, follow_append, follow_cons, step_stay _ (.inl rfl)]
  | here before after => rw [follow_append, follow_append, follow_cons, step_stay _ (.inr rfl)]
  | back before after named =>
    rw [follow_append, follow_append, follow_cons, follow_cons, step_name _ named, step_up,
      List.dropLast_concat]
  | root after =>
    rw [follow_cons, step_up, root]
    rfl

theorem Normalizes.follow {steps : List String} {path : Path} (h : Normalizes steps path) :
    follow [] steps = path := by
  obtain ⟨simplified, normal⟩ := h
  have same : Path.follow [] steps = Path.follow [] path := by
    clear normal
    induction simplified with
    | refl => rfl
    | tail _ last ih => exact ih.trans (last.follow [] rfl)
  rw [same, follow_normal [] normal, List.nil_append]

/-- Where steps lead from a directory is a normal form of the whole path. -/
theorem normalizes_follow {base : Path} {steps : List String} (normal : Normal base)
    (flat : ∀ name ∈ steps, '/' ∉ name.toList) :
    Normalizes (base ++ steps) (base.follow steps) := by
  induction steps generalizing base with
  | nil =>
    rw [List.append_nil]
    exact ⟨.refl, normal⟩
  | cons name rest ih =>
    obtain ⟨flatName, flatRest⟩ := List.forall_mem_cons.mp flat
    rw [follow_cons]
    by_cases stay : name = "" ∨ name = "."
    · obtain ⟨simplified, done⟩ := ih normal flatRest
      rw [step_stay base stay]
      refine ⟨.head ?_ simplified, done⟩
      cases stay with
      | inl empty => exact empty ▸ .empty base rest
      | inr here => exact here ▸ .here base rest
    · by_cases up : name = ".."
      · subst up
        rw [step_up]
        obtain rfl | ⟨above, last, whole⟩ := List.eq_nil_or_concat base
        · obtain ⟨simplified, done⟩ := ih normal flatRest
          exact ⟨.head (.root rest) simplified, done⟩
        · rw [List.concat_eq_append] at whole
          subst whole
          have named : IsName last := normal last (List.mem_append_right _ List.mem_cons_self)
          have shorter : Normal above := fun _ mem => normal _ (List.mem_append_left _ mem)
          obtain ⟨simplified, done⟩ := ih shorter flatRest
          rw [List.dropLast_concat, List.append_assoc, List.singleton_append]
          exact ⟨.head (.back above rest named) simplified, done⟩
      · rw [not_or] at stay
        have named : IsName name := ⟨stay.1, stay.2, up, flatName⟩
        have longer : Normal (base ++ [name]) :=
          List.forall_mem_append.mpr ⟨normal, List.forall_mem_singleton.mpr named⟩
        rw [step_name base named]
        simpa using ih longer flatRest

theorem normalizes_iff_follow {base : Path} {steps : List String} (normal : Normal base)
    (flat : ∀ name ∈ steps, '/' ∉ name.toList) {path : Path} :
    Normalizes (base ++ steps) path ↔ path = base.follow steps := by
  constructor
  · intro normalized
    rw [← normalized.follow, (normalizes_follow normal flat).follow]
  · rintro rfl
    exact normalizes_follow normal flat

/-! ## Paths as they are written -/

theorem splitOnChar_flat {mark : Char} (text : List Char) :
    ∀ piece ∈ splitOnChar mark text, mark ∉ piece := by
  induction text with
  | nil => exact List.forall_mem_singleton.mpr (List.not_mem_nil)
  | cons c rest ih =>
    rw [splitOnChar]
    split
    · rename_i none
      exact absurd none (Definition.splitOnChar_ne mark rest)
    · rename_i piece pieces same
      rw [same] at ih
      obtain ⟨first, later⟩ := List.forall_mem_cons.mp ih
      split
      · exact List.forall_mem_cons.mpr ⟨List.not_mem_nil, ih⟩
      · rename_i other
        refine List.forall_mem_cons.mpr ⟨?_, later⟩
        rw [List.mem_cons, not_or]
        exact ⟨fun mark_eq => other (beq_iff_eq.mpr mark_eq.symm), first⟩

/-- What a text ends with stays at the end of its last piece. -/
theorem splitOnChar_last {mark : Char} {tail : List Char} (h : mark ∉ tail) (front : List Char) :
    ∃ before piece, splitOnChar mark (front ++ tail) = before ++ [piece ++ tail] := by
  induction front with
  | nil => exact ⟨[], [], Definition.splitOnChar_plain h⟩
  | cons c rest ih =>
    obtain ⟨before, piece, same⟩ := ih
    rw [List.cons_append, splitOnChar, same]
    cases before with
    | nil =>
      cases hc : c == mark with
      | true => exact ⟨[[]], piece, by simp⟩
      | false => exact ⟨[], c :: piece, by simp⟩
    | cons first later =>
      cases hc : c == mark with
      | true => exact ⟨[] :: first :: later, piece, by simp⟩
      | false => exact ⟨(c :: first) :: later, piece, by simp⟩

theorem steps_flat (written : String) : ∀ name ∈ steps written, '/' ∉ name.toList := by
  intro name mem
  obtain ⟨piece, listed, rfl⟩ := List.mem_map.mp mem
  rw [String.toList_ofList]
  exact splitOnChar_flat _ piece listed

end Path

namespace StateFile

/-! ## Names of state files -/

variable {base : Path} {name : Option String}

theorem endsWith_iff {text tail : String} :
    text.endsWith tail = true ↔ tail.toList <:+ text.toList := by
  rw [String.endsWith_eq_endsWith_toSlice, String.Slice.endsWith_string_iff, String.copy_toSlice]

theorem completeName_ends (name : String) : ending.toList <:+ (completeName name).toList := by
  rw [completeName]
  split
  · rename_i ends
    exact endsWith_iff.mp ends
  · rw [String.toList_append]
    exact List.suffix_append _ _

/-- The ending changes how a name starts only where it is empty. -/
theorem completeName_head (name : String) {c : Char} (other : c ≠ '.') :
    (completeName name).toList.head? = some c ↔ name.toList.head? = some c := by
  rw [completeName]
  split
  · exact Iff.rfl
  · rw [String.toList_append]
    cases name.toList with
    | nil =>
      constructor
      · intro head
        have first : '.' = c := Option.some.inj head
        exact absurd first.symm other
      · rintro ⟨⟩
    | cons first rest => exact Iff.rfl

/-- The last step to a state file is a name with the ending. -/
theorem steps_completeName (name : String) :
    ∃ before last, Path.steps (completeName name) = before ++ [last] ∧ Path.IsName last ∧
      last.endsWith ending = true := by
  obtain ⟨front, whole⟩ := completeName_ends name
  obtain ⟨before, piece, split⟩ := Path.splitOnChar_last (by decide : '/' ∉ ending.toList) front
  have steps : Path.steps (completeName name) =
      before.map String.ofList ++ [String.ofList (piece ++ ending.toList)] := by
    rw [Path.steps, ← whole, split, List.map_append, List.map_singleton]
  have other (text : String) (short : text.toList.length < 4) :
      String.ofList (piece ++ ending.toList) ≠ text := by
    rintro rfl
    rw [String.toList_ofList, List.length_append] at short
    exact absurd (Nat.le_add_left 4 piece.length) (Nat.not_le.mpr short)
  refine ⟨_, _, steps, ?_, endsWith_iff.mpr ?_⟩
  · exact {
      filled := other "" (by decide)
      notHere := other "." (by decide)
      notUp := other ".." (by decide)
      flat := Path.steps_flat (completeName name) _ (steps ▸ List.mem_concat_self) }
  · rw [String.toList_ofList]
    exact List.suffix_append _ _

theorem trimmedName_clean {name : Option String} (clean : '\x00' ∉ (name.getD "").toList) :
    '\x00' ∉ (trimmedName name).toList := by
  rw [trimmedName, trimString, String.toList_ofList]
  intro mem
  have inside := mem_trim mem
  split at inside
  · exact absurd inside (by decide)
  · exact clean inside

/-- The path of a state file, told by what the complete name says. -/
theorem path_eq (base : Path) {name : Option String} (clean : '\x00' ∉ (name.getD "").toList) :
    path base name =
      if Path.isAbsolute (completeName (trimmedName name)) ∨
          (completeName (trimmedName name)).toList.head? = some '~' then .error (.inl .absolute)
      else if base <+: base.follow (Path.steps (completeName (trimmedName name))) then
        .ok (base.follow (Path.steps (completeName (trimmedName name))))
      else .error (.inl .outside) := by
  have free : (trimmedName name).toList.contains '\x00' = false := by
    simpa using trimmedName_clean clean
  have absolute : Path.isAbsolute (completeName (trimmedName name)) = true ↔
      Path.isAbsolute (trimmedName name) = true := by
    rw [Path.isAbsolute, Path.isAbsolute, beq_iff_eq, beq_iff_eq]
    exact completeName_head _ (by decide)
  have home := completeName_head (trimmedName name) (by decide : '~' ≠ '.')
  rw [path]
  simp only [Bool.or_eq_true, beq_iff_eq, absolute, home, free, Bool.false_eq_true, if_false,
    List.isPrefixOf_iff_prefix]

/-! ## Confinement -/

/-- Why the name of a state file is refused: it starts from the root or from a home directory, or
where it leads lies outside the base directory. -/
def Escapes (base : Path) (written : String) (arrived : Path) : Prop :=
  Path.isAbsolute written = true ∨ written.toList.head? = some '~' ∨ ¬ base <+: arrived

instance (base : Path) (written : String) (arrived : Path) :
    Decidable (Escapes base written arrived) :=
  inferInstanceAs (Decidable (_ ∨ _ ∨ ¬ _))

/-- A path that state files may have. -/
structure Confined (base path : Path) : Prop where
  normal : Path.Normal path
  below : base <+: path
  ended : ∃ last, path.getLast? = some last ∧ last.endsWith ending = true

theorem follow_completeName_ends (base : Path) (name : String) :
    ∃ last, (base.follow (Path.steps (completeName name))).getLast? = some last ∧
      last.endsWith ending = true := by
  obtain ⟨before, last, steps, named, ends⟩ := steps_completeName name
  refine ⟨last, ?_, ends⟩
  rw [steps, Path.follow_append, Path.follow_cons, Path.step_name _ named]
  exact List.getLast?_concat

theorem path_escapes (base : Path) {name : Option String} (clean : '\x00' ∉ (name.getD "").toList) :
    (∃ problem, path base name = .error (.inl problem)) ↔
      Escapes base (completeName (trimmedName name))
        (base.follow (Path.steps (completeName (trimmedName name)))) := by
  rw [path_eq base clean, Escapes]
  split
  · rename_i away
    exact ⟨fun _ => or_assoc.mp (.inl away), fun _ => ⟨_, rfl⟩⟩
  · rename_i near
    split
    · rename_i below
      constructor
      · rintro ⟨_, ⟨⟩⟩
      · intro escapes
        obtain away | outside := or_assoc.mpr escapes
        · exact absurd away near
        · exact absurd below outside
    · rename_i outside
      exact ⟨fun _ => .inr (.inr outside), fun _ => ⟨_, rfl⟩⟩

theorem path_stays (base : Path) {name : Option String} (clean : '\x00' ∉ (name.getD "").toList)
    (stays : ¬ Escapes base (completeName (trimmedName name))
      (base.follow (Path.steps (completeName (trimmedName name))))) :
    path base name = .ok (base.follow (Path.steps (completeName (trimmedName name)))) ∧
      base <+: base.follow (Path.steps (completeName (trimmedName name))) := by
  rw [Escapes, ← or_assoc, not_or, Decidable.not_not] at stays
  obtain ⟨near, below⟩ := stays
  rw [path_eq base clean, if_neg near, if_pos below]
  exact ⟨rfl, below⟩

/-- What only starts with the same letters as the base directory lies outside. -/
theorem sibling_outside {above rest : Path} {directory more : String} (longer : more ≠ "") :
    ¬ above ++ [directory] <+: above ++ (directory ++ more) :: rest := by
  rw [List.prefix_append_right_inj, List.cons_prefix_cons]
  rintro ⟨same, -⟩
  have letters : directory.toList = directory.toList ++ more.toList := by
    rw [← String.toList_append, ← same]
  exact longer (String.toList_eq_nil_iff.mp (List.self_eq_append_right.mp letters))

/-- State files are confined to the base directory. The complete name, after the base, has one normal
form. A name is refused where it starts from the root or from a home directory, or where its
normal form lies outside the base directory, such as in a directory beside it whose name only starts
with the name of the base. Any other name leads to its normal form. -/
theorem path_confined {base : Path} (normal : Path.Normal base) {name : Option String}
    (clean : '\x00' ∉ (name.getD "").toList) :
    ∃ arrived : Path,
      (∀ other, Path.Normalizes (base ++ Path.steps (completeName (trimmedName name))) other ↔
        other = arrived) ∧
      ((∃ problem, path base name = .error (.inl problem)) ↔
        Escapes base (completeName (trimmedName name)) arrived) ∧
      (¬ Escapes base (completeName (trimmedName name)) arrived →
        path base name = .ok arrived ∧ Confined base arrived) ∧
      ∀ above directory more rest, base = above ++ [directory] → more ≠ "" →
        arrived = above ++ (directory ++ more) :: rest →
          ∃ problem, path base name = .error (.inl problem) := by
  have flat := Path.steps_flat (completeName (trimmedName name))
  refine ⟨base.follow (Path.steps (completeName (trimmedName name))),
    fun other => Path.normalizes_iff_follow normal flat, path_escapes base clean, ?_, ?_⟩
  · intro stays
    obtain ⟨done, below⟩ := path_stays base clean stays
    exact ⟨done, {
      normal := (Path.normalizes_follow normal flat).2
      below := below
      ended := follow_completeName_ends base (trimmedName name) }⟩
  · rintro above directory more rest rfl longer beside
    refine (path_escapes _ clean).mpr (.inr (.inr ?_))
    rw [beside]
    exact sibling_outside longer

theorem normal_home : Path.Normal ["home", "user"] := by
  intro name mem
  have listed : name = "home" ∨ name = "user" := by simpa using mem
  obtain rfl | rfl := listed
  · exact ⟨by decide, by decide, by decide, by decide⟩
  · exact ⟨by decide, by decide, by decide, by decide⟩

/-- A name may leave the base directory and come back. -/
theorem path_confined_return :
    path ["home", "user"] (some "../user/work ") = .ok ["home", "user", "work.ecj"] ∧
      Confined ["home", "user"] ["home", "user", "work.ecj"] := by
  have complete : completeName (trimmedName (some "../user/work ")) = "../user/work.ecj" := by
    have bare : ¬ (trimmedName (some "../user/work ")).endsWith ending = true := by
      rw [endsWith_iff]
      decide
    rw [completeName, if_neg bare]
    decide
  obtain ⟨arrived, form, -, stays, -⟩ :=
    path_confined normal_home (by decide : '\x00' ∉ ((some "../user/work ").getD "").toList)
  rw [complete] at form stays
  have leads : ["home", "user", "work.ecj"] = arrived := by
    rw [← ((form arrived).mpr rfl).follow]
    decide
  subst leads
  exact stays (by decide)

end StateFile
end Calculator
