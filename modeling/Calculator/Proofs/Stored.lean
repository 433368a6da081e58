import Calculator.Proofs.RunnerTables
import Mathlib.Data.List.Forall2

/-!
# Calculator.Proofs.Stored

What a runner holds that has been given lines without line boundaries, and what it means that one
runner holds what another does.

* `edit_once`: every edit keeps names distinct.
* `edit_stored`: every edit keeps functions and variables such that a line can define them again,
  each name once.
* `Sound.lookupFunction_perm`, `Sound.lookupVariable_same`: the order of definitions does not matter
  to what names stand for.
-/

namespace Calculator

namespace Table

variable {α : Type}

theorem find?_eq_some {key : String} {entry : Entry α} {table : Table α}
    (nodup : (table.map (·.1)).Nodup) : table.find? key = some entry ↔ (key, entry) ∈ table := by
  refine ⟨find?_mem, ?_⟩
  intro mem
  induction table with
  | nil => cases mem
  | cons e rest ih =>
    obtain ⟨other, old⟩ := e
    obtain ⟨new, later⟩ := List.nodup_cons.mp nodup
    obtain same | inside := List.mem_cons.mp mem
    · cases same
      rw [find?, if_pos rfl]
    · have ne : other ≠ key := by
        intro same
        rw [same] at new
        exact new (List.mem_map.mpr ⟨(key, entry), inside, rfl⟩)
      rw [find?, if_neg ne, ih later inside]

/-- The order of a table does not matter where each name occurs once. -/
theorem find?_perm {first second : Table α} (perm : first.Perm second)
    (nodup : (first.map (·.1)).Nodup) (key : String) : first.find? key = second.find? key := by
  have nodup' : (second.map (·.1)).Nodup := (perm.map _).nodup_iff.mp nodup
  apply Option.ext
  intro entry
  rw [find?_eq_some nodup, find?_eq_some nodup', perm.mem_iff]

theorem find?_ofList_perm {β : Type} (value : α → β) {first second : List (String × α)}
    (perm : first.Perm second) (nodup : (first.map (·.1)).Nodup) (key : String) :
    (ofList value first).find? key = (ofList value second).find? key := by
  have names : ((ofList value first).map (·.1)).Nodup := by
    rw [keys_ofList]
    exact nodup
  exact find?_perm (perm.map _) names key

end Table

namespace Runner

/-! ## Names -/

/-- The user has defined each name once. -/
structure Once (r : Runner) : Prop where
  functions : (r.functions.map (·.1)).Nodup
  vars : (r.vars.map (·.1)).Nodup

theorem edit_once {allowed : String → Prop} {r r' : Runner} (h : r.Once) (edit : Edit allowed r r') :
    r'.Once := by
  cases edit with
  | display session lastFailure printer running => exact ⟨h.functions, h.vars⟩
  | context ctx => exact ⟨h.functions, h.vars⟩
  | answer value => exact ⟨h.functions, h.vars⟩
  | defineFunction fine read given foreign => exact ⟨nodup_assign h.functions, h.vars⟩
  | defineVariable fine read given finite fixed => exact ⟨h.functions, nodup_assign h.vars⟩
  | undefineFunction there => exact ⟨nodup_unassign h.functions, h.vars⟩
  | undefineVariable there => exact ⟨h.functions, nodup_unassign h.vars⟩

theorem edits_once {allowed : String → Prop} {r r' : Runner} (h : r.Once)
    (edits : Edits allowed r r') : r'.Once := by
  induction edits with
  | refl => exact h
  | tail _ edit ih => exact edit_once ih edit

/-! ## Stored definitions -/

/-- What the user has defined can be written, and each name is written once. -/
structure Stored (r : Runner) : Prop where
  functions : ∀ e ∈ r.functions,
    e.1 = e.2.name ∧ e.2.Storable ∧ e.2.scope = some r.environment
  vars : ∀ e ∈ r.vars, Label .variableName e.1.toList ∧ e.2.isFinite = true
  functionNames : (r.functions.map (·.1)).Nodup
  variableNames : (r.vars.map (·.1)).Nodup

section

variable {allowed : String → Prop} {r r' : Runner}

theorem edit_environment (edit : Edit allowed r r') : r'.environment = r.environment := by
  cases edit <;> rfl

/-- What holds of the functions that allowed texts define holds of all. -/
theorem edit_functions {P : String × UserFunction → Prop} (h : ∀ e ∈ r.functions, P e)
    (new : ∀ {text d parameters}, allowed text → Definition.parse text = .ok d →
      d.parameters = some parameters →
        P (d.name, d.function parameters (some r.environment)))
    (edit : Edit allowed r r') : ∀ e ∈ r'.functions, P e := by
  cases edit with
  | defineFunction fine read given foreign =>
    intro e mem
    obtain rfl | before := mem_assign mem
    · exact new fine read given
    · exact h e before
  | undefineFunction there => exact fun e mem => h e (mem_unassign mem)
  | _ => exact h

/-- What the user has defined as a variable has a name and a value that can be written. -/
theorem edit_variables
    (h : ∀ e ∈ r.vars, Label .variableName e.1.toList ∧ e.2.isFinite = true)
    (edit : Edit allowed r r') :
    ∀ e ∈ r'.vars, Label .variableName e.1.toList ∧ e.2.isFinite = true := by
  cases edit with
  | defineVariable fine read given finite fixed =>
    intro e mem
    obtain rfl | before := mem_assign mem
    · exact ⟨parse_variableName read given, finite⟩
    · exact h e before
  | undefineVariable there => exact fun e mem => h e (mem_unassign mem)
  | _ => exact h

end

/-- Every edit whose definition stands on one line keeps what is stored. -/
theorem edit_stored {r r' : Runner} (h : r.Stored)
    (edit : Edit (fun text => Unbroken text.toList) r r') : r'.Stored := by
  obtain ⟨functionNames, variableNames⟩ := edit_once ⟨h.functionNames, h.variableNames⟩ edit
  refine ⟨?_, edit_variables h.vars edit, functionNames, variableNames⟩
  rw [edit_environment edit]
  exact edit_functions h.functions
    (fun fine read given => ⟨rfl, parse_storable _ fine read given, rfl⟩) edit

theorem edits_stored {r r' : Runner} (h : r.Stored)
    (edits : Edits (fun text => Unbroken text.toList) r r') : r'.Stored := by
  induction edits with
  | refl => exact h
  | tail _ edit ih => exact edit_stored ih edit

theorem standard_stored {settings : Settings} {base : Path} {seed : Nat} {r : Runner}
    (h : standard settings base seed = .ok r) : r.Stored := by
  obtain ⟨ctx, printer, rfl⟩ := standard_eq_ok h
  exact ⟨nofun, nofun, List.nodup_nil, List.nodup_nil⟩

/-! ## Equal definitions -/

/-- Variables of one name and of one value, however it is written. -/
def SameVariable (new old : String × Decimal) : Prop :=
  new.1 = old.1 ∧ new.2.sameValue old.2 = true

theorem find?_same {new old : List (String × Decimal)} (h : List.Forall₂ SameVariable new old)
    (name : String) : Option.Rel (fun v w => Variable.same v w = true)
      (((Table.ofList .fixed new).find? name).bind Entry.visible?)
      (((Table.ofList .fixed old).find? name).bind Entry.visible?) := by
  induction h with
  | nil => exact .none
  | @cons a b new old here _ ih =>
    obtain ⟨key, value⟩ := a
    obtain ⟨key', value'⟩ := b
    obtain ⟨rfl, same⟩ := here
    by_cases found : key = name
    · simp only [Table.ofList, List.map_cons, Table.find?, found, if_true]
      exact .some same
    · simp only [Table.ofList, List.map_cons, Table.find?, found, if_false]
      exact ih

section

variable {settings settings' : Settings} {base base' : Path} {r r' : Runner}

/-- Functions in another order are found under the same names. -/
theorem Sound.lookupFunction_perm (h : Sound settings base r) (h' : Sound settings' base' r')
    (perm : r'.functions.Perm r.functions) (nodup : (r'.functions.map (·.1)).Nodup)
    (name : String) : r'.lookup .functions name = r.lookup .functions name := by
  rw [h.lookupFunction, h'.lookupFunction, Table.find?_ofList_perm Function.user perm nodup]

/-- Variables in another order and in other forms are found under the same names. -/
theorem Sound.lookupVariable_same (h : Sound settings base r) (h' : Sound settings' base' r')
    {vars : List (String × Decimal)} (perm : r'.vars.Perm vars)
    (same : List.Forall₂ SameVariable vars r.vars) (nodup : (r'.vars.map (·.1)).Nodup)
    (name : String) : Option.Rel (fun v w => Variable.same v w = true)
      (r'.lookup .vars name) (r.lookup .vars name) := by
  by_cases listed : name ∈ standardEnvironment.vars.map (·.1)
  · obtain ⟨v, found, native⟩ := standardVariable_value listed
    rw [h.lookupVariable, h'.lookupVariable, found]
    cases v with
    | fixed value => cases native
    | constant value => exact .some (beq_self_eq_true _)
    | clock => exact .some (beq_self_eq_true _)
    | answer register => exact .some (beq_self_eq_true _)
  · rw [h.lookupVariable, h'.lookupVariable, Table.find?_eq_none.mpr listed, Option.none_or,
      Option.none_or, Table.find?_ofList_perm Variable.fixed perm nodup]
    exact find?_same same name

/-- A runner in which everything stands that the user has defined in another one. -/
structure Restores (new old : Runner) : Prop where
  functions : new.functions.Perm old.functions
  vars : ∃ vars, new.vars.Perm vars ∧ List.Forall₂ SameVariable vars old.vars
  lookupFunction : ∀ name, new.lookup .functions name = old.lookup .functions name
  lookupVariable : ∀ name, Option.Rel (fun v w => Variable.same v w = true)
    (new.lookup .vars name) (old.lookup .vars name)

theorem Sound.restores (h : Sound settings base r) (h' : Sound settings' base' r')
    (stored : r.Stored) {vars : List (String × Decimal)} (functions : r'.functions.Perm r.functions)
    (perm : r'.vars.Perm vars) (same : List.Forall₂ SameVariable vars r.vars) :
    Restores r' r := by
  have functionNames : (r'.functions.map (·.1)).Nodup :=
    (functions.map _).nodup_iff.mpr stored.functionNames
  have names : vars.map (·.1) = r.vars.map (·.1) :=
    List.forall₂_eq_eq_eq ▸ List.forall₂_map_left_iff.mpr
      (List.forall₂_map_right_iff.mpr (same.imp fun _ _ h => h.1))
  have variableNames : (r'.vars.map (·.1)).Nodup := by
    rw [(perm.map _).nodup_iff, names]
    exact stored.variableNames
  exact ⟨functions, ⟨vars, perm, same⟩, h.lookupFunction_perm h' functions functionNames,
    h.lookupVariable_same h' perm same variableNames⟩

end

end Runner
end Calculator
