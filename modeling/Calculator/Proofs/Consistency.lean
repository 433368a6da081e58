import Calculator.Proofs.Lines
import Calculator.Proofs.Stored

/-!
# Calculator.Proofs.Consistency

What a runner shows after any lines: the names of the standard library and those that the user has
defined, apart from each other, and as the last answer the value of the last expression that had one.

* `Consistent`: the environment of a runner holds its contents, the standard library and its own
  lists, and nothing else.
* `Sound.consistent`: it does so where the tables are those of the library and of the lists.
* `Course.answerValue`: the last answer along a course of lines.
* `course_consistent`: both, for every course of lines from the first runner on.
-/

namespace Calculator

namespace Table

variable {α β : Type}

/-- A table that only gives values to new names adds these names, in their order. -/
theorem override_ofList (value : α → β) (entries : List (String × α)) : ∀ below : List String,
    (below ++ entries.map (·.1)).Nodup →
      override below (ofList value entries) = below ++ entries.map (·.1) := by
  induction entries with
  | nil => exact fun below _ => (List.append_nil below).symm
  | cons e rest ih =>
    obtain ⟨key, a⟩ := e
    intro below nodup
    have foreign : below.contains key = false := by
      have apart := (List.nodup_append.mp nodup).2.2
      have new : key ∉ below := fun mem => apart key mem key (List.mem_cons_self ..) rfl
      simpa using new
    have next : (below ++ [key] ++ rest.map (·.1)).Nodup := by simpa using nodup
    have later := ih (below ++ [key]) next
    rw [List.append_assoc] at later
    rw [ofList, List.map_cons, override, foreign]
    exact later

theorem find?_ofList {value : α → β} {entries : List (String × α)} {key : String} {b : β}
    (once : (entries.map (·.1)).Nodup) :
    ((ofList value entries).find? key).bind Entry.visible? = some b ↔
      ∃ a, (key, a) ∈ entries ∧ value a = b := by
  have names : ((ofList value entries).map (·.1)).Nodup := by rwa [keys_ofList]
  constructor
  · intro found
    obtain ⟨entry, listed, visible⟩ := Option.bind_eq_some_iff.mp found
    obtain ⟨e, mem, same⟩ := List.mem_map.mp (find?_mem listed)
    cases same
    exact ⟨e.2, mem, Option.some.inj visible⟩
  · rintro ⟨a, mem, rfl⟩
    have listed : (key, .value (value a)) ∈ ofList value entries :=
      List.mem_map.mpr ⟨(key, a), mem, rfl⟩
    rw [(find?_eq_some names).mpr listed]
    rfl

end Table

namespace Runner

/-! ## Consistent runners -/

/-- The standard library with the runner's register for the last answer. -/
def library (r : Runner) : Library := .standard (.answer r.answer)

/-- What the environment of a runner should hold: the standard library, and what the user has
defined. -/
def contents (r : Runner) : (kind : Kind) → List (String × kind.Value)
  | .operators => r.library.operators.map fun binding => (binding.symbol, binding)
  | .functions => r.library.functions ++ r.functions.map fun (name, f) => (name, .user f)
  | .vars => r.library.vars ++ r.vars.map fun (name, value) => (name, .fixed value)

/-- The environment of a runner holds its contents and nothing else, each under a name of its own. -/
structure Consistent (r : Runner) : Prop where
  lookup : ∀ kind name value, r.lookup kind name = some value ↔ (name, value) ∈ r.contents kind
  names : ∀ kind, r.family.names r.environment kind = (r.contents kind).map (·.1)
  once : ∀ kind, ((r.contents kind).map (·.1)).Nodup

section

variable {settings : Settings} {base : Path} {r : Runner} {options : Options}

theorem tables_contents (answer : r.answer = 0) (kind : Kind) :
    (r.tables options).table kind = Table.ofList id (r.contents kind) := by
  cases kind with
  | operators => rfl
  | functions =>
    simp only [contents, Table.ofList, List.map_append, List.map_map]
    rfl
  | vars =>
    simp only [contents, library, answer, Table.ofList, List.map_append, List.map_map]
    rfl

/-- The names in an environment that lies over no other are those of its table. -/
theorem names_tables (environment : r.environment = 0)
    (members : r.family.members = #[r.tables options]) (kind : Kind) :
    r.family.names r.environment kind = Table.override [] ((r.tables options).table kind) := by
  have here : r.family.environment 0 = r.tables options := by
    simp [Family.environment, members]
  have alone : (r.tables options).lineage = [] := rfl
  rw [environment, Family.names, Family.layers, here, alone, Family.namesIn, Family.namesIn, here]

theorem Sound.once_contents (h : Sound settings base r) (once : r.Once) (kind : Kind) :
    ((r.contents kind).map (·.1)).Nodup := by
  cases kind with
  | operators =>
    rw [contents, List.map_map]
    exact (by decide : (Operators.all.map (·.symbol)).Nodup)
  | functions =>
    have names : (r.contents .functions).map (·.1) =
        standardEnvironment.functions.map (·.1) ++ r.functions.map (·.1) := by
      simp only [contents, List.map_append, List.map_map]
      rfl
    rw [names, List.nodup_append]
    refine ⟨by decide, once.functions, ?_⟩
    rintro name listed _ user rfl
    exact h.functions name user listed
  | vars =>
    have names : (r.contents .vars).map (·.1) =
        standardEnvironment.vars.map (·.1) ++ r.vars.map (·.1) := by
      simp only [contents, List.map_append, List.map_map]
      rfl
    rw [names, List.nodup_append]
    refine ⟨by decide, once.vars, ?_⟩
    rintro name listed _ user rfl
    exact h.vars name user listed

theorem Sound.consistent (h : Sound settings base r) (once : r.Once) : r.Consistent := by
  obtain ⟨ctx, members⟩ := h.members
  have alone := h.once_contents once
  refine ⟨?_, ?_, alone⟩
  · intro kind name value
    rw [lookup_tables h.environment members, tables_contents h.answer,
      Table.find?_ofList (alone kind)]
    exact ⟨fun ⟨_, mem, same⟩ => same ▸ mem, fun mem => ⟨value, mem, rfl⟩⟩
  · intro kind
    rw [names_tables h.environment members, tables_contents h.answer]
    exact Table.override_ofList id _ [] (alone kind)

/-! ## The last answer -/

/-- The last answer after a line is its value, if it has one. -/
theorem Sound.answerValue_line (h : Sound settings base r) {setting : Setting}
    {line : Option String} {exchanges : List Exchange} {outcome : Runner × LineResult}
    (ends : (handle setting line r).Ends exchanges outcome) :
    outcome.1.answerValue = outcome.2.value.getD r.answerValue := by
  have answer : outcome.1.answer = r.answer := by
    rw [(edits_sound h (handle_edits ends)).answer, h.answer]
  rw [Runner.answerValue, Runner.answerValue, answer, (handle_value ends).2]
  cases outcome.2.value with
  | none => rfl
  | some value => simp [Family.setAnswer, h.answer, h.answers]

/-- The values of lines, in their order. -/
def valuesOf (handlings : List Handling) : List Decimal := handlings.filterMap (·.result.value)

/-- The last answer is the value of the last line that has one, or what it was before. -/
theorem Course.answerValue {last : Runner} {handlings : List Handling}
    (h : Sound settings base r) (course : Course r handlings last) :
    last.answerValue = (valuesOf handlings).getLast?.getD r.answerValue := by
  induction course with
  | nil r => rfl
  | @cons r next last handling rest ends later ih =>
    rw [ih (edits_sound h (handle_edits ends)), h.answerValue_line ends]
    simp only [valuesOf, List.filterMap_cons]
    cases handling.result.value with
    | none => rfl
    | some v =>
      rw [List.getLast?_cons]
      rfl

theorem Course.values {last : Runner} {handlings : List Handling}
    (course : Course r handlings last) : ∀ handling ∈ handlings,
      (handling.result.value.isSome = true ↔
        isExpression handling.line = true ∧ handling.result.failure = none) := by
  induction course with
  | nil r => exact List.forall_mem_nil _
  | cons ends later ih =>
    have here := (handle_value ends).1
    exact List.forall_mem_cons.mpr ⟨here, ih⟩

end

/-! ## From the first runner on -/

/-- After any lines, succeeding or failing, the environment holds the standard library and what the
user has defined, and the last answer, in its own register, is the value of the last expression that
had one, or zero before the first. -/
theorem course_consistent {settings : Settings} {base : Path} {seed : Nat} {start r : Runner}
    {handlings : List Handling} (created : standard settings base seed = .ok start)
    (course : Course start handlings r) :
    r.Consistent ∧ r.answer = start.answer ∧
      r.answerValue = (valuesOf handlings).getLast?.getD .zero ∧
      ∀ handling ∈ handlings, (handling.result.value.isSome = true ↔
        isExpression handling.line = true ∧ handling.result.failure = none) := by
  have first := standard_sound created
  have sound := edits_sound first course.edits
  have zero : start.answerValue = .zero ∧ start.Once := by
    obtain ⟨ctx, printer, rfl⟩ := standard_eq_ok created
    exact ⟨rfl, List.nodup_nil, List.nodup_nil⟩
  have once := edits_once zero.2 course.edits
  refine ⟨sound.consistent once, sound.answer.trans first.answer.symm, ?_, course.values⟩
  rw [← zero.1]
  exact course.answerValue first

/-- A runner in which a function has been defined and called, before a line that fails. -/
def calledRunner : Runner :=
  handleLines ⟨0, false⟩ ⟨["home"], [], []⟩ [":define f(x) = x + 1", "f(2)", "1 / 0"]
    (usual ["home"] 0)

theorem course_consistent_sample : standard {} ["home"] 0 = .ok (usual ["home"] 0) ∧
    calledRunner.functions.map (·.1) = ["f"] ∧ calledRunner.answerValue = .ofInt 3 ∧
    ∃ handlings, Course (usual ["home"] 0) handlings calledRunner ∧ calledRunner.Consistent ∧
      (valuesOf handlings).getLast?.getD .zero = .ofInt 3 := by
  obtain ⟨handlings, course⟩ := course_handleLines ⟨0, false⟩
    [":define f(x) = x + 1", "f(2)", "1 / 0"] ⟨["home"], [], []⟩ (usual ["home"] 0)
  obtain ⟨consistent, -, last, -⟩ := course_consistent (standard_usual ["home"] 0) course
  have value : calledRunner.answerValue = .ofInt 3 := by decide +kernel
  exact ⟨standard_usual ["home"] 0, by decide +kernel, value, handlings, course, consistent,
    last.symm.trans value⟩

end Runner
end Calculator
