import Calculator.Proofs.Lines
import Calculator.Proofs.Loading

/-!
# Calculator.Proofs.SaveLoad

Saving what a user has defined, and loading it into a fresh runner.

* `save_ends`: what a save that succeeds has written.
* `load_items`: how a file whose lines are those of items is loaded.
* `save_load`: a saved state file is loaded, and what is loaded is what was saved.
-/

namespace Calculator
namespace Runner

open StateFile

/-! ## Saving -/

section

variable {settings : Settings} {base : Path} {setting : Setting} {name : String}

/-- What a runner writes to its state file. -/
def stateText (r : Runner) : String := StateFile.format (r.functions.map (·.2)) r.vars

/-- The path of a state file is a matter of the settings. -/
theorem Sound.statePath_eq {r r' : Runner} (h : Sound settings base r)
    (h' : Sound settings base r') (name : String) : r'.statePath name = r.statePath name := by
  unfold statePath
  rw [h.base, h'.base, h.stateFile, h'.stateFile]

/-- A save that succeeds has written one file. -/
theorem save_ends {r : Runner} {exchanges : List Exchange} {outcome : Runner × LineResult}
    (ends : (save setting name r).Ends exchanges outcome) (fine : outcome.2.failure = none) :
    ∃ path, r.statePath name = .ok path ∧ exchanges = [.write path r.stateText true] := by
  unfold save at ends
  cases found : r.statePath name with
  | error failure =>
    simp only [found] at ends
    cases ends
    cases fine
  | ok path =>
    simp only [found] at ends
    cases ends with
    | write isWritten ends =>
      cases isWritten with
      | false =>
        cases ends
        cases fine
      | true =>
        cases ends
        exact ⟨path, rfl, rfl⟩

theorem save_succeeds {r : Runner} {path : Path} (found : r.statePath name = .ok path) :
    ∃ outcome, (save setting name r).Ends [.write path r.stateText true] outcome ∧
      outcome.2.failure = none := by
  unfold save
  simp only [found]
  exact ⟨_, .write true (.done _), rfl⟩

/-! ## Loading -/

/-- The items that a runner saves. -/
def items (r : Runner) : List Item :=
  r.functions.map (fun e => .function e.2) ++ r.vars.map .var

theorem items_lines (r : Runner) : r.items.map Item.line =
    (r.functions.map (·.2)).map (·.definitionLine) ++ r.vars.map variableLine := by
  simp only [items, List.map_append, List.map_map]
  rfl

theorem items_vars (r : Runner) :
    r.items.flatMap Item.vars = r.vars.map fun e => (e.1, e.2.reread) := by
  have functions : (r.functions.map fun e => Item.function e.2).flatMap Item.vars = [] := by
    rw [List.flatMap_map]
    exact List.flatMap_eq_nil_iff.mpr fun _ _ => rfl
  rw [items, List.flatMap_append, functions, List.nil_append, List.flatMap_map]
  exact List.map_eq_flatMap.symm

theorem Stored.items_functions {r : Runner} (h : r.Stored) :
    r.items.flatMap Item.functions = r.functions := by
  have vars : (r.vars.map Item.var).flatMap Item.functions = [] := by
    rw [List.flatMap_map]
    exact List.flatMap_eq_nil_iff.mpr fun _ _ => rfl
  rw [items, List.flatMap_append, vars, List.append_nil, List.flatMap_map]
  have same : r.functions.flatMap (fun e => Item.functions (.function e.2)) =
      r.functions.flatMap (fun e => [e]) := by
    apply List.flatMap_congr
    intro e mem
    obtain ⟨key, f⟩ := e
    obtain ⟨named, -, -⟩ := h.functions _ mem
    rw [Item.functions, ← named]
  rw [same]
  exact List.flatMap_singleton' _

/-- What a runner holds can be defined in one that holds nothing, in every order. -/
theorem Stored.anew {r empty : Runner} (h : r.Stored) (sound : Sound settings base r)
    (functions : empty.functions = []) (vars : empty.vars = []) {items : List Item}
    (perm : items.Perm r.items) : Anew empty items := by
  refine ⟨?_, ?_, ?_⟩
  · intro item mem
    obtain inFunctions | inVars := List.mem_append.mp (perm.mem_iff.mp mem)
    · obtain ⟨e, stored, rfl⟩ := List.mem_map.mp inFunctions
      obtain ⟨named, storable, scope⟩ := h.functions e stored
      have foreign := sound.functions e.1 (List.mem_map_of_mem stored)
      rw [sound.environment] at scope
      rw [named] at foreign
      exact ⟨storable, scope, foreign⟩
    · obtain ⟨e, stored, rfl⟩ := List.mem_map.mp inVars
      obtain ⟨label, finite⟩ := h.vars e stored
      exact ⟨label, finite, sound.vars e.1 (List.mem_map_of_mem stored)⟩
  · have listed := (perm.flatMap_right Item.functions).map (·.1)
    rw [functions, List.nil_append, listed.nodup_iff, h.items_functions]
    exact h.functionNames
  · have listed := (perm.flatMap_right Item.vars).map (·.1)
    rw [vars, List.nil_append, listed.nodup_iff, items_vars, List.map_map]
    exact h.variableNames

/-- A file whose lines are those of items is loaded, and defines them. -/
theorem load_items {r : Runner} {items : List Item} {path : Path} {text : String}
    (h : Sound settings base r) (deep : 1 ≤ settings.maxDepth) (anew : Anew r items)
    (found : r.statePath name = .ok path)
    (same : (definitions text).map (·.2) = items.map Item.line) :
    ∃ outcome, (load setting name r).Ends [.read path.text (.ok text)] outcome ∧
      outcome.2.failure = none ∧ Extended settings base items r outcome.1 := by
  obtain ⟨r', run, extended⟩ := @defineAll_items _ _ setting deep items _ r same h anew
  unfold load
  simp only [found]
  refine ⟨_, .read _ (.done _), ?_⟩
  rw [printing, bind_apply, bind_apply, run]
  exact ⟨rfl, extended⟩

/-- A file with the lines of a saved one, in whatever order, has its items. -/
theorem Stored.items_of_lines {r : Runner} (h : r.Stored) {text : String}
    (perm : (fileLines text).Perm (fileLines r.stateText)) :
    ∃ items : List Item, items.Perm r.items ∧ (definitions text).map (·.2) = items.map Item.line ∧
      (text = r.stateText → items = r.items) := by
  have functions : ∀ f ∈ r.functions.map (·.2), f.Storable := by
    intro f mem
    obtain ⟨e, stored, rfl⟩ := List.mem_map.mp mem
    exact (h.functions e stored).2.1
  have saved : (definitions r.stateText).map (·.2) = r.items.map Item.line := by
    rw [items_lines]
    exact definitions_format functions h.vars
  by_cases same : text = r.stateText
  · subst same
    exact ⟨r.items, .refl _, saved, fun _ => rfl⟩
  · have listed := perm.filterMap definitionOn?
    rw [← definitions_lines, ← definitions_lines, saved] at listed
    have lines : List.Forall₂ (fun line item => line = Item.line item) (r.items.map Item.line)
        r.items := List.forall₂_map_left_iff.mpr (List.forall₂_same.mpr fun _ _ => rfl)
    obtain ⟨items, written, perm'⟩ := List.perm_comp_forall₂ listed lines
    refine ⟨items, perm', ?_, fun whole => absurd whole same⟩
    exact List.forall₂_eq_eq_eq ▸ List.forall₂_map_right_iff.mpr written

theorem reread_same {r : Runner} (h : r.Stored) :
    List.Forall₂ SameVariable (r.vars.map fun e => (e.1, e.2.reread)) r.vars :=
  List.forall₂_map_left_iff.mpr (List.forall₂_same.mpr fun e mem =>
    ⟨rfl, Decimal.reread_sameValue (h.vars e mem).2⟩)

/-- Variables that have been read again are written as before. -/
theorem Stored.stateText_eq {r r' : Runner} (h : r.Stored) (functions : r'.functions = r.functions)
    (vars : r'.vars = r.vars.map fun e => (e.1, e.2.reread)) : r'.stateText = r.stateText := by
  have lines : (r.vars.map fun e => (e.1, e.2.reread)).map variableLine = r.vars.map variableLine := by
    rw [List.map_map]
    apply List.map_congr_left
    intro e mem
    rw [Function.comp, variableLine, Decimal.reread_toPlain (h.vars e mem).2]
    rfl
  apply String.toList_inj.mp
  rw [stateText, stateText, format_toList, format_toList, stateLines, stateLines, functions, vars,
    lines]

theorem Sound.cleared {r : Runner} (h : Sound settings base r) : Sound settings base r.cleared :=
  h.display _ r.lastFailure r.printer r.running

/-- A saved file, its lines in whatever order, is loaded into a runner that holds nothing. -/
theorem load_saved {r empty : Runner} {path : Path} {text : String} (sound : Sound settings base r)
    (stored : r.Stored) (sound' : Sound settings base empty) (noFunctions : empty.functions = [])
    (noVars : empty.vars = []) (deep : 1 ≤ settings.maxDepth)
    (found : empty.statePath name = .ok path)
    (perm : (fileLines text).Perm (fileLines r.stateText)) :
    ∃ loaded, (load setting name empty).Ends [.read path.text (.ok text)] loaded ∧
      loaded.2.failure = none ∧ Sound settings base loaded.1 ∧ Restores loaded.1 r ∧
      (text = r.stateText → loaded.1.functions = r.functions ∧
        loaded.1.vars = r.vars.map fun e => (e.1, e.2.reread)) := by
  obtain ⟨items, permuted, lines, whole⟩ := stored.items_of_lines perm
  have anew : Anew empty items := stored.anew sound noFunctions noVars permuted
  obtain ⟨loaded, run, succeeded, extended⟩ :=
    @load_items _ _ setting _ _ items path text sound' deep anew found lines
  have functions : loaded.1.functions = items.flatMap Item.functions := by
    rw [extended.functions, noFunctions, List.nil_append]
  have vars : loaded.1.vars = items.flatMap Item.vars := by
    rw [extended.vars, noVars, List.nil_append]
  refine ⟨loaded, run, succeeded, extended.sound, ?_, ?_⟩
  · have restored : loaded.1.functions.Perm r.functions := by
      rw [functions, ← stored.items_functions]
      exact permuted.flatMap_right _
    have restoredVars : loaded.1.vars.Perm (r.vars.map fun e => (e.1, e.2.reread)) := by
      rw [vars, ← items_vars]
      exact permuted.flatMap_right _
    exact sound.restores extended.sound stored restored restoredVars (reread_same stored)
  · intro same
    rw [functions, vars, whole same, stored.items_functions, items_vars]
    exact ⟨rfl, rfl⟩

end

/-- A state file that was saved after a sequence of lines is loaded into a fresh runner, in whatever
context, and restores what the user had defined. Its lines may be in any order; where they are in
the order in which they were saved, so are the definitions, and they are saved as before. -/
theorem save_load {settings : Settings} {base : Path} {seed : Nat} {start r : Runner}
    {setting : Setting} {name : String} {exchanges : List Exchange} {saved : Runner × LineResult}
    (created : standard settings base seed = .ok start) (deep : 1 ≤ settings.maxDepth)
    (reached : Reached (fun line => Unbroken line.toList) start r)
    (ends : (handle setting (some (":save " ++ name)) r).Ends exchanges saved)
    (fine : saved.2.failure = none) :
    ∃ path text, exchanges = [.write path text true] ∧
      ∀ (seed' : Nat) (fresh : Runner) (ctx : Context) (setting' : Setting) (text' : String),
        standard settings base seed' = .ok fresh →
        (fileLines text').Perm (fileLines text) →
        ∃ loaded, (handle setting' (some (":load " ++ name)) (fresh.withContext ctx)).Ends
            [.read path.text (.ok text')] loaded ∧
          loaded.2.failure = none ∧
          Restores loaded.1 r ∧
          (text' = text →
            loaded.1.functions = r.functions ∧
            List.Forall₂ SameVariable loaded.1.vars r.vars ∧
            ∀ setting'' : Setting, ∃ again,
              (handle setting'' (some (":save " ++ name)) loaded.1).Ends [.write path text true] again ∧
              again.2.failure = none) := by
  have sound := edits_sound (standard_sound created) reached.edits
  have stored := edits_stored (standard_stored created) reached.edits
  rw [handle_save] at ends
  obtain ⟨path, found, written⟩ := save_ends ends fine
  refine ⟨path, r.stateText, written, ?_⟩
  intro seed' fresh ctx setting' text' created' perm
  let empty := (fresh.withContext ctx).cleared
  have nothing : empty.functions = [] ∧ empty.vars = [] := by
    obtain ⟨ctx', printer, rfl⟩ := standard_eq_ok created'
    exact ⟨rfl, rfl⟩
  have sound' : Sound settings base empty := ((standard_sound created').withContext ctx).cleared
  have found' : empty.statePath (trimString name) = .ok path := by
    rw [← found]
    exact sound.cleared.statePath_eq sound' _
  obtain ⟨loaded, run, succeeded, soundLoaded, restores, whole⟩ :=
    @load_saved _ _ setting' _ _ _ _ text' sound stored sound' nothing.1 nothing.2 deep found' perm
  refine ⟨loaded, ?_, succeeded, restores, ?_⟩
  · rw [handle_load]
    exact run
  · intro same
    obtain ⟨functions, vars⟩ := whole same
    refine ⟨functions, ?_, ?_⟩
    · rw [vars]
      exact reread_same stored
    · intro setting''
      have foundAgain : loaded.1.cleared.statePath (trimString name) = .ok path := by
        rw [← found]
        exact sound.cleared.statePath_eq soundLoaded.cleared _
      obtain ⟨again, second, succeeded'⟩ := @save_succeeds setting'' _ _ _ foundAgain
      have text : loaded.1.cleared.stateText = r.stateText := stored.stateText_eq functions vars
      rw [text] at second
      refine ⟨again, ?_, succeeded'⟩
      rw [handle_save]
      exact second

/-- A runner in which a function and a variable have been defined. -/
def sampleRunner : Runner :=
  handleLines ⟨0, false⟩ ⟨["home"], [], []⟩
    [":define f(x) = [x > 1][2 * x] x + 1", ":define v = -2.50"] (usual ["home"] 0)

theorem save_load_sample : sampleRunner.functions.map (·.1) = ["f"] ∧
    sampleRunner.vars = [("v", .finite true 250 (-2))] ∧ ∃ saved loaded path text,
      (handle ⟨0, false⟩ (some (":save " ++ "t")) sampleRunner).Ends [.write path text true] saved ∧
      saved.2.failure = none ∧
      (handle ⟨0, true⟩ (some (":load " ++ "t")) ((usual ["home"] 1).withContext (.ofDigits 1))).Ends
        [.read path.text (.ok text)] loaded ∧
      loaded.2.failure = none ∧ Restores loaded.1 sampleRunner := by
  have reached : Reached (fun line => Unbroken line.toList) (usual ["home"] 0) sampleRunner :=
    reached_handleLines _ (by decide) _ _ .start
  have fine : ((handle ⟨0, false⟩ (some (":save " ++ "t")) sampleRunner).run
      ⟨["home"], [], []⟩).2.2.failure = none := by decide +kernel
  obtain ⟨exchanges, ends⟩ := Interaction.run_ends
    (handle ⟨0, false⟩ (some (":save " ++ "t")) sampleRunner) ⟨["home"], [], []⟩
  obtain ⟨path, text, written, loads⟩ :=
    save_load (standard_usual ["home"] 0) (by decide) reached ends fine
  obtain ⟨loaded, run, succeeded, restores, -⟩ :=
    loads 1 (usual ["home"] 1) (.ofDigits 1) ⟨0, true⟩ text (standard_usual ["home"] 1) (.refl _)
  rw [written] at ends
  exact ⟨by decide +kernel, by decide +kernel, _, loaded, path, text, ends, fine, run, succeeded,
    restores⟩

end Runner
end Calculator
