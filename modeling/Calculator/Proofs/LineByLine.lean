import Calculator.Proofs.Depths
import Calculator.Proofs.FailedLines
import Calculator.Proofs.StateText

/-!
# Calculator.Proofs.LineByLine

Loading a state file against defining what stands on its lines, one line after another.

* `definitions_numbered`: the definitions of a file are the lines that are neither blank nor comments,
  under the numbers they have among all lines.
* `Impartial`: a step that neither the last failure nor the report of a runner have a part in.
* `defineAll_each`: defining all lines of a file goes as handling a line for each does, up to the
  first that fails.
* `load_each`: so a file that is loaded leaves the runner as these lines do, and a failure is
  reported with the number of its line.
-/

namespace Calculator

namespace StateFile

/-- The lines of a text that are neither blank nor comments, without white space around them. Every
line is numbered, from one on. -/
def numbered (text : String) : List (Nat × String) :=
  ((fileLines text).zipIdx 1).filterMap fun (line, number) =>
    (definitionOn? line).map fun definition => (number, definition)

theorem definitionsFrom_numbered (texts : List (List Char)) : ∀ number : Nat,
    definitionsFrom number texts = (texts.zipIdx number).filterMap fun (line, number) =>
      (definitionOn? line).map fun definition => (number, definition) := by
  induction texts with
  | nil =>
    intro number
    rfl
  | cons line rest ih =>
    intro number
    simp only [definitionsFrom, List.zipIdx_cons, List.filterMap_cons, definitionOn?]
    split
    · exact ih (number + 1)
    · exact congrArg _ (ih (number + 1))

theorem definitions_numbered (text : String) : definitions text = numbered text :=
  definitionsFrom_numbered _ 1

theorem numbered_trimmed (text : String) : ∀ entry ∈ numbered text, trimString entry.2 = entry.2 := by
  intro entry mem
  obtain ⟨⟨line, number⟩, -, found⟩ := List.mem_filterMap.mp mem
  obtain ⟨definition, cut, rfl⟩ := Option.map_eq_some_iff.mp found
  rw [definitionOn?] at cut
  split at cut
  · cases cut
  · obtain rfl := Option.some.inj cut
    rw [trimString, String.toList_ofList, trim_of_edged (trim_edged line)]

end StateFile

namespace Runner

/-! ## Steps on runners that are alike -/

theorem like_cleared (r : Runner) : Like r r.cleared := rfl

theorem like_finish (setting : Setting) (failure : LineFailure) (r : Runner) :
    Like r (finish setting (.error failure r)).1 := rfl

/-- A runner with another report and another last failure. -/
def withTraces (r : Runner) (events : List Event) (last : Option Failure) : Runner :=
  { r with session := ⟨events, r.session.seed⟩, lastFailure := last }

theorem Like.traces {r s : Runner} (h : Like r s) : ∃ events last, s = r.withTraces events last := by
  have same : s.forget.withTraces s.session.events s.lastFailure =
      r.forget.withTraces s.session.events s.lastFailure := by rw [h]
  exact ⟨_, _, same⟩

theorem like_drawn (r : Runner) (last last' : Option Failure) {session session' : Session}
    (same : session.seed = session'.seed) :
    Like { r with session := session, lastFailure := last }
      { r with session := session', lastFailure := last' } :=
  congrArg (fun seed => ({ r with session := ⟨[], seed⟩, lastFailure := none } : Runner)) same

section

variable {α β : Type}

/-- Results of a step that are the same, with runners that are alike. -/
inductive LikeResults : EStateM.Result LineFailure Runner α →
    EStateM.Result LineFailure Runner α → Prop where
  | ok {a : α} {r s : Runner} : Like r s → LikeResults (.ok a r) (.ok a s)
  | error {failure : LineFailure} {r s : Runner} : Like r s →
      LikeResults (.error failure r) (.error failure s)

/-- A step that neither the last failure nor the report of a runner have a part in. -/
structure Impartial (step : Running α) : Prop where
  same : ∀ {r s}, Like r s → LikeResults (step r) (step s)

theorem impartial_pure (a : α) : Impartial (pure a : Running α) := ⟨fun h => .ok h⟩

theorem impartial_throw (failure : LineFailure) : Impartial (throw failure : Running α) :=
  ⟨fun h => .error h⟩

theorem impartial_bind {x : Running α} {f : α → Running β} (hx : Impartial x)
    (hf : ∀ a, Impartial (f a)) : Impartial (x >>= f) := by
  constructor
  intro r s h
  have run := hx.same h
  rw [bind_apply, bind_apply]
  generalize x r = p at run ⊢
  generalize x s = q at run ⊢
  cases run with
  | ok like => exact (hf _).same like
  | error like => exact .error like

/-- A step that goes on from what it finds in the runner is impartial if it goes on alike, whatever
the report and the last failure. -/
theorem impartial_get {f : Runner → Running α} (same : ∀ r events last, f (r.withTraces events last) = f r)
    (hf : ∀ r, Impartial (f r)) : Impartial (get >>= f) := by
  constructor
  intro r s h
  obtain ⟨events, last, rfl⟩ := h.traces
  rw [bind_apply, bind_apply, get_apply, get_apply]
  dsimp only
  rw [same]
  exact (hf r).same h

theorem impartial_modify {f : Runner → Runner}
    (same : ∀ r events last, f (r.withTraces events last) = (f r).withTraces events last) :
    Impartial (modify f) := by
  constructor
  intro r s h
  obtain ⟨events, last, rfl⟩ := h.traces
  rw [modify_apply, modify_apply, same]
  exact .ok rfl

theorem impartial_change {result : Runner → Except Refusal Family}
    (same : ∀ r events last, result (r.withTraces events last) = result r) :
    Impartial (change result) := by
  constructor
  intro r s h
  obtain ⟨events, last, rfl⟩ := h.traces
  rw [change, change, same]
  cases result r with
  | error refusal => exact .error rfl
  | ok family => exact .ok rfl

end

/-! ## Defining -/

/-- The end of an evaluation as that of a step of a runner. -/
def calculated (r : Runner) :
    EStateM.Result Failure Session Decimal → EStateM.Result LineFailure Runner Decimal
  | .ok value session => .ok value { r with session := session }
  | .error failure session => .error (.calculation failure) { r with session := session }

theorem calculate_eq (setting : Setting) (text : String) (r : Runner) : calculate setting text r =
    calculated r (Evaluation.evaluate setting r.family r.environment text r.session) := rfl

theorem calculate_impartial (setting : Setting) (text : String) :
    Impartial (calculate setting text) := by
  constructor
  intro r s h
  obtain ⟨events, last, rfl⟩ := h.traces
  -- how the expression ends is decided by the state of the generator, which is the same
  have run : ending (Evaluation.evaluate setting r.family r.environment text r.session) =
      ending (Evaluation.evaluate setting r.family r.environment text ⟨events, r.session.seed⟩) :=
    Comparison.ending_eq (Evaluation.evaluateAt_alike setting stackRoom 0 r.family r.environment
      text.toList) rfl
  have found : calculate setting text (r.withTraces events last) =
      calculated (r.withTraces events last)
        (Evaluation.evaluate setting r.family r.environment text ⟨events, r.session.seed⟩) := rfl
  rw [found, calculate_eq]
  generalize Evaluation.evaluate setting r.family r.environment text r.session = p at run ⊢
  generalize Evaluation.evaluate setting r.family r.environment text ⟨events, r.session.seed⟩ = q
    at run ⊢
  cases p with
  | ok value session =>
    cases q with
    | error failure session' => cases run
    | ok value' session' =>
      obtain ⟨same, drawn⟩ := Prod.mk.inj run
      cases same
      exact .ok (like_drawn r r.lastFailure last drawn)
  | error failure session =>
    cases q with
    | ok value' session' => cases run
    | error failure' session' =>
      obtain ⟨same, drawn⟩ := Prod.mk.inj run
      cases same
      exact .error (like_drawn r r.lastFailure last drawn)

theorem definingValue_impartial (setting : Setting) (text : String) :
    Impartial (definingValue setting text) := by
  constructor
  intro r s h
  have run := (calculate_impartial setting text).same h
  rw [definingValue, definingValue]
  generalize calculate setting text r = p at run ⊢
  generalize calculate setting text s = q at run ⊢
  cases run with
  | ok like => exact .ok like
  | @error failure _ _ like =>
    cases failure with
    | calculation failure => cases failure <;> exact .error like
    | _ => exact .error like

theorem defineFunction_impartial (d : Definition) (parameters : List String) :
    Impartial (defineFunction d parameters) := by
  rw [defineFunction]
  refine impartial_get (fun _ _ _ => rfl) fun r => ?_
  split
  · exact impartial_throw _
  · refine impartial_bind (impartial_change fun _ _ _ => rfl) fun _ => ?_
    exact impartial_bind (impartial_modify fun _ _ _ => rfl) fun _ => impartial_pure _

theorem defineVariable_impartial (setting : Setting) (d : Definition) :
    Impartial (defineVariable setting d) := by
  rw [defineVariable]
  refine impartial_bind (definingValue_impartial setting d.body) fun value => ?_
  refine impartial_get (fun _ _ _ => rfl) fun r => ?_
  extract_lets isNative
  cases isNative with
  | true => exact impartial_throw _
  | false =>
    refine impartial_bind (impartial_change fun _ _ _ => rfl) fun _ => ?_
    exact impartial_bind (impartial_modify fun _ _ _ => rfl) fun _ => impartial_pure _

theorem define_impartial (setting : Setting) (text : String) : Impartial (define setting text) := by
  rw [define]
  split
  · exact impartial_throw _
  · split
    · exact defineFunction_impartial _ _
    · exact defineVariable_impartial setting _

/-! ## Line by line -/

section

variable {setting : Setting} {tree : FileTree} {r s : Runner}

/-- Handles a line that defines a text, for one text after another, up to the first that fails.
Gives its number and its failure. -/
def defineEach (setting : Setting) (tree : FileTree) :
    List (Nat × String) → Runner → Runner × Option (Nat × LineFailure)
  | [], r => (r, none)
  | (number, text) :: rest, r =>
    let (_, r, result) := (handle setting (some (":define " ++ text)) r).run tree
    match result.failure with
    | some failure => (r, some (number, failure))
    | none => defineEach setting tree rest r

theorem handle_define (setting : Setting) (text : String) (r : Runner) :
    handle setting (some (":define " ++ text)) r =
      .done (finish setting (printing (do return [← define setting (trimString text)]) r.cleared)) :=
  @handle_word "define" .define setting text r rfl (by decide) (by decide)

/-- How defining all lines of a file ends, against how handling a line for each does. -/
inductive SameEnd (count : Nat) : EStateM.Result LineFailure Runner Nat →
    Runner × Option (Nat × LineFailure) → Prop where
  | whole {r s : Runner} : Like r s → SameEnd count (.ok count r) (s, none)
  | failed {r s : Runner} {number : Nat} {failure : LineFailure} : Like r s →
      SameEnd count (.error (failure.inFile number) r) (s, some (number, failure))

theorem defineAll_cons (setting : Setting) (number : Nat) (text : String)
    (rest : List (Nat × String)) (r : Runner) :
    defineAll setting ((number, text) :: rest) r =
      match define setting text r with
      | .error failure r => .error (failure.inFile number) r
      | .ok _ r =>
        match defineAll setting rest r with
        | .error failure r => .error failure r
        | .ok count r => .ok (count + 1) r := by
  rw [defineAll]
  simp only [bind, EStateM.bind, pure, EStateM.pure]
  cases define setting text r with
  | error failure r' => rfl
  | ok shown r' =>
    dsimp only
    cases defineAll setting rest r' with
    | error failure r'' => rfl
    | ok count r'' => rfl

theorem defineAll_each (setting : Setting) (tree : FileTree) (texts : List (Nat × String)) :
    (∀ entry ∈ texts, trimString entry.2 = entry.2) → ∀ {r s : Runner}, Like r s →
      SameEnd texts.length (defineAll setting texts r) (defineEach setting tree texts s) := by
  induction texts with
  | nil => exact fun _ _ _ h => .whole h
  | cons entry rest ih =>
    obtain ⟨number, text⟩ := entry
    intro trimmed r s h
    obtain ⟨here, later⟩ := List.forall_mem_cons.mp trimmed
    have run := (define_impartial setting text).same (h.trans (like_cleared s))
    rw [defineAll_cons, defineEach, handle_define, here, Interaction.run, printing, bind_apply,
      bind_apply]
    generalize define setting text r = p at run ⊢
    generalize define setting text s.cleared = q at run ⊢
    cases run with
    | error like => exact .failed (like.trans (like_finish setting _ _))
    | @ok shown r' s' like =>
      have rest' := ih later like
      change SameEnd _ _ (defineEach setting tree rest s')
      dsimp only
      generalize defineAll setting rest r' = p at rest' ⊢
      generalize defineEach setting tree rest s' = q at rest' ⊢
      cases rest' with
      | whole like' => exact .whole like'
      | failed like' => exact .failed like'

theorem load_run {arguments text : String} {path : Path} (located : r.statePath arguments = .ok path)
    (stored : tree.read path.text = .ok text) :
    (load setting arguments r).run tree = (tree, finish setting (printing (do
      let count ← defineAll setting (StateFile.numbered text)
      return ["Loaded " ++ toString count ++ " definitions."]) r)) := by
  unfold load
  simp only [located, Interaction.run, stored, StateFile.definitions_numbered]

/-- A state file is loaded as the lines that are neither blank nor comments are defined one by one, up
to the first that fails: the runner is left alike, and the files are as they were. If no line fails,
their number is reported. If one does, its problem is, after its number among all lines of the file;
a fault is reported as it is. -/
theorem load_each {line : Option String} {arguments text : String} {path : Path}
    (loads : reading line = .command .load arguments) (located : r.statePath arguments = .ok path)
    (stored : tree.read path.text = .ok text) :
    let loaded := (handle setting line r).run tree
    let each := defineEach setting tree (StateFile.numbered text) r
    loaded.1 = tree ∧ Like loaded.2.1 each.1 ∧
      match each.2 with
      | none => loaded.2.2.failure = none ∧ loaded.2.2.output =
          ["Loaded " ++ toString (StateFile.numbered text).length ++ " definitions."]
      | some (_, .calculation (.fault f)) => loaded.2.2.failure = some (.calculation (.fault f))
      | some (number, failure) => ∃ problem, loaded.2.2.failure = some (.state problem) ∧
          problem.message = "load: line " ++ toString number ++ ": " ++ failure.message := by
  have same := defineAll_each setting tree (StateFile.numbered text) (StateFile.numbered_trimmed text)
    (like_cleared r).symm
  have located' := (@statePath_congr r r.cleared rfl rfl arguments).trans located
  rw [handle_command setting loads, command, load_run located' stored, printing, bind_apply,
    bind_apply]
  dsimp only
  generalize defineAll setting (StateFile.numbered text) r.cleared = p at same ⊢
  generalize defineEach setting tree (StateFile.numbered text) r = q at same ⊢
  cases same with
  | whole like => exact ⟨rfl, like, rfl, rfl⟩
  | @failed _ _ number failure like =>
    refine ⟨rfl, like, ?_⟩
    cases failure with
    | calculation failure =>
      cases failure with
      | fault f => rfl
      | problem p => exact ⟨_, rfl, rfl⟩
    | command problem => exact ⟨_, rfl, rfl⟩
    | definition problem => exact ⟨_, rfl, rfl⟩
    | state problem => exact ⟨_, rfl, rfl⟩

end

/-- A file of eight lines, the seventh of which cannot be defined. -/
def haltingText : String :=
  "# numbers\n\n a = 2\r\nf(x) = a * x\nb = f(3)\n  # again\na = c\nc = 1"

def haltingTree : FileTree := ⟨["home"], [(["home", "t.ecj"], haltingText)], []⟩

theorem load_each_halting :
    let loaded := (handle ⟨0, false⟩ (some ":load t") (usual ["home"] 0)).run haltingTree
    Like loaded.2.1
        (defineEach ⟨0, false⟩ haltingTree
          [(3, "a = 2"), (4, "f(x) = a * x"), (5, "b = f(3)"), (7, "a = c"), (8, "c = 1")]
          (usual ["home"] 0)).1 ∧
      loaded.2.1.vars = [("a", .ofInt 2), ("b", .ofInt 6)] ∧
      ∃ problem, loaded.2.2.failure = some (.state problem) ∧ problem.message =
        "load: line 7: define: unable to evaluate variable value. (Undefined variable \"c\".)" := by
  have loads : reading (some ":load t") = .command .load "t" := by decide +kernel
  have located : (usual ["home"] 0).statePath "t" = .ok ["home", "t.ecj"] := by decide +kernel
  have stored : haltingTree.read (Path.text ["home", "t.ecj"]) = .ok haltingText := by decide +kernel
  have listed : StateFile.numbered haltingText =
      [(3, "a = 2"), (4, "f(x) = a * x"), (5, "b = f(3)"), (7, "a = c"), (8, "c = 1")] := by
    decide +kernel
  have halted : (defineEach ⟨0, false⟩ haltingTree
      [(3, "a = 2"), (4, "f(x) = a * x"), (5, "b = f(3)"), (7, "a = c"), (8, "c = 1")]
      (usual ["home"] 0)).2 =
        some (7, .definition (.unevaluated "Undefined variable \"c\".")) := by decide +kernel
  have alike := @load_each ⟨0, false⟩ haltingTree _ _ _ _ _ loads located stored
  dsimp only at alike
  rw [listed, halted] at alike
  exact ⟨alike.2.1, by decide +kernel, alike.2.2⟩

end Runner
end Calculator
