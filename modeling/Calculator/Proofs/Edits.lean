import Calculator.Proofs.StateText
import Calculator.Proofs.Steps
import Calculator.Runner.Line
import Mathlib.Logic.Relation

/-!
# Calculator.Proofs.Edits

What handling lines does to a runner: every line, whether it succeeds or fails, takes the runner
through some of seven edits. What each edit preserves is preserved by every line, and by every
sequence of lines.

Files are left open: an interaction ends in some way for every answer to what it asks, and `Ends`
collects all of them.

* `run_ends`: carrying out an interaction on a file tree is one of its ways to end.
* `handle_edits`: a line is a sequence of edits.
* `Reached.edits`: so is every sequence of lines.
-/

namespace Calculator

/-! ## Files -/

/-- A request for a file, with its answer. -/
inductive Exchange where
  | read (path : String) (answer : Except ReadProblem String)
  | write (path : Path) (content : String) (isWritten : Bool)

namespace Interaction

variable {α : Type}

/-- How an interaction can end, after some exchanges. -/
inductive Ends : Interaction α → List Exchange → α → Prop where
  | done (a : α) : Ends (.done a) [] a
  | read {path : String} {resume : Except ReadProblem String → Interaction α}
      (answer : Except ReadProblem String) {rest : List Exchange} {a : α} :
      Ends (resume answer) rest a → Ends (.read path resume) (.read path answer :: rest) a
  | write {path : Path} {content : String} {resume : Bool → Interaction α} (isWritten : Bool)
      {rest : List Exchange} {a : α} :
      Ends (resume isWritten) rest a →
        Ends (.write path content resume) (.write path content isWritten :: rest) a

theorem ends_done {a b : α} {exchanges : List Exchange} (h : (Interaction.done a).Ends exchanges b) :
    exchanges = [] ∧ b = a := by
  cases h
  exact ⟨rfl, rfl⟩

theorem run_ends (i : Interaction α) : ∀ tree : FileTree,
    ∃ exchanges, i.Ends exchanges (run tree i).2 := by
  induction i with
  | done a => exact fun tree => ⟨[], .done a⟩
  | read path resume ih =>
    intro tree
    obtain ⟨rest, ends⟩ := ih (tree.read path) tree
    exact ⟨_, .read _ ends⟩
  | write path content resume ih =>
    intro tree
    obtain ⟨rest, ends⟩ := ih (tree.write path content).2 (tree.write path content).1
    exact ⟨_, .write _ ends⟩

/-- The answers decide how an interaction ends. -/
theorem ends_unique {i : Interaction α} {exchanges : List Exchange} {a b : α}
    (first : i.Ends exchanges a) (second : i.Ends exchanges b) : a = b := by
  induction first with
  | done a =>
    cases second
    rfl
  | read answer _ ih =>
    cases second with
    | read _ later => exact ih later
  | write isWritten _ ih =>
    cases second with
    | write _ later => exact ih later

end Interaction

/-! ## Registering -/

namespace Family

variable (family : Family) (id : EnvId) {name : String}

theorem setFunction_label (label : Label .functionName name.toList) (f : Function) :
    family.setFunction id (some name) (.given f) = .ok (family.store id .functions name f) := by
  rw [setFunction, validateName_label label]
  rfl

theorem setVariable_label (label : Label .variableName name.toList) {value : Decimal}
    (finite : value.isFinite = true) :
    family.setVariable id (some name) (.number value) =
      .ok (family.store id .vars name (.fixed value)) := by
  rw [setVariable, validateName_label label]
  simp only [Assignment.toVariable, Variable.ofDecimal, finite, if_true]
  rfl

theorem setVariable_special (label : Label .variableName name.toList) {value : Decimal}
    (special : value.isFinite = false) :
    ∃ refusal, family.setVariable id (some name) (.number value) = .error refusal := by
  rw [setVariable, validateName_label label]
  simp only [Assignment.toVariable, Variable.ofDecimal, special, Bool.false_eq_true, if_false]
  exact ⟨_, rfl⟩

theorem discard_answers (kind : Kind) (key : String) :
    (family.discard id kind key).answers = family.answers := by
  rw [discard]
  split <;> rfl

end Family

namespace Runner

open Family

/-! ## Edits -/

def withFunction (r : Runner) (f : UserFunction) : Runner :=
  { r with
    family := r.family.store r.environment .functions f.name (.user f)
    functions := assign f.name f r.functions }

def withVariable (r : Runner) (name : String) (value : Decimal) : Runner :=
  { r with
    family := r.family.store r.environment .vars name (.fixed value)
    vars := assign name value r.vars }

def withoutFunction (r : Runner) (name : String) : Runner :=
  { r with
    family := r.family.discard r.environment .functions name
    functions := unassign name r.functions }

def withoutVariable (r : Runner) (name : String) : Runner :=
  { r with
    family := r.family.discard r.environment .vars name
    vars := unassign name r.vars }

def withContext (r : Runner) (ctx : Context) : Runner :=
  { r with family := r.family.modifyOptions r.environment fun o => { o with context := ctx } }

def withAnswer (r : Runner) (value : Decimal) : Runner :=
  { r with family := r.family.setAnswer r.answer value }

def withSession (r : Runner) (session : Session) : Runner := { r with session := session }

/-- The runner before a line is handled. -/
def cleared (r : Runner) : Runner := { r with session := { r.session with events := [] } }

/-- What can be done to a runner at once. Definitions are read of allowed texts. -/
inductive Edit (allowed : String → Prop) : Runner → Runner → Prop where
  | display (r : Runner) (session : Session) (lastFailure : Option Failure) (printer : Printer)
      (running : Bool) :
      Edit allowed r { r with
        session := session, lastFailure := lastFailure, printer := printer, running := running }
  | context (r : Runner) (ctx : Context) : Edit allowed r (r.withContext ctx)
  | answer (r : Runner) (value : Decimal) : Edit allowed r (r.withAnswer value)
  | defineFunction {r : Runner} {text : String} {d : Definition} {parameters : List String}
      (fine : allowed text) (read : Definition.parse text = .ok d)
      (given : d.parameters = some parameters)
      (foreign : ∀ f, r.lookup .functions d.name ≠ some (.native f)) :
      Edit allowed r (r.withFunction (d.function parameters (some r.environment)))
  | defineVariable {r : Runner} {text : String} {d : Definition} {value : Decimal}
      (fine : allowed text) (read : Definition.parse text = .ok d) (given : d.parameters = none)
      (finite : value.isFinite = true)
      (fixed : ∀ v, r.lookup .vars d.name = some v → v.isFixed = true) :
      Edit allowed r (r.withVariable d.name value)
  | undefineFunction {r : Runner} {name : String} {f : UserFunction}
      (there : r.lookup .functions name = some (.user f)) : Edit allowed r (r.withoutFunction name)
  | undefineVariable {r : Runner} {name : String} {value : Decimal}
      (there : r.lookup .vars name = some (.fixed value)) : Edit allowed r (r.withoutVariable name)

theorem Edit.mono {allowed more : String → Prop} {r r' : Runner} (h : Edit allowed r r')
    (sub : ∀ text, allowed text → more text) : Edit more r r' := by
  cases h with
  | display session lastFailure printer running => exact .display r session lastFailure printer running
  | context ctx => exact .context r ctx
  | answer value => exact .answer r value
  | defineFunction fine read given foreign => exact .defineFunction (sub _ fine) read given foreign
  | defineVariable fine read given finite fixed =>
    exact .defineVariable (sub _ fine) read given finite fixed
  | undefineFunction there => exact .undefineFunction there
  | undefineVariable there => exact .undefineVariable there

/-- What can be done to a runner step by step. -/
abbrev Edits (allowed : String → Prop) : Runner → Runner → Prop :=
  Relation.ReflTransGen (Edit allowed)

/-- The runner that a step leaves, whether it succeeds or fails. -/
def left {α : Type} : EStateM.Result LineFailure Runner α → Runner
  | .ok _ r => r
  | .error _ r => r

section

variable {α β : Type}

/-- What leads across each of two steps leads across both, whether they succeed or fail. -/
theorem left_bind (R : Runner → Runner → Prop) (trans : ∀ {a b c}, R a b → R b c → R a c)
    {x : Running α} {f : α → Running β} (hx : ∀ r, R r (left (x r)))
    (hf : ∀ a r, R r (left (f a r))) (r : Runner) : R r (left ((x >>= f) r)) := by
  have first := hx r
  rw [bind_apply]
  cases run : x r with
  | error failure r' =>
    rw [run] at first
    exact first
  | ok a r' =>
    rw [run] at first
    exact trans first (hf a r')

end

/-- What a step that is carried out from a runner on leads to. -/
def Leads {α : Type} (allowed : String → Prop) (r : Runner)
    (result : EStateM.Result LineFailure Runner α) : Prop := Edits allowed r (left result)

section

variable {α β : Type} {allowed : String → Prop}

/-- Steps that lead to nothing but edits, wherever they are carried out. -/
def Follows (allowed : String → Prop) (step : Running α) : Prop := ∀ r, Leads allowed r (step r)

theorem follows_pure (a : α) : Follows allowed (pure a : Running α) := fun _ => .refl

theorem follows_throw (failure : LineFailure) : Follows allowed (throw failure : Running α) :=
  fun _ => .refl

theorem follows_bind {x : Running α} {f : α → Running β} (hx : Follows allowed x)
    (hf : ∀ a, Follows allowed (f a)) : Follows allowed (x >>= f) :=
  left_bind (Edits allowed) Relation.ReflTransGen.trans hx hf

/-! ## Steps that change little -/

/-- Steps that leave everything as it is, whether they succeed or fail. -/
def Idle (step : Running α) : Prop := ∀ r, left (step r) = r

theorem idle_pure (a : α) : Idle (pure a : Running α) := fun _ => rfl

theorem idle_throw (failure : LineFailure) : Idle (throw failure : Running α) := fun _ => rfl

theorem idle_fail (problem : CommandProblem) (f : α → Running β) : Idle (fail problem >>= f) :=
  fun _ => rfl

theorem idle_get : Idle (get : Running Runner) := fun _ => rfl

theorem idle_bind {x : Running α} {f : α → Running β} (hx : Idle x) (hf : ∀ a, Idle (f a)) :
    Idle (x >>= f) :=
  left_bind (fun r r' => r' = r) (fun first later => later.trans first) hx hf

/-- Steps that leave everything but the session as it is, whether they succeed or fail. -/
def Quiet (step : Running α) : Prop := ∀ r, ∃ session, left (step r) = r.withSession session

theorem Idle.quiet {step : Running α} (h : Idle step) : Quiet step := fun r => ⟨r.session, h r⟩

theorem calculate_quiet (setting : Setting) (text : String) : Quiet (calculate setting text) := by
  intro r
  rw [calculate]
  cases Evaluation.evaluate setting r.family r.environment text r.session with
  | ok value session => exact ⟨session, rfl⟩
  | error failure session => exact ⟨session, rfl⟩

theorem definingValue_quiet (setting : Setting) (text : String) :
    Quiet (definingValue setting text) := by
  intro r
  have h := calculate_quiet setting text r
  rw [definingValue]
  split
  · rename_i run
    rw [run] at h
    exact h
  · exact h

/-- What a step may do that is carried out from a runner on: nothing but evaluate if it fails, and
edit what is not the last answer if it succeeds. -/
def Minds (allowed : String → Prop) (r : Runner) : EStateM.Result LineFailure Runner α → Prop
  | .ok _ r' => Edits allowed r r' ∧ r'.family.answers = r.family.answers
  | .error _ r' => ∃ session, r' = r.withSession session

/-- Steps that fail before they change anything, and never touch the last answer. -/
structure Careful (allowed : String → Prop) (step : Running α) : Prop where
  minds : ∀ r, Minds allowed r (step r)

theorem edits_withSession (r : Runner) (session : Session) :
    Edits allowed r (r.withSession session) :=
  .single (.display r session r.lastFailure r.printer r.running)

theorem careful_quiet {step : Running α} (h : Quiet step) : Careful allowed step := by
  constructor
  intro r
  obtain ⟨session, left⟩ := h r
  cases run : step r with
  | error failure r' =>
    rw [run] at left
    exact ⟨session, left⟩
  | ok a r' =>
    rw [run] at left
    cases left
    exact ⟨edits_withSession r session, rfl⟩

theorem careful_throw (failure : LineFailure) : Careful allowed (throw failure : Running α) :=
  careful_quiet (idle_throw failure).quiet

/-- What a careful step gives may be dressed up. -/
theorem careful_map {step : Running α} (h : Careful allowed step) (f : α → β) :
    Careful allowed (do return f (← step)) := by
  constructor
  intro r
  have first := h.minds r
  rw [bind_apply]
  cases run : step r with
  | error failure r' =>
    rw [run] at first
    exact first
  | ok a r' =>
    rw [run] at first
    exact first

theorem Careful.follows {step : Running α} (h : Careful allowed step) : Follows allowed step := by
  intro r
  have minds := h.minds r
  cases run : step r with
  | error failure r' =>
    rw [run] at minds
    obtain ⟨session, rfl⟩ := minds
    exact edits_withSession r session
  | ok a r' =>
    rw [run] at minds
    exact minds.1

/-! ## Definitions -/

/-- A function that is not native can be defined. -/
theorem defineFunction_run {d : Definition} {parameters : List String} {r : Runner}
    (label : Label .functionName d.name.toList)
    (foreign : ∀ f, r.lookup .functions d.name ≠ some (.native f)) :
    ∃ shown, defineFunction d parameters r =
      .ok shown (r.withFunction (d.function parameters (some r.environment))) := by
  have changed (f : Function) :
      change (fun r => r.family.setFunction r.environment (some d.name) (.given f)) r =
        .ok () { r with family := r.family.store r.environment .functions d.name f } := by
    rw [change, setFunction_label _ _ label]
  rw [defineFunction, bind_apply, get_apply]
  cases found : r.lookup .functions d.name with
  | none =>
    simp only [found]
    rw [bind_apply, changed]
    exact ⟨_, rfl⟩
  | some f =>
    cases f with
    | native f => exact absurd found (foreign f)
    | user f =>
      simp only [found]
      rw [bind_apply, changed]
      exact ⟨_, rfl⟩

theorem defineFunction_careful {text : String} {d : Definition} {parameters : List String}
    (fine : allowed text) (read : Definition.parse text = .ok d)
    (given : d.parameters = some parameters) : Careful allowed (defineFunction d parameters) := by
  constructor
  intro r
  by_cases native : ∃ f, r.lookup .functions d.name = some (.native f)
  · obtain ⟨f, found⟩ := native
    rw [defineFunction, bind_apply, get_apply]
    simp only [found]
    exact (careful_throw _).minds r
  · have foreign : ∀ f, r.lookup .functions d.name ≠ some (.native f) := fun f found =>
      native ⟨f, found⟩
    obtain ⟨shown, run⟩ := defineFunction_run (parse_functionName read given) foreign
    rw [run]
    exact ⟨.single (.defineFunction fine read given foreign), rfl⟩

/-- What becomes of a variable once its value is known: it has to be one of the user's, and the value
has to be finite. -/
theorem defineVariable_eq {setting : Setting} {d : Definition} {r r' : Runner} {value : Decimal}
    (run : definingValue setting d.body r = .ok value r') : defineVariable setting d r =
      if ((r'.lookup .vars d.name).map Variable.isFixed).getD true then
        match r'.family.setVariable r'.environment (some d.name) (.number value) with
        | .ok family => .ok ("Defined \"" ++ d.name ++ "\" as " ++ value.positionalText ++ ".")
            { r' with family := family, vars := assign d.name value r'.vars }
        | .error refusal => .error (.calculation (.refused refusal)) r'
      else .error (.definition .nativeVariable) r' := by
  rw [defineVariable, bind_apply, run]
  dsimp only
  rw [bind_apply, get_apply]
  have changed : change (fun r => r.family.setVariable r.environment (some d.name) (.number value)) r' =
      match r'.family.setVariable r'.environment (some d.name) (.number value) with
      | .ok family => .ok () { r' with family := family }
      | .error refusal => .error (.calculation (.refused refusal)) r' := rfl
  cases found : r'.lookup .vars d.name with
  | none =>
    simp only [found, Option.map_none, Option.getD_none, Bool.false_eq_true, if_true, if_false]
    rw [bind_apply, changed]
    cases r'.family.setVariable r'.environment (some d.name) (.number value) <;> rfl
  | some v =>
    cases fixed : v.isFixed with
    | false => simp only [found, fixed, Option.map_some, Option.getD_some]; rfl
    | true =>
      simp only [found, fixed, Option.map_some, Option.getD_some, Bool.not_true, Bool.false_eq_true,
        if_true, if_false]
      rw [bind_apply, changed]
      cases r'.family.setVariable r'.environment (some d.name) (.number value) <;> rfl

/-- A finite value can be given to a variable that is not native. -/
theorem defineVariable_run {setting : Setting} {d : Definition} {r r' : Runner} {value : Decimal}
    (label : Label .variableName d.name.toList)
    (run : definingValue setting d.body r = .ok value r') (finite : value.isFinite = true)
    (fixed : ∀ v, r'.lookup .vars d.name = some v → v.isFixed = true) :
    ∃ shown, defineVariable setting d r = .ok shown (r'.withVariable d.name value) := by
  have own : ((r'.lookup .vars d.name).map Variable.isFixed).getD true = true := by
    cases found : r'.lookup .vars d.name with
    | none => rfl
    | some v => exact fixed v found
  rw [defineVariable_eq run, if_pos own, setVariable_label _ _ label finite]
  exact ⟨_, rfl⟩

theorem defineVariable_careful {text : String} {d : Definition} (setting : Setting)
    (fine : allowed text) (read : Definition.parse text = .ok d) (given : d.parameters = none) :
    Careful allowed (defineVariable setting d) := by
  constructor
  intro r
  obtain ⟨session, first⟩ := definingValue_quiet setting d.body r
  cases run : definingValue setting d.body r with
  | error failure r' =>
    rw [run] at first
    rw [defineVariable, bind_apply, run]
    exact ⟨session, first⟩
  | ok value r' =>
    rw [run] at first
    obtain rfl : r' = r.withSession session := first
    have label := parse_variableName read given
    rw [defineVariable_eq run]
    by_cases own :
        (((r.withSession session).lookup .vars d.name).map Variable.isFixed).getD true = true
    · rw [if_pos own]
      cases finite : value.isFinite with
      | true =>
        have fixed : ∀ v, (r.withSession session).lookup .vars d.name = some v →
            v.isFixed = true := by
          intro v found
          rw [found] at own
          exact own
        rw [setVariable_label _ _ label finite]
        refine ⟨.tail (edits_withSession r session) ?_, rfl⟩
        exact .defineVariable fine read given finite fixed
      | false =>
        obtain ⟨refusal, refused⟩ := setVariable_special (r.withSession session).family
          (r.withSession session).environment label finite
        rw [refused]
        exact ⟨session, rfl⟩
    · rw [if_neg own]
      exact ⟨session, rfl⟩

theorem define_careful {text : String} (setting : Setting) (fine : allowed text) :
    Careful allowed (define setting text) := by
  cases read : Definition.parse text with
  | error problem =>
    simp only [define, read]
    exact careful_throw _
  | ok d =>
    cases given : d.parameters with
    | some parameters =>
      simp only [define, read, given]
      exact defineFunction_careful fine read given
    | none =>
      simp only [define, read, given]
      exact defineVariable_careful setting fine read given

theorem undefineFunction_careful {name : String} (edged : Edged name.toList) :
    Careful allowed (undefineFunction name) := by
  constructor
  intro r
  rw [undefineFunction, bind_apply, get_apply]
  dsimp only
  cases found : r.lookup .functions name with
  | none => exact (careful_throw _).minds r
  | some f =>
    cases f with
    | native f => exact (careful_throw _).minds r
    | user f =>
      dsimp only
      rw [bind_apply, change, setFunction]
      cases named : validateName .functionName (some name) with
      | error refusal => exact ⟨r.session, rfl⟩
      | ok key =>
        cases validateName_edged edged named
        exact ⟨.single (.undefineFunction found), discard_answers r.family r.environment _ name⟩

theorem undefineVariable_careful {name : String} (edged : Edged name.toList) :
    Careful allowed (undefineVariable name) := by
  constructor
  intro r
  rw [undefineVariable, bind_apply, get_apply]
  dsimp only
  cases found : r.lookup .vars name with
  | none => exact (careful_throw _).minds r
  | some v =>
    cases v with
    | constant value => exact (careful_throw _).minds r
    | clock => exact (careful_throw _).minds r
    | answer register => exact (careful_throw _).minds r
    | fixed value =>
      dsimp only
      rw [bind_apply, change, setVariable]
      cases named : validateName .variableName (some name) with
      | error refusal => exact ⟨r.session, rfl⟩
      | ok key =>
        cases validateName_edged edged named
        exact ⟨.single (.undefineVariable found), discard_answers r.family r.environment _ name⟩

theorem undefine_careful {text : String} (edged : Edged text.toList) :
    Careful allowed (undefine text) := by
  by_cases empty : text.toList.isEmpty = true
  · simp only [undefine, empty, if_true]
    exact careful_throw _
  · by_cases called : text.endsWith "()" = true
    · simp only [undefine, empty, called, if_true, Bool.false_eq_true, if_false]
      refine undefineFunction_careful ?_
      rw [String.toList_ofList]
      exact trim_edged _
    · simp only [undefine, empty, called, Bool.false_eq_true, if_false]
      exact undefineVariable_careful edged

/-! ## Other commands -/

theorem stat_idle (text : String) : Idle (stat text) := by
  rw [stat]
  split
  dsimp only
  split
  · exact idle_fail _ _
  · refine idle_bind idle_get fun r => ?_
    split
    · split
      · exact idle_throw _
      · exact idle_pure _
    · split
      · split
        · exact idle_throw _
        · exact idle_pure _
      · split
        · split
          · exact idle_throw _
          · split
            · exact idle_throw _
            · exact idle_pure _
        · exact idle_throw _

theorem showFailure_idle (text : String) : Idle (showFailure text) := by
  intro r
  rw [showFailure]
  cases text.isEmpty with
  | false => rfl
  | true =>
    cases last : r.lastFailure with
    | none => simp [last, fail, left]
    | some failure => simp [last, left]

theorem listPage_idle (text : String) : Idle (listPage text) := by
  rw [listPage]
  refine idle_bind idle_get fun r => ?_
  dsimp only
  split
  · exact idle_throw _
  · split
    · exact idle_fail _ _
    · exact idle_pure _

/-- What the command for contexts does: it shows the context in force if no name is given, and
otherwise changes it unless the name leads to a failure. -/
theorem changeContext_run (text : String) (r : Runner) : changeContext text r =
    if text = "" then .ok ("Current context is " ++ r.options.context.name ++ ".") r
    else match Context.ofName text with
      | .ok ctx => .ok ("Changed context to " ++ ctx.name ++ ".") (r.withContext ctx)
      | .error (.inl _) => .error (.command .context) r
      | .error (.inr f) => .error (.calculation (.fault f)) r := by
  by_cases blank : text = ""
  · subst blank
    rfl
  · have filled : text.isEmpty = false := by simpa using blank
    simp only [changeContext, filled, blank, Bool.false_eq_true, if_false]
    cases Context.ofName text with
    | ok ctx => rfl
    | error problem =>
      cases problem with
      | inl refusal => rfl
      | inr f => rfl

theorem changeContext_careful (text : String) : Careful allowed (changeContext text) := by
  constructor
  intro r
  rw [changeContext_run]
  split
  · exact ⟨.refl, rfl⟩
  · split
    · rename_i ctx named
      exact ⟨.single (.context r ctx), rfl⟩
    · exact ⟨r.session, rfl⟩
    · exact ⟨r.session, rfl⟩

theorem changeFormat_careful (text : String) : Careful allowed (changeFormat text) := by
  constructor
  intro r
  rw [changeFormat]
  cases NumberFormat.ofName? (lowerString text) with
  | none => exact ⟨r.session, rfl⟩
  | some format => exact ⟨.single (.display r r.session r.lastFailure _ r.running), rfl⟩

theorem quit_careful (text : String) : Careful allowed (quit text) := by
  constructor
  intro r
  rw [quit]
  cases text.isEmpty with
  | false => exact ⟨r.session, rfl⟩
  | true => exact ⟨.single (.display r r.session r.lastFailure r.printer false), rfl⟩

/-- The step that a command takes, unless it needs a file. -/
def stepOf (setting : Setting) (arguments : String) : Command → Option (Running (List String))
  | .save => none
  | .load => none
  | .help => some help
  | .define => some do return [← define setting arguments]
  | .undefine => some do return [← undefine arguments]
  | .stat => some do return [← stat arguments]
  | .environment => some (listPage arguments)
  | .context => some do return [← changeContext arguments]
  | .format => some do changeFormat arguments; return []
  | .trace => some do return [← showFailure arguments]
  | .quit => some do quit arguments; return []

theorem command_step {setting : Setting} {arguments : String} {c : Command}
    {step : Running (List String)} (h : stepOf setting arguments c = some step) (r : Runner) :
    command setting arguments r c = .done (finish setting (printing step r)) := by
  cases c with
  | save => cases h
  | load => cases h
  | _ => obtain rfl := Option.some.inj h; rfl

/-- Only saving and loading need a file. -/
theorem stepOf_cases (setting : Setting) (arguments : String) (c : Command) :
    (∃ step, stepOf setting arguments c = some step) ∨ c = .save ∨ c = .load := by
  cases c with
  | save => exact .inr (.inl rfl)
  | load => exact .inr (.inr rfl)
  | _ => exact .inl ⟨_, rfl⟩

theorem stepOf_careful {setting : Setting} {arguments : String} {c : Command}
    {step : Running (List String)} (edged : Edged arguments.toList) (fine : allowed arguments)
    (h : stepOf setting arguments c = some step) : Careful allowed step := by
  cases c with
  | save => cases h
  | load => cases h
  | help => obtain rfl := Option.some.inj h; exact careful_quiet (idle_pure _).quiet
  | define => obtain rfl := Option.some.inj h; exact careful_map (define_careful setting fine) _
  | undefine => obtain rfl := Option.some.inj h; exact careful_map (undefine_careful edged) _
  | stat => obtain rfl := Option.some.inj h; exact careful_map (careful_quiet (stat_idle arguments).quiet) _
  | environment => obtain rfl := Option.some.inj h; exact careful_quiet (listPage_idle arguments).quiet
  | context => obtain rfl := Option.some.inj h; exact careful_map (changeContext_careful arguments) _
  | format => obtain rfl := Option.some.inj h; exact careful_map (changeFormat_careful arguments) _
  | trace => obtain rfl := Option.some.inj h; exact careful_map (careful_quiet (showFailure_idle arguments).quiet) _
  | quit => obtain rfl := Option.some.inj h; exact careful_map (quit_careful arguments) _

theorem answerTo_follows (setting : Setting) (text : String) :
    Follows allowed (answerTo setting text) := by
  rw [answerTo]
  refine follows_bind (careful_quiet (calculate_quiet setting text)).follows fun value r => ?_
  exact .single (.answer r value)

theorem expression_follows (setting : Setting) (text : String) :
    Follows allowed (expression setting text) := by
  rw [expression]
  exact follows_bind (answerTo_follows setting text) fun _ => follows_pure _

theorem defineAll_follows (setting : Setting) {texts : List (Nat × String)}
    (h : ∀ entry ∈ texts, allowed entry.2) : Follows allowed (defineAll setting texts) := by
  induction texts with
  | nil => exact follows_pure 0
  | cons entry rest ih =>
    obtain ⟨here, later⟩ := List.forall_mem_cons.mp h
    rw [defineAll]
    refine follows_bind ?_ fun _ => follows_bind (ih later) fun _ => follows_pure _
    intro r
    have first := (define_careful setting here).follows r
    dsimp only
    split
    · rename_i run
      rw [run] at first
      exact first
    · exact first

theorem finish_edits {setting : Setting} {r : Runner} {result : EStateM.Result LineFailure Runner Shown}
    (h : Leads allowed r result) : Edits allowed r (finish setting result).1 := by
  cases result with
  | ok s r' => exact h
  | error failure r' => exact .tail h (.display r' _ _ _ _)

theorem printing_follows {step : Running (List String)} (h : Follows allowed step) :
    Follows allowed (printing step) := follows_bind h fun _ => follows_pure _

end

/-! ## Lines -/

/-- The arguments of a command have no white space at their ends, and stand on its line. -/
theorem command_arguments (line : List Char) :
    Edged (Command.parse line).2.toList ∧ ∀ c ∈ (Command.parse line).2.toList, c ∈ line := by
  simp only [Command.parse, Command.cut]
  split
  · exact ⟨⟨nofun, nofun⟩, nofun⟩
  · rename_i before after cut
    obtain ⟨same, -⟩ := Definition.cutAt_eq_some.mp cut
    simp only [String.toList_ofList]
    refine ⟨trim_edged after, ?_⟩
    intro c hc
    apply mem_trim
    rw [same]
    exact List.mem_append_right _ (List.mem_cons_of_mem _ (mem_trim hc))

/-- Definitions on a line without line boundaries. -/
def Plain (line : String) (text : String) : Prop := Unbroken line.toList → Unbroken text.toList

theorem load_edits {setting : Setting} {name : String} {r : Runner} {outcome : Runner × LineResult}
    {exchanges : List Exchange} {allowed : String → Prop}
    (fine : ∀ text : String, Unbroken text.toList → allowed text)
    (ends : (load setting name r).Ends exchanges outcome) : Edits allowed r outcome.1 := by
  unfold load at ends
  split at ends
  · cases ends
    exact finish_edits (follows_throw _ r)
  · cases ends with
    | read answer ends =>
      cases answer with
      | error problem =>
        cases ends
        exact finish_edits (follows_throw _ r)
      | ok text =>
        cases ends
        refine finish_edits (printing_follows (follows_bind (defineAll_follows setting ?_) ?_) r)
        · intro entry mem
          exact fine _ (StateFile.definitions_unbroken text entry mem)
        · exact fun _ => follows_pure _

theorem save_edits {setting : Setting} {name : String} {r : Runner} {outcome : Runner × LineResult}
    {exchanges : List Exchange} {allowed : String → Prop}
    (ends : (save setting name r).Ends exchanges outcome) : Edits allowed r outcome.1 := by
  unfold save at ends
  split at ends
  · cases ends
    exact finish_edits (follows_throw _ r)
  · cases ends with
    | write isWritten ends =>
      cases isWritten with
      | false =>
        cases ends
        exact finish_edits (follows_throw _ r)
      | true =>
        cases ends
        exact .single (.display r _ r.lastFailure r.printer r.running)

theorem command_edits {setting : Setting} {arguments : String} {r : Runner} {c : Command}
    {outcome : Runner × LineResult} {exchanges : List Exchange} {allowed : String → Prop}
    (edged : Edged arguments.toList) (fine : allowed arguments)
    (fromFile : ∀ text : String, Unbroken text.toList → allowed text)
    (ends : (command setting arguments r c).Ends exchanges outcome) : Edits allowed r outcome.1 := by
  obtain ⟨step, taken⟩ | rfl | rfl := stepOf_cases setting arguments c
  · rw [command_step taken] at ends
    cases ends
    exact finish_edits (printing_follows (stepOf_careful edged fine taken).follows r)
  · rw [command] at ends
    exact save_edits ends
  · rw [command] at ends
    exact load_edits fromFile ends

/-- A line is a sequence of edits. -/
theorem handle_edits {setting : Setting} {line : Option String} {r : Runner}
    {outcome : Runner × LineResult} {exchanges : List Exchange}
    (ends : (handle setting line r).Ends exchanges outcome) :
    Edits (Plain (line.getD "")) r outcome.1 := by
  unfold handle at ends
  dsimp only at ends
  have cleared : Edits (Plain (line.getD "")) r { r with session := { r.session with events := [] } } :=
    .single (.display r _ r.lastFailure r.printer r.running)
  refine cleared.trans ?_
  generalize { r with session := { r.session with events := [] } } = r at ends
  split at ends
  · cases ends
    exact .refl
  · rename_i rest text
    obtain ⟨edged, mem⟩ := command_arguments rest
    have fine : Plain (line.getD "") (Command.parse rest).2 := by
      intro unbroken c hc
      apply unbroken c
      apply mem_trim
      rw [text]
      exact List.mem_cons_of_mem _ (mem c hc)
    split at ends
    · cases ends
      exact finish_edits (follows_throw _ r)
    · exact command_edits edged fine (fun _ unbroken _ => unbroken) ends
  · cases ends
    exact finish_edits (expression_follows setting _ r)

/-! ## Sequences of lines -/

/-- The runners that sequences of allowed lines lead to, whatever files say. -/
inductive Reached (allowed : String → Prop) (start : Runner) : Runner → Prop where
  | start : Reached allowed start start
  | line {r : Runner} {setting : Setting} {line : Option String} {exchanges : List Exchange}
      {outcome : Runner × LineResult} (before : Reached allowed start r) (fine : allowed (line.getD ""))
      (ends : (handle setting line r).Ends exchanges outcome) : Reached allowed start outcome.1

/-- Lines without line boundaries are edits whose definitions have none. -/
theorem Reached.edits {start r : Runner} (h : Reached (fun line => Unbroken line.toList) start r) :
    Edits (fun text => Unbroken text.toList) start r := by
  induction h with
  | start => exact .refl
  | line before unbroken ends ih =>
    have edits := handle_edits ends
    refine ih.trans (Relation.ReflTransGen.mono ?_ _ _ edits)
    exact fun _ _ h => h.mono fun _ fine => fine unbroken

/-- The runner that lines lead to, one after another on a file tree. -/
def handleLines (setting : Setting) : FileTree → List String → Runner → Runner
  | _, [], r => r
  | tree, line :: rest, r =>
    let (tree, outcome) := (handle setting (some line) r).run tree
    handleLines setting tree rest outcome.1

theorem reached_handleLines {allowed : String → Prop} {start : Runner} (setting : Setting)
    {lines : List String} (h : ∀ line ∈ lines, allowed line) : ∀ (tree : FileTree) (r : Runner),
    Reached allowed start r → Reached allowed start (handleLines setting tree lines r) := by
  induction lines with
  | nil => exact fun _ _ before => before
  | cons line rest ih =>
    intro tree r before
    obtain ⟨here, later⟩ := List.forall_mem_cons.mp h
    obtain ⟨exchanges, ends⟩ := Interaction.run_ends (handle setting (some line) r) tree
    exact ih later _ _ (@Reached.line _ _ _ setting (some line) _ _ before here ends)

end Runner
end Calculator
