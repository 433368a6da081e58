import Calculator.Proofs.Edits
import Mathlib.Data.List.Basic

/-!
# Calculator.Proofs.Lines

What one line does to a runner, told apart by what stands on it, and what a course of lines is.

* `handle_reading`: handling a line, by what stands on it.
* `handle_word`: a line that begins with the name of a command is that command.
* `handle_failed`: a line that fails, unless it loads a file, leaves all of the runner as it was but
  its session and its last failure.
* `handle_value`: the last answer changes with the value of an expression, and with nothing else.
* `Course.edits`: a course of lines is a sequence of edits.
-/

namespace Calculator
namespace Runner

/-! ## What stands on a line -/

inductive Reading where
  | nothing
  | unknown (name : String)
  | command (c : Command) (arguments : String)
  | expression (text : String)
  deriving DecidableEq, Repr

/-- What a text says that has no white space around it. -/
def readingOf : List Char → Reading
  | [] => .nothing
  | ':' :: rest =>
    match Command.ofName? (Command.parse rest).1 with
    | none => .unknown (Command.parse rest).1
    | some c => .command c (Command.parse rest).2
  | text => .expression (String.ofList text)

def reading (line : Option String) : Reading := readingOf (trim (line.getD "").toList)

/-- Whether an expression stands on a line. -/
def isExpression (line : Option String) : Bool :=
  match reading line with
  | .expression _ => true
  | _ => false

theorem handle_reading (setting : Setting) (line : Option String) (r : Runner) :
    handle setting line r = match reading line with
      | .nothing => .done (r.cleared, ⟨none, [], none, []⟩)
      | .unknown name => .done (finish setting (.error (.command (.unknown name)) r.cleared))
      | .command c arguments => command setting arguments r.cleared c
      | .expression text => .done (finish setting (expression setting text r.cleared)) := by
  rw [handle, reading]
  generalize trim (line.getD "").toList = text
  fun_cases readingOf text with
  | case1 => rfl
  | case2 rest unknown => simp only [unknown]; rfl
  | case3 rest c known => simp only [known]; rfl
  | case4 _ filled noCommand =>
    split
    · exact absurd rfl filled
    · exact absurd rfl (noCommand _)
    · rfl

theorem handle_command (setting : Setting) {line : Option String} {c : Command} {arguments : String}
    (h : reading line = .command c arguments) (r : Runner) :
    handle setting line r = command setting arguments r.cleared c := by
  rw [handle_reading, h]

/-- The arguments of a command on a line have no white space at their ends. -/
theorem reading_edged {line : Option String} {c : Command} {arguments : String}
    (h : reading line = .command c arguments) : Edged arguments.toList := by
  rw [reading] at h
  revert h
  fun_cases readingOf (trim (line.getD "").toList) with
  | case1 => exact nofun
  | case2 rest unknown => exact nofun
  | case3 rest c known =>
    rintro ⟨⟩
    exact (command_arguments rest).1
  | case4 => exact nofun

/-- The name of a command, and what follows it. -/
theorem parse_word {word : List Char} (name : List Char) (filled : ∀ c ∈ word, isBlank c = false)
    (ne : word ≠ []) : ∃ rest, trim (':' :: (word ++ ' ' :: name)) = ':' :: rest ∧
      Command.parse rest = (lowerString (String.ofList word), String.ofList (trim name)) := by
  have headed : ∀ c ∈ word.head?, isBlank c = false := fun c hc => filled c (List.mem_of_mem_head? hc)
  have edged : Edged word := ⟨headed, fun c hc => filled c (List.mem_of_getLast? hc)⟩
  have colon : ∀ c ∈ ([':'] : List Char).head?, isBlank c = false := by
    rintro c ⟨⟩
    rfl
  have space : ' ' ∉ word := by
    intro mem
    have blank : isBlank ' ' = true := rfl
    rw [filled ' ' mem] at blank
    cases blank
  obtain ⟨before, after, hb, ha, same⟩ := trim_split name
  have inside := trim_edged name
  generalize trim name = inner at same inside
  subst same
  have gap : Blank (' ' :: before) := blank_cons.mpr ⟨by decide, hb⟩
  by_cases empty : inner = []
  · subst empty
    refine ⟨word, ?_, ?_⟩
    · have padded := trim_padded blank_nil (blank_append.mpr ⟨gap, ha⟩)
        (edged_append colon edged (List.cons_ne_nil _ _) ne)
      simpa using padded
    · rw [Command.parse, Command.cut, trim_of_edged edged, Definition.cutAt_none space]
  · have head : ∀ c ∈ (word ++ ' ' :: before).head?, isBlank c = false := by
      rw [List.head?_append_of_ne_nil _ ne]
      exact headed
    have line : Edged (word ++ ' ' :: before ++ inner) :=
      edged_append head inside (List.append_ne_nil_of_left_ne_nil ne _) empty
    refine ⟨word ++ ' ' :: before ++ inner, ?_, ?_⟩
    · have padded := trim_padded blank_nil ha
        (edged_append colon line (List.cons_ne_nil _ _) (by simp))
      simpa using padded
    · have padded := trim_padded hb blank_nil inside
      have cut := Definition.cutAt_mark (before ++ inner) space
      rw [List.append_nil] at padded
      rw [Command.parse, Command.cut, trim_of_edged line, List.append_assoc, List.cons_append, cut]
      dsimp only
      rw [padded]

theorem handle_word {word : String} {c : Command} (setting : Setting) (name : String) (r : Runner)
    (filled : (word.toList.all fun c => !isBlank c) = true) (ne : word.toList ≠ [])
    (known : Command.ofName? (lowerString word) = some c) :
    handle setting (some (":" ++ word ++ " " ++ name)) r =
      command setting (trimString name) r.cleared c := by
  have blankless : ∀ c ∈ word.toList, isBlank c = false := by simpa using filled
  obtain ⟨rest, line, read⟩ := parse_word name.toList blankless ne
  have written : (":" ++ word ++ " " ++ name).toList = ':' :: (word.toList ++ ' ' :: name.toList) := by
    simp
  rw [String.ofList_toList] at read
  rw [← written] at line
  unfold handle
  simp only [Option.getD_some, line, read, known]
  rfl

theorem handle_save (setting : Setting) (name : String) (r : Runner) :
    handle setting (some (":save " ++ name)) r = save setting (trimString name) r.cleared :=
  @handle_word "save" .save setting name r rfl (by decide) (by decide)

theorem handle_load (setting : Setting) (name : String) (r : Runner) :
    handle setting (some (":load " ++ name)) r = load setting (trimString name) r.cleared :=
  @handle_word "load" .load setting name r rfl (by decide) (by decide)

/-! ## Lines that fail -/

/-- Expressions leave a value, which becomes the last answer, or nothing but their session. -/
theorem expression_run (setting : Setting) (text : String) (r : Runner) :
    expression setting text r =
      match Evaluation.evaluate setting r.family r.environment text r.session with
      | .ok value session => .ok ⟨some value, []⟩ ((r.withSession session).withAnswer value)
      | .error failure session => .error (.calculation failure) (r.withSession session) := by
  rw [expression, bind_apply, answerTo, bind_apply, calculate]
  cases Evaluation.evaluate setting r.family r.environment text r.session with
  | ok value session => rfl
  | error failure session => rfl

theorem Careful.printing {allowed : String → Prop} {step : Running (List String)}
    (h : Careful allowed step) : Careful allowed (printing step) := careful_map h _

theorem Careful.failed {α : Type} {allowed : String → Prop} {step : Running α}
    (h : Careful allowed step) {r r' : Runner} {failure : LineFailure}
    (run : step r = .error failure r') : ∃ session, r' = r.withSession session := by
  have minds := h.minds r
  rw [run] at minds
  exact minds

/-- Steps that do not touch the last answer. -/
def Steady {α : Type} (step : Running α) : Prop :=
  ∀ r, (left (step r)).family.answers = r.family.answers

section

variable {α β : Type}

theorem steady_pure (a : α) : Steady (pure a : Running α) := fun _ => rfl

theorem steady_bind {x : Running α} {f : α → Running β} (hx : Steady x) (hf : ∀ a, Steady (f a)) :
    Steady (x >>= f) :=
  left_bind (fun r r' => r'.family.answers = r.family.answers)
    (fun first later => later.trans first) hx hf

theorem Careful.steady {allowed : String → Prop} {step : Running α} (h : Careful allowed step) :
    Steady step := by
  intro r
  have minds := h.minds r
  cases run : step r with
  | error failure r' =>
    rw [run] at minds
    obtain ⟨session, rfl⟩ := minds
    rfl
  | ok a r' =>
    rw [run] at minds
    exact minds.2

end

/-- Definitions in a file do not touch the last answer, also where one of them fails. -/
theorem defineAll_steady (setting : Setting) (texts : List (Nat × String)) :
    Steady (defineAll setting texts) := by
  induction texts with
  | nil => exact steady_pure 0
  | cons entry rest ih =>
    obtain ⟨number, text⟩ := entry
    rw [defineAll]
    refine steady_bind ?_ fun _ => steady_bind ih fun _ => steady_pure _
    intro r
    have here := (@define_careful (fun _ => True) text setting trivial).steady r
    dsimp only
    split
    · rename_i run
      rw [run] at here
      exact here
    · exact here

/-- What a line does that is no expression: it has no value, and does not touch the last answer. -/
def Silent (r : Runner) (outcome : Runner × LineResult) : Prop :=
  outcome.2.value = none ∧ outcome.1.family.answers = r.family.answers

theorem Steady.silent {step : Running (List String)} (h : Steady step) (setting : Setting)
    (r : Runner) : Silent r (finish setting (printing step r)) := by
  have same := h r
  rw [printing, bind_apply]
  cases run : step r with
  | error failure r' =>
    rw [run] at same
    exact ⟨rfl, same⟩
  | ok lines r' =>
    rw [run] at same
    exact ⟨rfl, same⟩

theorem save_silent {setting : Setting} {name : String} {r : Runner} {exchanges : List Exchange}
    {outcome : Runner × LineResult} (ends : (save setting name r).Ends exchanges outcome) :
    Silent r outcome := by
  unfold save at ends
  split at ends
  · cases ends
    exact ⟨rfl, rfl⟩
  · cases ends with
    | write isWritten ends =>
      cases isWritten with
      | false => cases ends; exact ⟨rfl, rfl⟩
      | true => cases ends; exact ⟨rfl, rfl⟩

theorem load_silent {setting : Setting} {name : String} {r : Runner} {exchanges : List Exchange}
    {outcome : Runner × LineResult} (ends : (load setting name r).Ends exchanges outcome) :
    Silent r outcome := by
  unfold load at ends
  split at ends
  · cases ends
    exact ⟨rfl, rfl⟩
  · cases ends with
    | read answer ends =>
      cases answer with
      | error problem => cases ends; exact ⟨rfl, rfl⟩
      | ok text =>
        obtain ⟨-, rfl⟩ := Interaction.ends_done ends
        have steady := steady_bind (defineAll_steady setting (StateFile.definitions text))
          fun count => steady_pure ["Loaded " ++ toString count ++ " definitions."]
        exact steady.silent setting r

theorem handle_silent {setting : Setting} {line : Option String} {r : Runner}
    {exchanges : List Exchange} {outcome : Runner × LineResult}
    (ends : (handle setting line r).Ends exchanges outcome) (noExpression : isExpression line = false) :
    Silent r outcome := by
  suffices Silent r.cleared outcome from this
  cases read : reading line with
  | nothing =>
    rw [handle_reading, read] at ends
    obtain ⟨-, rfl⟩ := Interaction.ends_done ends
    exact ⟨rfl, rfl⟩
  | unknown name =>
    rw [handle_reading, read] at ends
    obtain ⟨-, rfl⟩ := Interaction.ends_done ends
    exact ⟨rfl, rfl⟩
  | expression text =>
    rw [isExpression, read] at noExpression
    cases noExpression
  | command c arguments =>
    rw [handle_command setting read] at ends
    obtain ⟨step, taken⟩ | rfl | rfl := stepOf_cases setting arguments c
    · have careful := @stepOf_careful (fun _ => True) _ _ _ _ (reading_edged read) trivial taken
      rw [command_step taken] at ends
      obtain ⟨-, rfl⟩ := Interaction.ends_done ends
      exact careful.steady.silent setting r.cleared
    · rw [command] at ends
      exact save_silent ends
    · rw [command] at ends
      exact load_silent ends

/-- An expression has a value unless it fails, and the value becomes the last answer. -/
theorem handle_expression {setting : Setting} {line : Option String} {r : Runner}
    {exchanges : List Exchange} {outcome : Runner × LineResult}
    (ends : (handle setting line r).Ends exchanges outcome) (here : isExpression line = true) :
    (outcome.2.failure.isSome = true ∧ Silent r outcome) ∨ ∃ value, outcome.2.failure = none ∧
      outcome.2.value = some value ∧
      outcome.1.family.answers = (r.family.setAnswer r.answer value).answers := by
  cases read : reading line with
  | expression text =>
    rw [handle_reading, read] at ends
    obtain ⟨-, rfl⟩ := Interaction.ends_done ends
    rw [expression_run]
    cases Evaluation.evaluate setting r.cleared.family r.cleared.environment text
        r.cleared.session with
    | ok value session => exact .inr ⟨value, rfl, rfl, rfl⟩
    | error failure session => exact .inl ⟨rfl, rfl, rfl⟩
  | nothing => rw [isExpression, read] at here; cases here
  | unknown name => rw [isExpression, read] at here; cases here
  | command c arguments => rw [isExpression, read] at here; cases here

/-- A line has a value exactly if it is an expression that succeeds. The value becomes the last
answer, and nothing else does. -/
theorem handle_value {setting : Setting} {line : Option String} {r : Runner}
    {exchanges : List Exchange} {outcome : Runner × LineResult}
    (ends : (handle setting line r).Ends exchanges outcome) :
    (outcome.2.value.isSome = true ↔ isExpression line = true ∧ outcome.2.failure = none) ∧
      outcome.1.family.answers =
        (outcome.2.value.elim r.family (r.family.setAnswer r.answer)).answers := by
  cases here : isExpression line with
  | false =>
    obtain ⟨none, same⟩ := handle_silent ends here
    rw [none, same]
    exact ⟨⟨nofun, nofun⟩, rfl⟩
  | true =>
    obtain ⟨failed, none, same⟩ | ⟨value, fine, some, changed⟩ := handle_expression ends here
    · rw [none, same]
      refine ⟨⟨nofun, ?_⟩, rfl⟩
      rintro ⟨-, fine⟩
      rw [fine] at failed
      cases failed
    · rw [some, changed, fine]
      exact ⟨⟨fun _ => ⟨rfl, rfl⟩, fun _ => rfl⟩, rfl⟩

/-! ## Courses of lines -/

/-- A line that has been handled: under which setting, what files said, and what it led to. -/
structure Handling where
  setting : Setting
  line : Option String
  exchanges : List Exchange
  result : LineResult

/-- Lines that are handled one after another. -/
inductive Course : Runner → List Handling → Runner → Prop where
  | nil (r : Runner) : Course r [] r
  | cons {r next last : Runner} {h : Handling} {rest : List Handling}
      (ends : (handle h.setting h.line r).Ends h.exchanges (next, h.result))
      (later : Course next rest last) : Course r (h :: rest) last

theorem Course.edits {r last : Runner} {handlings : List Handling}
    (course : Course r handlings last) : Edits (fun _ => True) r last := by
  induction course with
  | nil r => exact .refl
  | cons ends later ih =>
    refine Relation.ReflTransGen.trans ?_ ih
    exact Relation.ReflTransGen.mono (fun _ _ edit => edit.mono fun _ _ => trivial) _ _
      (handle_edits ends)

/-- Lines that are carried out on a file tree are a course. -/
theorem course_handleLines (setting : Setting) (lines : List String) :
    ∀ (tree : FileTree) (r : Runner), ∃ handlings,
      Course r handlings (handleLines setting tree lines r) := by
  induction lines with
  | nil => exact fun _ r => ⟨[], .nil r⟩
  | cons line rest ih =>
    intro tree r
    obtain ⟨exchanges, ends⟩ := Interaction.run_ends (handle setting (some line) r) tree
    obtain ⟨handlings, later⟩ := ih ((handle setting (some line) r).run tree).1
      ((handle setting (some line) r).run tree).2.1
    exact ⟨⟨setting, some line, exchanges, _⟩ :: handlings, .cons ends later⟩

end Runner
end Calculator
