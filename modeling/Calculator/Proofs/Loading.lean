import Calculator.Proofs.Interpreter
import Calculator.Proofs.Stored
import Mathlib.Data.List.Perm.Basic

/-!
# Calculator.Proofs.Loading

What the lines of a state file define.

* `evaluate_plain`: the plain form of a number has that number as its value, in every context.
* `Anew`: items whose lines define nothing twice.
* `define_item`, `defineAll_items`: the lines of such items define them, in their order.
-/

namespace Calculator

/-! ## Values -/

namespace Decimal

/-- The number that the plain form of a number is read as. -/
def reread (a : Decimal) : Decimal := (parseLiteral a.toPlain).toOption.getD a

theorem PlainReading.literal {a : Decimal} {minus : Bool} {n : Numeral} (h : PlainReading a minus n) :
    parseLiteral a.toPlain = .ok (ofNumeral minus n.text) := by
  rw [h.text]
  cases minus with
  | false => exact parseLiteral_numeral n
  | true =>
    have head : ((sign true ++ n.text).head? == some '-') = true := rfl
    rw [parseLiteral, head]
    simp only [if_true, sign, List.singleton_append, List.drop_succ_cons, List.drop_zero, n.valid]

theorem PlainReading.reread {a : Decimal} {minus : Bool} {n : Numeral} (h : PlainReading a minus n) :
    a.reread = ofNumeral minus n.text := by
  rw [Decimal.reread, h.literal]
  rfl

theorem reread_toPlain {a : Decimal} (h : a.isFinite = true) : a.reread.toPlain = a.toPlain := by
  obtain ⟨minus, n, reading⟩ := toPlain_reading h
  rw [reading.reread, reading.again]

theorem reread_sameValue {a : Decimal} (h : a.isFinite = true) : a.reread.sameValue a = true := by
  obtain ⟨minus, n, reading⟩ := toPlain_reading h
  rw [reading.reread, reading.value]

theorem reread_finite {a : Decimal} (h : a.isFinite = true) : a.reread.isFinite = true := by
  obtain ⟨minus, n, reading⟩ := toPlain_reading h
  rw [reading.reread]
  rfl

end Decimal

namespace Evaluation

variable {setting : Setting} {inner : Inner} {family : Family} {id : EnvId}

theorem parse_numeral (minus : Bool) (n : Numeral) :
    parse setting inner family id (signed minus n.text) =
      pure (.ofValue (Decimal.ofNumeral minus n.text)) := by
  have plain : (Tree.chain minus (.numeral n) .nil).Plain := ⟨trivial, trivial⟩
  have read := Tree.read_render plain
  have operand := @ofToken_signed (.numeral n) minus trivial
  rw [Tree.render, Operations.render, List.append_nil] at read
  rw [parse, ← Atom.render, read]
  dsimp only
  rw [operand]
  cases minus with
  | true =>
    simp only [if_true, Atom.operand, operandValue, parseLiteral_numeral]
    rfl
  | false =>
    simp only [Bool.false_eq_true, if_false, Atom.operand, operandValue, parseLiteral_numeral]
    rfl

/-- The plain form of a number has that number as its value, in every context. -/
theorem evaluate_plain {a : Decimal} (finite : a.isFinite = true)
    (deep : 1 ≤ (family.options id).maxDepth) (session : Session) :
    ∃ later, evaluate setting family id (String.ofList a.toPlain) session = .ok a.reread later := by
  obtain ⟨minus, n, reading⟩ := Decimal.toPlain_reading finite
  have shallow : ¬ (family.options id).maxDepth < ((0 : Nat) : Int) + 1 := by omega
  have opened : Agrees (evaluateOpen setting (evaluateAt setting 139 1) family id (signed minus n.text))
      (pure a.reread) := by
    rw [evaluateOpen, reading.reread]
    apply agrees_report
    rw [parse_numeral]
    have reduced := reduce_agrees setting (family.options id).context (Decimal.ofNumeral minus n.text) []
    rw [chainValue_nil] at reduced
    rw [pure_bind]
    exact agrees_report reduced
  obtain ⟨events, run⟩ := opened session
  refine ⟨⟨events, session.seed⟩, ?_⟩
  rw [evaluate, String.toList_ofList, reading.text, ← Decimal.signed_eq, stackRoom, evaluateAt]
  simp only [shallow, if_false]
  exact run

end Evaluation

/-! ## Items -/

namespace StateFile

/-- What a line of a state file defines. -/
inductive Item where
  | function (f : UserFunction)
  | var (entry : String × Decimal)

namespace Item

def line : Item → String
  | function f => f.definitionLine
  | var entry => variableLine entry

/-- The functions that the line of an item defines. -/
def functions : Item → List (String × UserFunction)
  | function f => [(f.name, f)]
  | var _ => []

/-- The variables that the line of an item defines. -/
def vars : Item → List (String × Decimal)
  | function _ => []
  | var entry => [(entry.1, entry.2.reread)]

/-- Items whose lines can define them in the standard environment. -/
def Fine : Item → Prop
  | function f => f.Storable ∧ f.scope = some 0 ∧
      f.name ∉ standardEnvironment.functions.map (·.1)
  | var entry => Label .variableName entry.1.toList ∧ entry.2.isFinite = true ∧
      entry.1 ∉ standardEnvironment.vars.map (·.1)

end Item
end StateFile

namespace Runner

open StateFile

variable {settings : Settings} {base : Path} {setting : Setting} {r : Runner}

theorem define_function (h : Sound settings base r) {f : UserFunction}
    (fine : Item.Fine (.function f)) :
    ∃ shown, define setting f.definitionLine r = .ok shown (r.withFunction f) := by
  obtain ⟨storable, scope, foreign⟩ := fine
  let d : Definition := ⟨f.name, some f.parameters, f.guard, f.body⟩
  have same : d.function f.parameters (some r.environment) = f := by
    rw [h.environment, ← scope]
    rfl
  obtain ⟨shown, run⟩ := @defineFunction_run d f.parameters r storable.name (h.userFunction foreign)
  rw [same] at run
  refine ⟨shown, ?_⟩
  simp only [define, parse_definitionLine storable.toStated]
  exact run

theorem define_variable (h : Sound settings base r) (deep : 1 ≤ settings.maxDepth)
    {entry : String × Decimal} (fine : Item.Fine (.var entry)) :
    ∃ shown session, define setting (variableLine entry) r =
      .ok shown ({ r with session := session }.withVariable entry.1 entry.2.reread) := by
  obtain ⟨label, finite, foreign⟩ := fine
  obtain ⟨ctx, members⟩ := h.members
  have depth : 1 ≤ (r.family.options r.environment).maxDepth := by
    simpa [Family.options, Family.environment, members, h.environment, tables, optionsOf] using deep
  obtain ⟨session, value⟩ := @Evaluation.evaluate_plain setting r.family r.environment _ finite
    depth r.session
  have later := h.display session r.lastFailure r.printer r.running
  let d : Definition := ⟨entry.1, none, none, String.ofList entry.2.toPlain⟩
  have run : definingValue setting d.body r =
      .ok entry.2.reread { r with session := session } := by
    rw [definingValue, calculate, value]
  obtain ⟨shown, done⟩ := @defineVariable_run setting d _ _ _ label run
    (Decimal.reread_finite finite) (later.userVariable foreign)
  have edged : Edged (String.ofList entry.2.toPlain).toList := by
    rw [String.toList_ofList]
    exact toPlain_edged finite
  have filled : (String.ofList entry.2.toPlain).toList ≠ [] := by
    rw [String.toList_ofList]
    exact toPlain_ne finite
  refine ⟨shown, session, ?_⟩
  simp only [define, variableLine, parse_variableLine label edged filled]
  exact done

/-- Items that can be defined one after another without defining a name twice. -/
structure Anew (r : Runner) (items : List Item) : Prop where
  fine : ∀ item ∈ items, item.Fine
  functionNames : ((r.functions ++ items.flatMap Item.functions).map (·.1)).Nodup
  variableNames : ((r.vars ++ items.flatMap Item.vars).map (·.1)).Nodup

theorem name_new {α : Type} {key : String} {value : α} {entries rest : List (String × α)}
    (h : ((entries ++ ([(key, value)] ++ rest)).map (·.1)).Nodup) :
    key ∉ entries.map (·.1) := by
  rw [List.map_append, List.nodup_append] at h
  intro known
  exact h.2.2 key known key List.mem_cons_self rfl

/-- A runner to which the functions and variables of items have been added. -/
structure Extended (settings : Settings) (base : Path) (items : List Item) (r r' : Runner) :
    Prop where
  sound : Sound settings base r'
  functions : r'.functions = r.functions ++ items.flatMap Item.functions
  vars : r'.vars = r.vars ++ items.flatMap Item.vars

theorem define_item (h : Sound settings base r) (deep : 1 ≤ settings.maxDepth) {item : Item}
    {rest : List Item} (anew : Anew r (item :: rest)) :
    ∃ shown r', define setting item.line r = .ok shown r' ∧ Extended settings base [item] r r' := by
  have fine := anew.fine item List.mem_cons_self
  cases item with
  | function f =>
    obtain ⟨shown, run⟩ := @define_function _ _ setting _ h f fine
    have new : f.name ∉ r.functions.map (·.1) := name_new anew.functionNames
    exact ⟨shown, _, run, h.withFunction fine.2.2, assign_new new, (List.append_nil _).symm⟩
  | var entry =>
    obtain ⟨shown, session, run⟩ := @define_variable _ _ setting _ h deep entry fine
    have later := h.display session r.lastFailure r.printer r.running
    have new : entry.1 ∉ r.vars.map (·.1) := name_new anew.variableNames
    exact ⟨shown, _, run, later.withVariable _ fine.2.2, (List.append_nil _).symm, assign_new new⟩

/-- The lines of items define them in their order. -/
theorem defineAll_items (deep : 1 ≤ settings.maxDepth) (items : List Item) :
    ∀ (texts : List (Nat × String)) (r : Runner), texts.map (·.2) = items.map Item.line →
      Sound settings base r → Anew r items →
      ∃ r', defineAll setting texts r = .ok items.length r' ∧ Extended settings base items r r' := by
  induction items with
  | nil =>
    intro texts r same h anew
    rw [List.map_nil, List.map_eq_nil_iff] at same
    rw [same]
    exact ⟨r, rfl, h, (List.append_nil _).symm, (List.append_nil _).symm⟩
  | cons item rest ih =>
    intro texts r same h anew
    obtain ⟨⟨number, text⟩, texts, rfl, rfl, same'⟩ := List.map_eq_cons_iff.mp same
    obtain ⟨shown, r', run, first⟩ := @define_item _ _ setting _ h deep _ _ anew
    have functions : r'.functions ++ rest.flatMap Item.functions =
        r.functions ++ (item :: rest).flatMap Item.functions := by
      rw [first.functions, List.append_assoc, List.flatMap_singleton, List.flatMap_cons]
    have vars : r'.vars ++ rest.flatMap Item.vars = r.vars ++ (item :: rest).flatMap Item.vars := by
      rw [first.vars, List.append_assoc, List.flatMap_singleton, List.flatMap_cons]
    have left : Anew r' rest := by
      refine ⟨fun i mem => anew.fine i (List.mem_cons_of_mem _ mem), ?_, ?_⟩
      · rw [functions]
        exact anew.functionNames
      · rw [vars]
        exact anew.variableNames
    obtain ⟨r'', done, later⟩ := ih texts r' same' first.sound left
    refine ⟨r'', ?_, later.sound, later.functions.trans functions, later.vars.trans vars⟩
    rw [defineAll]
    refine bind_eq_ok.mpr ⟨shown, r', ?_, bind_eq_ok.mpr ⟨rest.length, r'', done, rfl⟩⟩
    rw [run]

end Runner
end Calculator
