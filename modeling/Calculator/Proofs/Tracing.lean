import Calculator.Proofs.Depths
import Calculator.Proofs.Extensions
import Calculator.Proofs.Segments

/-!
# Calculator.Proofs.Tracing

What a calculation reports about the reduction of a chain, and that reporting changes nothing else.

Mathematical meaning: a reduction is a sequence of stages. At each stage the foremost of the cells
that bind tightest is resolved, and its value takes its place among those that are left. The report
has a line for each cell that is resolved, with the values it was resolved from, and between two of
these a line for what is left.

* `Staged`: the stages of a reduction.
* `resolveLevel_passed`, `complete_told`: a traced reduction goes through such stages, and reports
  them.
* `Family.Repeats.result`: an evaluation ends alike whether it is reported or not.
* `parse_cells`: whatever a text is parsed to is a chain of cells.
* `tracing_faithful`: reporting is harmless and faithful.
-/

namespace Calculator

/-! ## Stages -/

/-- A cell that binds tighter than those before it, and at least as tight as those after it. -/
structure Cell.Leads (before : List Cell) (c : Cell) (after : List Cell) : Prop where
  before : ∀ d ∈ before, d.precedence < c.precedence
  after : ∀ d ∈ after, d.precedence ≤ c.precedence

/-- What the operation of a cell gives for its two values. -/
def Cell.apply (ctx : Context) (c : Cell) : Except Failure Decimal :=
  c.operator.operation.apply ctx c.left c.right

/-- A cell that has been resolved, and the cells that were left then. -/
structure Stage where
  resolved : Cell
  left : List Cell

/-- The stages of a reduction from some cells to others, each of which leaves at least one cell. -/
inductive Staged (ctx : Context) : List Cell → List Stage → List Cell → Prop where
  | nil {cells : List Cell} : Staged ctx cells [] cells
  | cons {before after final : List Cell} {c : Cell} {v : Decimal} {stages : List Stage} :
      c.Leads before after → before ++ after ≠ [] → c.apply ctx = .ok v →
      Staged ctx (handOver v before after) stages final →
      Staged ctx (before ++ c :: after) (⟨c, handOver v before after⟩ :: stages) final

section

variable {ctx : Context} {cells middle final : List Cell} {stages later : List Stage}

theorem Staged.append (h : Staged ctx cells stages middle) (h' : Staged ctx middle later final) :
    Staged ctx cells (stages ++ later) final := by
  induction h with
  | nil => exact h'
  | cons leads some applied _ ih => exact .cons leads some applied (ih h')

/-- Each stage leaves one cell less than there was before. -/
theorem Staged.length (h : Staged ctx cells stages final) :
    stages.length + final.length = cells.length := by
  induction h with
  | nil => exact Nat.zero_add _
  | cons _ _ _ _ ih =>
    rw [handOver_length] at ih
    rw [List.length_cons, List.length_append, List.length_cons]
    omega

theorem Staged.left_length (h : Staged ctx cells stages final) :
    ∀ (k : Nat) stage, stages[k]? = some stage → stage.left.length + (k + 1) = cells.length := by
  induction h with
  | nil => exact nofun
  | @cons before after _ c v _ _ _ _ _ ih =>
    have size := handOver_length v before after
    intro k stage there
    rw [List.length_append, List.length_cons]
    cases k with
    | zero =>
      cases there
      change (handOver v before after).length + (0 + 1) = _
      omega
    | succ k =>
      have shorter := ih k stage there
      omega

end

/-! ## Reports -/

/-- The line that reports that a cell is resolved. -/
def Cell.line (c : Cell) : String := "[DBG]      " ++ (c.step none none).text

/-- The lines that report a stage: the cell that is resolved, and the cells that are left. -/
def Stage.lines (stage : Stage) : List String :=
  [stage.resolved.line, "[DBG]      -> " ++ textOfCells stage.left]

/-- The lines that report stages. -/
def linesOf (stages : List Stage) : List String := stages.flatMap Stage.lines

theorem line_step (s : Step) : (Event.step s).line = s.cell.line := by
  change "[DBG] " ++ ("     " ++ s.text) = "[DBG]      " ++ s.text
  rw [← String.append_assoc]
  rfl

theorem line_remaining {chain : StepChain} {items : List PlacedCell} (h : chain.Lists items) :
    (Event.remaining chain).line = "[DBG]      -> " ++ textOfCells (items.map Prod.snd) := by
  change "[DBG] " ++ ("     -> " ++ chain.text) = _
  rw [h.text, ← String.append_assoc]
  rfl

namespace Reduction

/-- The report of a reduction from the beginning on. -/
def reported (r : Reduction) : List String := (r.events.map Event.line).reverse

section

variable {ctx : Context} {level : Nat} {r r' : Reduction} {before after items : List PlacedCell}
  {i : Nat} {c : Cell} {v : Decimal}

/-! ## One step -/

/-- A step that is resolved is reported, and what is left unless the step stays. -/
theorem resolve_traced {s : Step} (i : Nat) (r : Reduction)
    (applied : s.operation.apply ctx s.left s.right = .ok v) :
    resolve ctx true i s r = .ok ()
      ⟨r.chain.splice i v, some v,
        if ((r.chain.splice i v).steps[i]?.map Step.active).getD true then .step s :: r.events
        else .remaining (r.chain.splice i v) :: .step s :: r.events⟩ := by
  simp only [resolve, report_apply, bind_apply, modify_apply, get_apply, applied, if_true]
  cases (r.chain.splice i v).steps[i]? with
  | none => rfl
  | some t => cases active : t.active <;> simp [active, report_apply]

/-- A step between others is reported with what it leaves. -/
theorem resolve_stage (h : r.chain.Lists (before ++ (i, c) :: after)) (ne : before ++ after ≠ [])
    (applied : c.apply ctx = .ok v) :
    ∃ r₁, resolve ctx true i (c.step (lastPlace none before) (firstPlace after none)) r =
        .ok () r₁ ∧
      r₁.chain.Lists (handOverPlaced v before after) ∧
      r₁.reported = r.reported ++
        Stage.lines ⟨c, handOver v (before.map Prod.snd) (after.map Prod.snd)⟩ := by
  obtain ⟨s, there, inactive⟩ := splice_inactive v h ne
  have lists := lists_splice v h ne
  refine ⟨_, resolve_traced i r applied, lists, ?_⟩
  rw [there, Option.map_some, inactive, reported]
  simp only [Option.getD_some, Bool.false_eq_true, if_false, List.map_cons, List.reverse_cons,
    line_step, line_remaining lists, handOverPlaced_cells, List.append_assoc]
  rfl

/-- The last step of all is reported alone. -/
theorem resolve_sole (h : r.chain.Lists [(i, c)]) (applied : c.apply ctx = .ok v) :
    ∃ r₁, resolve ctx true i (c.step none none) r = .ok () r₁ ∧
      r₁.chain.Lists [(i, c.withRight v)] ∧ r₁.value = some v ∧
      r₁.reported = r.reported ++ [c.line] := by
  have lists := splice_sole v h
  have there : (r.chain.splice i v).steps[i]? = some ((c.withRight v).step none none) :=
    lists.linked.1
  refine ⟨_, resolve_traced i r applied, lists, rfl, ?_⟩
  rw [there, reported]
  simp only [Option.map_some, Option.getD_some, Cell.step, if_true, List.map_cons,
    List.reverse_cons, line_step]
  rfl

/-! ## One pass -/

/-- A reduction that has been reported up to its value: all cells but a last one have been resolved
one after another, and then that one. -/
structure Told (ctx : Context) (cells : List Cell) (r r' : Reduction) (stages : List Stage)
    (last : Cell) (v : Decimal) : Prop where
  staged : Staged ctx cells stages [last]
  applied : last.apply ctx = .ok v
  value : r'.value = some v
  reported : r'.reported = r.reported ++ (linesOf stages ++ [last.line])

/-- What a traced pass leads to, from some cells on: cells that bind looser than the pass, or the
last cell of all, which has been resolved. -/
inductive Passed (ctx : Context) (level : Nat) (cells : List Cell) (r r' : Reduction) : Prop where
  | onward {items : List PlacedCell} {stages : List Stage} :
      r'.chain.Lists items → items ≠ [] → (∀ p ∈ items, p.2.precedence < level) →
      Staged ctx cells stages (items.map Prod.snd) →
      r'.reported = r.reported ++ linesOf stages → Passed ctx level cells r r'
  | finished {i : Nat} {last : Cell} {v : Decimal} {stages : List Stage} :
      r'.chain.Lists [(i, last.withRight v)] → last.precedence = level →
      Told ctx cells r r' stages last v → Passed ctx level cells r r'

/-- A stage comes before what a pass leads to after it. -/
theorem Passed.stage {r₁ : Reduction} {left right : List Cell} (leads : c.Leads left right)
    (ne : left ++ right ≠ []) (applied : c.apply ctx = .ok v)
    (report : r₁.reported = r.reported ++ Stage.lines ⟨c, handOver v left right⟩)
    (h : Passed ctx level (handOver v left right) r₁ r') :
    Passed ctx level (left ++ c :: right) r r' := by
  have joined (stages : List Stage) : r₁.reported ++ linesOf stages =
      r.reported ++ linesOf (⟨c, handOver v left right⟩ :: stages) := by
    rw [report, List.append_assoc]
    rfl
  cases h with
  | onward lists some lower staged lines =>
    exact .onward lists some lower (.cons leads ne applied staged) (lines.trans (joined _))
  | finished lists here told =>
    refine .finished lists here ⟨.cons leads ne applied told.staged, told.applied, told.value, ?_⟩
    rw [told.reported, ← List.append_assoc, joined, List.append_assoc]

theorem forall_modifyLast {P : Nat → Prop} (h : ∀ p ∈ before, P p.2.precedence) :
    ∀ p ∈ before.modifyLast (fun p => (p.1, p.2.withRight v)), P p.2.precedence := by
  have kept := map_modifyLast_kept (f := fun p => (p.1, p.2.withRight v))
    (g := fun p : PlacedCell => p.2.precedence) (fun _ => rfl) before
  exact List.forall_mem_map.mp (kept ▸ List.forall_mem_map.mpr h)

theorem forall_modifyHead {P : Nat → Prop} (h : ∀ p ∈ after, P p.2.precedence) :
    ∀ p ∈ after.modifyHead (fun p => (p.1, p.2.withLeft v)), P p.2.precedence := by
  have kept := map_modifyHead_kept (f := fun p => (p.1, p.2.withLeft v))
    (g := fun p : PlacedCell => p.2.precedence) (fun _ => rfl) after
  exact List.forall_mem_map.mp (kept ▸ List.forall_mem_map.mpr h)

/-- The cells before the first one of a pass bind looser than it, and those after it no tighter. -/
theorem leads_of_level (here : c.precedence = level) (lower : ∀ p ∈ before, p.2.precedence < level)
    (atMost : ∀ p ∈ after, p.2.precedence ≤ level) :
    c.Leads (before.map Prod.snd) (after.map Prod.snd) where
  before := List.forall_mem_map.mpr fun p mem => here ▸ lower p mem
  after := List.forall_mem_map.mpr fun p mem => here ▸ atMost p mem

/-- Going along the links once: the cells that are passed bind looser than the level, and those to
come no tighter. The induction is on the number of steps that are visited, since the cells to come
change with every value that is handed over. -/
theorem resolveLevel_passed {fuel : Nat} (h : r.chain.Lists (before ++ items))
    (ne : before ++ items ≠ []) (enough : items.length ≤ fuel)
    (lower : ∀ p ∈ before, p.2.precedence < level) (atMost : ∀ p ∈ items, p.2.precedence ≤ level)
    (run : resolveLevel ctx true level fuel (firstPlace items none) r = .ok () r') :
    Passed ctx level ((before ++ items).map Prod.snd) r r' := by
  induction fuel generalizing r before items with
  | zero =>
    obtain rfl := List.length_eq_zero_iff.mp (Nat.le_zero.mp enough)
    cases run
    rw [List.append_nil] at h ne ⊢
    exact .onward h ne lower .nil (List.append_nil _).symm
  | succ fuel ih =>
    cases items with
    | nil =>
      cases run
      rw [List.append_nil] at h ne ⊢
      exact .onward h ne lower .nil (List.append_nil _).symm
    | cons p after =>
      obtain ⟨i, c⟩ := p
      obtain ⟨-, there, -⟩ := h.at_place
      obtain ⟨highest, atMost⟩ := List.forall_mem_cons.mp atMost
      have enough : after.length ≤ fuel := Nat.le_of_succ_le_succ enough
      rw [firstPlace_cons, resolveLevel_some there] at run
      by_cases here : c.precedence = level
      · rw [if_pos (show (c.step _ _).precedence = level from here)] at run
        cases applied : c.apply ctx with
        | error failure =>
          obtain ⟨r₁, failed⟩ := resolve_error true i (s := c.step (lastPlace none before)
            (firstPlace after none)) r applied
          rw [failed] at run
          cases run
        | ok v =>
          by_cases sole : before ++ after = []
          · obtain ⟨rfl, rfl⟩ := List.append_eq_nil_iff.mp sole
            obtain ⟨r₁, resolved, lists, value, report⟩ := resolve_sole h applied
            rw [show resolve ctx true i (c.step (lastPlace none []) (firstPlace [] none)) r = _
              from resolved] at run
            have settled := resolveLevel_none ctx true level fuel r₁
            cases settled.symm.trans run
            exact .finished lists here ⟨.nil, applied, value, report⟩
          · obtain ⟨r₁, resolved, lists, report⟩ := resolve_stage h sole applied
            rw [resolved] at run
            have first := firstPlace_modifyHead (Cell.withLeft v) after none
            have later := ih lists (handOverPlaced_ne v sole) (by simpa using enough)
              (forall_modifyLast (P := (· < level)) lower)
              (forall_modifyHead (P := (· ≤ level)) atMost) (first ▸ run)
            rw [List.map_append, List.map_cons]
            refine .stage (leads_of_level here lower atMost) ?_ applied report ?_
            · rwa [← List.map_append, Ne, List.map_eq_nil_iff]
            · rw [← handOverPlaced_cells]
              exact later
      · rw [if_neg (show (c.step _ _).precedence ≠ level from here)] at run
        have split : before ++ (i, c) :: after = (before ++ [(i, c)]) ++ after := by simp
        rw [split] at h ne ⊢
        refine ih h ne enough ?_ atMost run
        exact List.forall_mem_append.mpr
          ⟨lower, List.forall_mem_singleton.mpr (Nat.lt_of_le_of_ne highest here)⟩

/-- One whole pass, from the head on. -/
theorem resolveAll_passed (h : r.chain.Lists items) (ne : items ≠ [])
    (atMost : ∀ p ∈ items, p.2.precedence ≤ level)
    (run : resolveAll ctx true level r = .ok () r') :
    Passed ctx level (items.map Prod.snd) r r' := by
  obtain ⟨_, _, ⟨⟩, run⟩ := bind_eq_ok.mp run
  rw [h.head] at run
  have nobody : ∀ p ∈ ([] : List PlacedCell), p.2.precedence < level := nofun
  exact resolveLevel_passed (show r.chain.Lists ([] ++ items) from h) ne h.room nobody atMost run

/-! ## All passes -/

/-- After the last cell has been resolved, the remaining passes do nothing. -/
theorem resolveDown_finished {last : Cell} {r₁ : Reduction}
    (lists : r₁.chain.Lists [(i, last.withRight v)]) (here : last.precedence = level + 1)
    (value : r₁.value = some v) : resolveDown ctx true level r₁ = .ok () r₁ := by
  have left : Leaves (level + 1) r₁ v [] :=
    ⟨value, i, _, lists.head, lists.linked.1, rfl, here⟩
  exact resolveDown_settled left (Nat.lt_succ_self level)

theorem resolveDown_told (h : r.chain.Lists items) (ne : items ≠ [])
    (atMost : ∀ p ∈ items, p.2.precedence ≤ level)
    (run : resolveDown ctx true level r = .ok () r') :
    ∃ stages last v, Told ctx (items.map Prod.snd) r r' stages last v := by
  induction level generalizing r items with
  | zero =>
    cases resolveAll_passed h ne atMost run with
    | onward _ some lower =>
      obtain ⟨p, rest, rfl⟩ := List.exists_cons_of_ne_nil some
      exact absurd (lower p List.mem_cons_self) (Nat.not_lt_zero _)
    | finished _ _ told => exact ⟨_, _, _, told⟩
  | succ level ih =>
    obtain ⟨_, r₁, pass, run⟩ := bind_eq_ok.mp run
    cases resolveAll_passed h ne atMost pass with
    | @onward _ earlier lists some lower staged lines =>
      have below := fun p mem => Nat.le_of_lt_succ (lower p mem)
      obtain ⟨stages, last, v, told⟩ := ih lists some below run
      refine ⟨earlier ++ stages, last, v, staged.append told.staged, told.applied, told.value, ?_⟩
      rw [told.reported, lines, linesOf, linesOf, linesOf, List.flatMap_append]
      simp only [List.append_assoc]
    | finished lists here told =>
      cases (resolveDown_finished lists here told.value).symm.trans run
      exact ⟨_, _, _, told⟩

end

/-- A traced reduction of a chain that succeeds has reported its stages. -/
theorem complete_told {ctx : Context} {cells : List Cell} (ne : cells ≠ []) {value : Option Decimal}
    {r : Reduction} (run : complete ctx true (.start (.ofCells cells)) = .ok value r) :
    r.value = value ∧
      ∃ stages last v, Told ctx cells (.start (.ofCells cells)) r stages last v := by
  have lists := ofCells_lists cells
  have same := placeCells_cells cells
  have atMost := List.forall_mem_map.mp lists.precedence_le
  have some : placeCells cells ≠ [] := fun empty => ne (by rw [← same, empty]; rfl)
  obtain ⟨_, _, ⟨⟩, run⟩ := bind_eq_ok.mp run
  obtain ⟨_, _, down, ⟨⟩⟩ := bind_eq_ok.mp run
  have told := resolveDown_told lists some atMost down
  rw [same] at told
  exact ⟨rfl, told⟩

end Reduction

/-! ## Evaluations -/

section

variable {family : Family} {id : EnvId} {text : String} {setting setting' : Setting} {s t : Session}

/-- Reporting makes no difference to a run. -/
theorem Family.evaluate_traced (built : family.Built) (lt : id < family.members.size)
    (text : String) (now : setting'.now = setting.now) (seed : t.seed = s.seed) :
    result (Evaluation.evaluate setting family id text s) =
      result (Evaluation.evaluate setting' family id text t) := by
  have offers (i : EnvId) :
      Comparison.alike.Offers (family.scope setting.now i) (family.scope setting'.now i) := by
    rw [now]
    exact (Comparison.alike_lenient.sound _).offers
  have run := Comparison.ending_eq
    (Evaluation.evaluate_matches built built lt lt offers (offers id) text) seed
  have outcome (ended : EStateM.Result Failure Session Decimal) :
      (ending ended).1 = result ended := by
    cases ended <;> rfl
  rw [← outcome, ← outcome, run]

/-- An evaluation ends alike whether it is reported or not. -/
theorem Family.Repeats.result (built : family.Built) (lt : id < family.members.size)
    (repeats : family.Repeats id text setting setting' s t) :
    result (Evaluation.evaluate setting family id text s) =
      result (Evaluation.evaluate setting' family id text t) := by
  rcases repeats with ⟨now, seed⟩ | free
  · exact evaluate_traced built lt text now seed
  · obtain ⟨now, tracing⟩ := setting
    have moved := Evaluation.evaluate_unused built lt lt ⟨fun _ _ => rfl, rfl⟩ free tracing now
      setting'.now s t
    exact moved.trans (evaluate_traced built lt text rfl rfl)

end

namespace Evaluation

section

variable {setting : Setting} {inner : Inner} {family : Family} {id : EnvId} {s s' : Session}
  {chain : StepChain}

/-- What cells are extended by is further cells, and a value alone is a cell as well. -/
theorem parseRest_cells {rest : Continuation} (cells : List Cell) {left : Decimal}
    (run : parseRest setting inner family id (.ofCells cells) left rest s = .ok chain s') :
    ∃ cells, cells ≠ [] ∧ chain = .ofCells cells := by
  induction rest generalizing cells left s with
  | done =>
    cases run
    cases cells with
    | nil =>
      let handBack : Binding := ⟨Operation.handBack.symbol, .handBack, 0⟩
      exact ⟨[⟨left, handBack, left⟩], List.cons_ne_nil _ _, rfl⟩
    | cons c rest =>
      refine ⟨c :: rest, List.cons_ne_nil _ _, if_neg ?_⟩
      rw [Array.isEmpty_iff_size_eq_zero, ofCells_size]
      exact Nat.succ_ne_zero _
  | broken form => cases run
  | brokenValue symbol form =>
    obtain ⟨_, _, _, ⟨⟩⟩ := bind_eq_ok.mp run
  | clause symbol token next ih =>
    obtain ⟨binding, _, _, run⟩ := bind_eq_ok.mp run
    obtain ⟨right, _, _, run⟩ := bind_eq_ok.mp run
    have extended := ofCells_concat cells ⟨left, binding, right⟩
    exact ih _ (extended ▸ run)

/-- Whatever a text is parsed to is a chain of cells. -/
theorem parse_cells {text : List Char} (run : parse setting inner family id text s = .ok chain s') :
    ∃ cells, cells ≠ [] ∧ chain = .ofCells cells := by
  cases read : Phrase.read text with
  | error form =>
    rw [parse, read] at run
    cases run
  | ok phrase =>
    rw [parse, read] at run
    obtain ⟨first, _, _, run⟩ := bind_eq_ok.mp run
    exact parseRest_cells [] run

end

/-- Reporting is harmless and faithful. A text that needs neither the time nor the generator, or
finds them as they were, has the same value or failure whether it is reported or not. And a chain
whose reduction is reported and succeeds has been reduced stage by stage: each line for a cell shows
the values that its operation was applied to, and each line after it the cells that were left. Every
text is parsed to such a chain. -/
theorem tracing_faithful :
    (∀ {family : Family}, family.Built → ∀ {id : EnvId}, id < family.members.size →
      ∀ (text : String) {setting setting' : Setting} {s t : Session},
      family.Repeats id text setting setting' s t →
      result (evaluate setting family id text s) = result (evaluate setting' family id text t)) ∧
    (∀ {now : Int} {ctx : Context} {cells : List Cell} {s s' : Session} {v : Decimal}, cells ≠ [] →
      reduce ⟨now, true⟩ ctx (.ofCells cells) s = .ok v s' →
      ∃ (stages : List Stage) (last : Cell), Staged ctx cells stages [last] ∧
        last.apply ctx = .ok v ∧
        s'.report = s.report ++ (linesOf stages ++ [last.line]) ∧
        stages.length + 1 = cells.length ∧
        ∀ (k : Nat) stage, stages[k]? = some stage →
          stage.left.length + (k + 1) = cells.length) ∧
    ∀ {setting : Setting} {inner : Inner} {family : Family} {id : EnvId} {text : List Char}
      {s s' : Session} {chain : StepChain},
      parse setting inner family id text s = .ok chain s' →
      ∃ cells, cells ≠ [] ∧ chain = .ofCells cells := by
  refine ⟨fun built _ lt _ _ _ _ _ repeats => repeats.result built lt, ?_, parse_cells⟩
  intro now ctx cells s s' v ne run
  rw [reduce] at run
  cases ends : Reduction.complete ctx true (.start (.ofCells cells)) with
  | error failure r =>
    rw [ends] at run
    cases run
  | ok value r =>
    rw [ends] at run
    obtain ⟨here, stages, last, w, told⟩ := Reduction.complete_told ne ends
    cases here.symm.trans told.value
    cases run
    have staged := told.staged
    refine ⟨stages, last, staged, told.applied, ?_, staged.length, staged.left_length⟩
    rw [Session.report, List.map_append, List.reverse_append]
    exact congrArg _ told.reported

/-- The cells of a sum with a product in it. -/
def sumCells : List Cell :=
  [⟨.ofInt 1, Operators.standard "+" 1 "add" fun ctx a b => a.add ctx b, .ofInt 2⟩,
    ⟨.ofInt 2, Operators.standard "*" 2 "mul" fun ctx a b => a.multiply ctx b, .ofInt 3⟩,
    ⟨.ofInt 3, Operators.standard "-" 1 "sub" fun ctx a b => a.subtract ctx b, .ofInt 4⟩]

theorem tracing_faithful_sum :
    result (evaluate ⟨0, true⟩ Family.empty.addStandard.1 0 "1+2*3-4" (.start 0)) =
      .ok (.ofInt 3) ∧
    ∃ s' stages last, reduce ⟨0, true⟩ .ambient (.ofCells sumCells) (.start 0) =
        .ok (.ofInt 3) s' ∧
      Staged .ambient sumCells stages [last] ∧ stages.length = 2 ∧
      linesOf stages ++ [last.line] = ["[DBG]      2*3", "[DBG]      -> 1+6-4",
        "[DBG]      1+6", "[DBG]      -> 7-4", "[DBG]      7-4"] := by
  obtain ⟨harmless, faithful, -⟩ := tracing_faithful
  have exist : 0 < Family.empty.addStandard.1.members.size := by
    rw [Family.standard_size]
    exact Nat.zero_lt_one
  have silent : result (evaluate ⟨0, false⟩ Family.empty.addStandard.1 0 "1+2*3-4" (.start 0)) =
      .ok (.ofInt 3) := by
    decide +kernel
  have run : ∃ s', reduce ⟨0, true⟩ .ambient (.ofCells sumCells) (.start 0) = .ok (.ofInt 3) s' ∧
      s'.report = ["[DBG]      2*3", "[DBG]      -> 1+6-4", "[DBG]      1+6", "[DBG]      -> 7-4",
        "[DBG]      7-4"] := ⟨_, rfl, by decide +kernel⟩
  obtain ⟨s', run, report⟩ := run
  obtain ⟨stages, last, staged, -, lines, length, -⟩ := faithful (List.cons_ne_nil _ _) run
  refine ⟨?_, s', stages, last, run, staged, Nat.succ.inj length, lines.symm.trans report⟩
  rw [← silent]
  exact harmless (Family.built_addStandard .empty) exist _ (.inl ⟨rfl, rfl⟩)

end Evaluation

end Calculator
