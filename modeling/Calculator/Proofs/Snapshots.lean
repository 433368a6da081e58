import Calculator.Proofs.Visibility

/-!
# Calculator.Proofs.Snapshots

How independent a snapshot is of what it was taken of. Its tables and options are its own. But a
user function in it that is bound to the original, or to an overlay of that, still reads the
original whenever it is called.

* `Later`: the families that come about by changes of the original, and by new last answers.
* `snapshot_independent`: none of them makes a difference to the snapshot, nor to a text evaluated
  there that calls no function bound to the original.
* `snapshot_follows_original`: it does make a difference to one that does.
-/

namespace Calculator
namespace Family

/-- The families that come about while an environment is changed, and results become last
answers. -/
inductive Later (original : EnvId) (made : Family) : Family → Prop
  | made : Later original made made
  | changed {family after : Family} {change : Change} :
      Later original made family → change.Bound family.members.size →
      change.run family original = .ok after → Later original made after
  | answered {family : Family} (register : Nat) (value : Decimal) :
      Later original made family → Later original made (family.setAnswer register value)

/-- What stays as it is meanwhile. -/
structure Untouched (original : EnvId) (made family : Family) : Prop where
  built : family.Built
  size : family.members.size = made.members.size
  kept : ∀ i, i ≠ original → family.environment i = made.environment i

section

variable {original : EnvId} {made family : Family}

theorem Untouched.changed {after : Family} {change : Change} (h : Untouched original made family)
    (bound : change.Bound family.members.size) (run : change.run family original = .ok after) :
    Untouched original made after := by
  have built := Change.run_built h.built bound run
  rcases change.decided with ⟨refusal, refused⟩ | ⟨effect, done⟩
  · rw [refused] at run
    cases run
  · rw [done] at run
    cases run
    exact {
      built := built
      size := effect.apply_size.trans h.size
      kept := fun i ne => (effect.apply_other ne).trans (h.kept i ne) }

theorem later_untouched (built : made.Built) (later : Later original made family) :
    Untouched original made family := by
  induction later with
  | made => exact ⟨built, rfl, fun _ _ => rfl⟩
  | changed _ bound run ih => exact ih.changed bound run
  | answered register value _ ih => exact ⟨.setAnswer ih.built, ih.size, ih.kept⟩

/-- Whatever does not lie over the original shows the same. -/
theorem Untouched.view (h : Untouched original made family) {i : EnvId}
    (apart : original ∉ made.layers i) : family.SameView i made i :=
  view_kept fun j mem => h.kept j fun same => apart (same ▸ mem)

/-- What may differ after changes of an environment, at another time and with other random numbers:
clocks, last answers, functions that draw, the environment itself and all that lies over it. -/
def changes (made : Family) (original : EnvId) : Moving where
  names id name := ∃ v, made.lookup id .vars name = some v ∧
    (v = .clock ∨ ∃ register, v = .answer register)
  natives f := f.draws = true
  environments id := original ∈ made.layers id

theorem Untouched.near (h : Untouched original made family) (now now' : Int) {i : EnvId}
    (apart : original ∉ made.layers i) :
    Near Eq ((made.changes original).names i) (made.scope now i) (family.scope now' i)
      (made.scope now i) := by
  have view := h.view apart
  refine scopes_near (fun kind => funext fun key => view.lookup kind key) ?_
    (by rw [view.options]) (by rw [view.options])
  intro name v still found
  cases v with
  | clock => exact absurd ⟨_, found, .inl rfl⟩ still
  | answer register => exact absurd ⟨_, found, .inr ⟨register, rfl⟩⟩ still
  | fixed value => rfl
  | constant value => rfl

/-- A text that touches none of it comes to the same before and after. -/
theorem Untouched.evaluate (h : Untouched original made family) (built : made.Built) {id : EnvId}
    (exist : id < made.members.size) {text : String} {now : Int}
    (free : ¬ Touches (made.scope now) (made.changes original) id text.toList) (tracing : Bool)
    (now' : Int) (s s' : Session) :
    result (Evaluation.evaluate ⟨now', tracing⟩ family id text s') =
      result (Evaluation.evaluate ⟨now, tracing⟩ made id text s) := by
  have compared : Counting.Comparable Eq (made.changes original) ⟨now', tracing⟩ ⟨now, tracing⟩
      (family.scope now') (made.scope now) :=
    ⟨rfl, fun _ draws => draws, fun _ apart => h.near now now' apart⟩
  have near := h.near now now' fun lies => free (.environment lies)
  have follows := Counting.evaluateAt_follows compared (fun _ _ same => same) stackRoom stackRoom 0
    (.inl rfl) near free
  have start : Abreast none 0 (.start s') (.start s) := ⟨rfl, rfl, rfl, nofun⟩
  have after := Evaluation.evaluateAt_counts ⟨now', tracing⟩ h.built stackRoom 0 text.toList
    (Shows.start h.built (h.size ▸ exist) now') (.start s') rfl
  have before := Evaluation.evaluateAt_counts ⟨now, tracing⟩ built stackRoom 0 text.toList
    (Shows.start built exist now) (.start s) rfl
  exact after.outcome.symm.trans ((follows.ended start).outcome.trans before.outcome)

end

/-- A snapshot shows the same whatever becomes of the original, and has the same options. A text has
the same value or the same failure in it as before, if it reads no clock and no last answer, draws no
random number, and calls no user function that is bound to the original or to an overlay of it. -/
theorem snapshot_independent {base family : Family} {original : EnvId} (built : base.Built)
    (exist : original < base.members.size)
    (later : Later original (base.snapshot original).1 family) :
    family.SameView (base.snapshot original).2 base original ∧
    (∀ kind, family.names (base.snapshot original).2 kind =
      (base.snapshot original).1.names (base.snapshot original).2 kind) ∧
    ∀ (text : String) (now : Int),
      ¬ Touches ((base.snapshot original).1.scope now) ((base.snapshot original).1.changes original)
        (base.snapshot original).2 text.toList →
      ∀ (tracing : Bool) (now' : Int) (s s' : Session),
        result (Evaluation.evaluate ⟨now', tracing⟩ family (base.snapshot original).2 text s') =
          result (Evaluation.evaluate ⟨now, tracing⟩ (base.snapshot original).1
            (base.snapshot original).2 text s) := by
  have untouched := later_untouched (.snapshot built exist) later
  have size := snapshot_size base original
  have layers := snapshot_layers base original
  have apart : original ∉ (base.snapshot original).1.layers (base.snapshot original).2 := by
    rw [layers, List.mem_singleton]
    exact Nat.ne_of_lt exist
  have own : family.environment (base.snapshot original).2 =
      (base.snapshot original).1.environment (base.snapshot original).2 :=
    untouched.kept _ (Nat.ne_of_gt exist)
  refine ⟨(untouched.view apart).trans (snapshot_view (built_distinct built) original), ?_, ?_⟩
  · intro kind
    rw [names, names, Family.layers, own, ← Family.layers, layers]
    refine namesIn_congr (fun i mem => ?_) kind
    rw [List.mem_singleton.mp mem, own]
  · intro text now free tracing now' s s'
    exact untouched.evaluate (.snapshot built exist) (size ▸ Nat.lt_succ_self _) free tracing now'
      s s'

/-! ## A function that is bound to the original -/

/-- A root with a variable, and a function bound to that root which reads it. -/
def gauged : Family :=
  (Family.empty.addRoot.1.register 0 .vars "k" (some (.fixed (.ofInt 3)))).register 0 .functions "f"
    (some (.user ⟨"f", [], "k", none, some 0⟩))

theorem gauged_built : gauged.Built := by
  have first : Family.empty.addRoot.1.setVariable 0 (some "k") (.number (.ofInt 3)) =
      .ok (Family.empty.addRoot.1.register 0 .vars "k" (some (.fixed (.ofInt 3)))) := rfl
  have second : (Family.empty.addRoot.1.register 0 .vars "k"
      (some (.fixed (.ofInt 3)))).setFunction 0 (some "f")
        (.given (.user ⟨"f", [], "k", none, some 0⟩)) = .ok gauged := rfl
  refine .setFunction (.setVariable (.addRoot .empty) first) second fun u scope same bound => ?_
  cases same
  cases bound
  decide

/-- The root and its snapshot, after the variable has been changed in the root. -/
def regauged : Family := (gauged.snapshot 0).1.register 0 .vars "k" (some (.fixed (.ofInt 5)))

theorem regauged_later : Later 0 (gauged.snapshot 0).1 regauged := by
  have run : Change.run (gauged.snapshot 0).1 0 (.setVariable (some "k") (.number (.ofInt 5))) =
      .ok regauged := rfl
  refine .changed .made (fun name u scope same => ?_) run
  cases same

theorem gauged_untouched :
    ¬ Touches ((gauged.snapshot 0).1.scope 0) ((gauged.snapshot 0).1.changes 0) 1 "k".toList := by
  have operands : operandsOf "k".toList = [.word ['k']] := by decide
  intro touches
  cases touches with
  | environment lies =>
    have apart : 0 ∉ (gauged.snapshot 0).1.layers 1 := by decide +kernel
    exact apart lies
  | name part moves =>
    rw [operands, List.mem_singleton] at part
    cases part
    obtain ⟨v, found, other⟩ := moves
    have fixed : (gauged.snapshot 0).1.lookup 1 .vars "k" = some (.fixed (.ofInt 3)) := by
      decide +kernel
    rw [show wordName _ ['k'] = "k" from rfl, fixed] at found
    cases found
    rcases other with other | ⟨_, other⟩
    · cases other
    · cases other
  | native part | callee part | bracket part | product part | argument part =>
    rw [operands, List.mem_singleton] at part
    cases part

theorem snapshot_independent_gauged :
    gauged.Built ∧ 0 < gauged.members.size ∧ Later 0 (gauged.snapshot 0).1 regauged ∧
    ¬ Touches ((gauged.snapshot 0).1.scope 0) ((gauged.snapshot 0).1.changes 0) 1 "k".toList ∧
    ∀ now s, result (Evaluation.evaluate ⟨now, false⟩ regauged 1 "k" s) = .ok (.ofInt 3) := by
  have exist : 0 < gauged.members.size := by decide
  obtain ⟨-, -, evaluated⟩ := snapshot_independent gauged_built exist regauged_later
  refine ⟨gauged_built, exist, regauged_later, gauged_untouched, fun now s => ?_⟩
  have before : result (Evaluation.evaluate ⟨0, false⟩ (gauged.snapshot 0).1 1 "k" (.start 0)) =
      .ok (.ofInt 3) := by decide +kernel
  exact (evaluated "k" 0 gauged_untouched false now (.start 0) s).trans before

/-- The texts that a call of the function in the snapshot leads to. -/
def gaugedTexts : List (EnvId × List Char) := [(1, "f()".toList), (1, []), (0, "k".toList)]

/-- In the snapshot, a call of the function gives the value that the variable has in the original:
three before the original is changed, and five afterwards. -/
theorem snapshot_follows_original :
    gauged.Built ∧ 0 < gauged.members.size ∧ Later 0 (gauged.snapshot 0).1 regauged ∧
    (gauged.snapshot 0).2 = 1 ∧ ¬ (gauged.snapshot 0).1.Uses 1 "f()".toList ∧
    result (Evaluation.evaluate ⟨0, false⟩ (gauged.snapshot 0).1 1 "f()" (.start 0)) =
      .ok (.ofInt 3) ∧
    result (Evaluation.evaluate ⟨0, false⟩ regauged 1 "f()" (.start 0)) = .ok (.ofInt 5) := by
  refine ⟨gauged_built, by decide, regauged_later, rfl, ?_, by decide +kernel, by decide +kernel⟩
  have closed : (gaugedTexts.all fun text =>
      (operandsOf text.2).all ((gauged.snapshot 0).1.harmless gaugedTexts text.1)) = true := by
    decide +kernel
  simp only [List.all_eq_true] at closed
  exact not_uses_of_harmless closed List.mem_cons_self

end Family
end Calculator
