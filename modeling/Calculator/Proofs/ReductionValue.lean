import Calculator.Proofs.Links
import Calculator.Proofs.Steps
import Calculator.Reduction

/-!
# Calculator.Proofs.ReductionValue

Reducing a chain gives the value of its tree.

* `resolveLevel_spec`: going along the links once is one pass over the clauses.
* `complete_spec`: a whole reduction is the passes from the highest precedence down.
* `complete_eq_tree`: it succeeds exactly if the tree has a value, gives that value, and has then
  applied each operator once.
-/

namespace Calculator

/-- The operator that an event reports as applied. -/
def Event.applied? : Event → Option Binding
  | step s => some s.binding
  | _ => none

def appliedOperators (events : List Event) : List Binding := events.filterMap Event.applied?

@[simp] theorem appliedOperators_step (s : Step) (events : List Event) :
    appliedOperators (.step s :: events) = s.binding :: appliedOperators events := rfl

@[simp] theorem appliedOperators_remaining (chain : StepChain) (events : List Event) :
    appliedOperators (.remaining chain :: events) = appliedOperators events := rfl

namespace Reduction

/-! ## One step -/

theorem report_apply (tracing : Bool) (event : Unit → Event) (r : Reduction) :
    report tracing event r =
      .ok () (if tracing then { r with events := event () :: r.events } else r) := rfl

theorem resolve_error {ctx : Context} (tracing : Bool) (i : Nat) {s : Step} {failure : Failure}
    (r : Reduction) (h : s.operation.apply ctx s.left s.right = .error failure) :
    ∃ r', resolve ctx tracing i s r = .error (failure.atOperator s.symbol) r' := by
  simp [resolve, report_apply, h]

theorem resolve_ok {ctx : Context} (tracing : Bool) (i : Nat) {s : Step} {v : Decimal}
    (r : Reduction) (h : s.operation.apply ctx s.left s.right = .ok v) :
    ∃ r', resolve ctx tracing i s r = .ok () r' ∧ r'.chain = r.chain.splice i v ∧
      r'.value = some v ∧
      (tracing = true → appliedOperators r'.events = s.binding :: appliedOperators r.events) := by
  cases tracing with
  | false => simp [resolve, report_apply, h]
  | true =>
    simp only [resolve, report_apply, bind_apply, modify_apply, get_apply, h, if_true]
    cases (r.chain.splice i v).steps[i]? with
    | none => exact ⟨_, rfl, rfl, rfl, fun _ => rfl⟩
    | some t =>
      cases ht : t.active with
      | true => simp [ht]
      | false => simp [ht, report_apply]

theorem resolveLevel_none (ctx : Context) (tracing : Bool) (level fuel : Nat) (r : Reduction) :
    resolveLevel ctx tracing level fuel none r = .ok () r := by
  cases fuel <;> rfl

theorem resolveLevel_some {ctx : Context} {tracing : Bool} {level fuel i : Nat} {s : Step}
    {r : Reduction} (h : r.chain.steps[i]? = some s) :
    resolveLevel ctx tracing level (fuel + 1) (some i) r =
      if s.precedence = level then
        match resolve ctx tracing i s r with
        | .ok _ r' => resolveLevel ctx tracing level fuel s.next r'
        | .error failure r' => .error failure r'
      else resolveLevel ctx tracing level fuel s.next r := by
  simp only [resolveLevel, bind_apply, get_apply, h]
  split
  · rw [bind_apply]
    cases resolve ctx tracing i s r <;> rfl
  · rfl

/-! ## One pass -/

/-- What a pass leaves: a chain that holds the clauses, or, when none is left, the last step on its
own, whose precedence is that of the pass and whose value was the last one. -/
def Leaves (level : Nat) (r : Reduction) (first : Decimal) : List (Nat × Clause) → Prop
  | [] => r.value = some first ∧ ∃ i s, r.chain.head = some i ∧ r.chain.steps[i]? = some s ∧
      s.next = none ∧ s.precedence = level
  | items => Holds r.chain first [] items

theorem leaves_of_ne {level : Nat} {r : Reduction} {first : Decimal} {items : List (Nat × Clause)}
    (hne : items ≠ []) : Leaves level r first items ↔ Holds r.chain first [] items := by
  cases items with
  | nil => exact absurd rfl hne
  | cons p items => rfl

/-- What going along the links does, compared with a pass over the clauses to come. The operators
applied and those left are, together, those there were. -/
def PassOutcome (tracing : Bool) (level : Nat) (r : Reduction) (first : Decimal)
    (passed rest : List (Nat × Clause)) (result : EStateM.Result Failure Reduction Unit) :
    Except Failure (Decimal × List Clause) → Prop
  | .error failure => ∃ r', result = .error failure r'
  | .ok (v, cs) => ∃ r' items, result = .ok () r' ∧ items.map Prod.snd = cs ∧
      Leaves level r' (handFirst v first passed) ((handValue v passed).reverse ++ items) ∧
      (tracing = true → (appliedOperators r'.events ++ cs.map Clause.operator).Perm
        (appliedOperators r.events ++ rest.map fun p => p.2.operator))

section

variable {tracing : Bool} {level : Nat} {r r₁ : Reduction} {first v : Decimal}
  {passed rest : List (Nat × Clause)} {i : Nat} {c : Clause}
  {result : EStateM.Result Failure Reduction Unit}

/-- An operator that has been applied is reported, and hands its value to both sides. -/
theorem passOutcome_applied {q : Except Failure (Decimal × List Clause)}
    (events : tracing = true →
      appliedOperators r₁.events = c.operator :: appliedOperators r.events)
    (h : PassOutcome tracing level r₁ (handFirst v first passed) (handValue v passed) rest result q) :
    PassOutcome tracing level r first passed ((i, c) :: rest) result q := by
  cases q with
  | error failure => exact h
  | ok q =>
    obtain ⟨r', items, run, same, leaves, perm⟩ := h
    simp only [handValue_handValue, handFirst_handFirst] at leaves
    refine ⟨r', items, run, same, leaves, fun traced => (perm traced).trans ?_⟩
    rw [events traced, List.map_cons]
    exact List.perm_middle.symm

/-- An operator of another precedence stays, with the value that the pass gives it. -/
theorem passOutcome_kept {q : Except Failure (Decimal × List Clause)}
    (h : PassOutcome tracing level r first ((i, c) :: passed) rest result q) :
    PassOutcome tracing level r first passed ((i, c) :: rest) result
      (q.map fun p => (valueOf first passed, c.withValue p.1 :: p.2)) := by
  cases q with
  | error failure => exact h
  | ok q =>
    obtain ⟨v, cs⟩ := q
    obtain ⟨r', items, run, same, leaves, perm⟩ := h
    refine ⟨r', (i, c.withValue v) :: items, run, by simp [same], ?_, fun traced => ?_⟩
    · rw [handValue_valueOf, handFirst_valueOf]
      simpa [handValue, handFirst] using leaves
    · simp only [List.map_cons, Clause.withValue_operator]
      exact List.perm_middle.trans (((perm traced).cons _).trans List.perm_middle.symm)

/-- The last operator of all stays behind once it has been applied. -/
theorem passOutcome_last (h : Holds r.chain first [] [(i, c)]) (level_eq : c.precedence = level)
    (chain : r₁.chain = r.chain.splice i v) (value : r₁.value = some v)
    (events : tracing = true →
      appliedOperators r₁.events = c.operator :: appliedOperators r.events) :
    PassOutcome tracing level r first [] [(i, c)] (.ok () r₁) (.ok (v, [])) := by
  obtain ⟨head, step⟩ := splice_only v h
  refine ⟨r₁, [], rfl, rfl, ⟨value, i, _, chain ▸ head, chain ▸ step, rfl, level_eq⟩, fun traced => ?_⟩
  have swapped : ([c.operator] ++ appliedOperators r.events).Perm
      (appliedOperators r.events ++ [c.operator]) := List.perm_append_comm
  simpa [events traced] using swapped

end

/-- Going along the links once is a pass. The induction is on the clauses to come. -/
theorem resolveLevel_spec {ctx : Context} {tracing : Bool} {level fuel : Nat} {r : Reduction}
    {first : Decimal} {passed rest : List (Nat × Clause)} (h : Holds r.chain first passed rest)
    (hf : rest.length ≤ fuel) (hne : passed ≠ [] ∨ rest ≠ []) :
    PassOutcome tracing level r first passed rest
      (resolveLevel ctx tracing level fuel (placeOf rest) r)
      (pass ctx level (valueOf first passed) (rest.map Prod.snd)) := by
  induction rest generalizing r first passed fuel with
  | nil =>
    obtain hne | hne := hne
    · refine ⟨r, [], resolveLevel_none .., rfl, ?_, fun _ => .refl _⟩
      rw [handValue_valueOf, handFirst_valueOf, leaves_of_ne (by simpa using hne)]
      exact holds_rewind h
    · exact absurd rfl hne
  | cons p rest ih =>
    obtain ⟨i, c⟩ := p
    have hs := h.zipped.get
    obtain ⟨fuel, rfl⟩ : ∃ n, fuel = n + 1 := ⟨fuel - 1, by simp at hf; omega⟩
    have hf : rest.length ≤ fuel := by simpa using hf
    rw [placeOf_cons, resolveLevel_some hs, List.map_cons, pass]
    by_cases hc : c.precedence = level
    · rw [if_pos hc, if_pos (show (c.step _ _ _).precedence = level from hc)]
      cases hv : c.operator.operation.apply ctx (valueOf first passed) c.value with
      | error failure =>
        obtain ⟨r', hr⟩ := resolve_error tracing i
          (s := c.step (valueOf first passed) (placeOf passed) (placeOf rest)) r hv
        simp only [hr, Clause.apply, hv]
        exact ⟨r', rfl⟩
      | ok v =>
        obtain ⟨r₁, hr, hchain, hvalue, hevents⟩ := resolve_ok tracing i
          (s := c.step (valueOf first passed) (placeOf passed) (placeOf rest)) r hv
        rw [Clause.step_binding] at hevents
        simp only [hr, Clause.apply, hv]
        by_cases honly : passed = [] ∧ rest = []
        · obtain ⟨rfl, rfl⟩ := honly
          have last := passOutcome_last h hc hchain hvalue hevents
          rw [← resolveLevel_none ctx tracing level fuel r₁] at last
          exact last
        · have hne' : passed ≠ [] ∨ rest ≠ [] := Classical.not_and_iff_not_or_not.1 honly
          have hpass := ih (r := r₁) (hchain ▸ holds_splice v h hne') hf
            (by simpa using hne')
          rw [valueOf_handValue] at hpass
          exact passOutcome_applied hevents hpass
    · rw [if_neg hc, if_neg (show (c.step _ _ _).precedence ≠ level from hc)]
      have hpass := passOutcome_kept (ih (holds_next h) hf (Or.inl (by simp)))
      rw [valueOf_cons] at hpass
      cases hp : pass ctx level c.value (rest.map Prod.snd) with
      | error failure =>
        rw [hp] at hpass
        exact hpass
      | ok q =>
        rw [hp] at hpass
        exact hpass

/-! ## All passes -/

/-- A pass over the steps that are left when no operator is does nothing, since the last step has a
higher precedence. -/
theorem resolveAll_settled {ctx : Context} {tracing : Bool} {level above : Nat} {r : Reduction}
    {first : Decimal} (h : Leaves above r first []) (hl : level < above) :
    resolveAll ctx tracing level r = .ok () r := by
  obtain ⟨-, i, s, hhead, hs, hnext, hprec⟩ := h
  simp only [resolveAll, bind_apply, get_apply, hhead]
  cases r.chain.steps.size with
  | zero => rfl
  | succ fuel => rw [resolveLevel_some hs, if_neg (by omega), hnext, resolveLevel_none]

/-- One whole pass, from the head on, over what a pass at a higher precedence leaves. -/
theorem resolveAll_spec (ctx : Context) (tracing : Bool) (level : Nat) {r : Reduction}
    {first : Decimal} {items : List (Nat × Clause)} (h : Holds r.chain first [] items)
    (hne : items ≠ []) :
    PassOutcome tracing level r first [] items (resolveAll ctx tracing level r)
      (pass ctx level first (items.map Prod.snd)) := by
  simp only [resolveAll, bind_apply, get_apply]
  rw [show r.chain.head = placeOf items from by simpa using h.head]
  exact resolveLevel_spec h (by simpa using h.room) (Or.inr hne)

/-- What a whole reduction of a chain does, compared with the passes over its clauses. -/
def Outcome (tracing : Bool) (r : Reduction) (items : List (Nat × Clause))
    (result : EStateM.Result Failure Reduction Unit) :
    Except Failure (Decimal × List Clause) → Prop
  | .error failure => ∃ r', result = .error failure r'
  | .ok (v, _) => ∃ r', result = .ok () r' ∧ r'.value = some v ∧
      (tracing = true → (appliedOperators r'.events).Perm
        (appliedOperators r.events ++ items.map fun p => p.2.operator))

/-- When no operator is left, the remaining passes do nothing. -/
theorem resolveDown_settled {ctx : Context} {tracing : Bool} {level above : Nat} {r : Reduction}
    {first : Decimal} (h : Leaves above r first []) (hl : level < above) :
    resolveDown ctx tracing level r = .ok () r := by
  induction level with
  | zero => exact resolveAll_settled h hl
  | succ level ih =>
    rw [resolveDown, bind_apply, resolveAll_settled h hl]
    exact ih (by omega)

theorem resolveDown_spec (ctx : Context) (tracing : Bool) {level : Nat} {r : Reduction}
    {first : Decimal} {items : List (Nat × Clause)} (h : Holds r.chain first [] items)
    (hne : items ≠ []) (hle : ∀ p ∈ items, p.2.precedence ≤ level) :
    Outcome tracing r items (resolveDown ctx tracing level r)
      (passDown ctx level first (items.map Prod.snd)) := by
  induction level generalizing r first items with
  | zero =>
    have hpass := resolveAll_spec ctx tracing 0 h hne
    rw [resolveDown, passDown]
    cases hp : pass ctx 0 first (items.map Prod.snd) with
    | error failure => rw [hp] at hpass; exact hpass
    | ok q =>
      obtain ⟨v, cs⟩ := q
      rw [hp] at hpass
      obtain ⟨r', rest, hr', hcs, hleaves, hperm⟩ := hpass
      have hnil : cs = [] := by
        refine pass_all_rest (fun c hc => ?_) hp
        obtain ⟨p, hp, rfl⟩ := List.mem_map.1 hc
        exact Nat.le_zero.1 (hle p hp)
      subst hnil
      cases List.map_eq_nil_iff.1 hcs
      exact ⟨r', hr', hleaves.1, fun ht => by simpa using hperm ht⟩
  | succ level ih =>
    have hpass := resolveAll_spec ctx tracing (level + 1) h hne
    rw [resolveDown, passDown, bind_apply]
    cases hp : pass ctx (level + 1) first (items.map Prod.snd) with
    | error failure =>
      rw [hp] at hpass
      obtain ⟨r', hr'⟩ := hpass
      exact ⟨r', by rw [hr']⟩
    | ok q =>
      obtain ⟨v, cs⟩ := q
      rw [hp] at hpass
      obtain ⟨r₁, rest, hr₁, rfl, hleaves, hperm⟩ := hpass
      simp only [handFirst, handValue, List.reverse_nil, List.nil_append] at hleaves
      rw [hr₁]
      by_cases hrest : rest = []
      · subst hrest
        simp only [List.map_nil, passDown_nil]
        refine ⟨r₁, resolveDown_settled hleaves (Nat.lt_succ_self _), hleaves.1, fun ht => ?_⟩
        simpa using hperm ht
      · have hle' : ∀ p ∈ rest, p.2.precedence ≤ level := fun p hmem => by
          obtain ⟨hl, c, hc, he⟩ := pass_precedence hp (List.mem_map_of_mem hmem)
          obtain ⟨q, hq, rfl⟩ := List.mem_map.1 hc
          have := hle q hq
          simp only [Clause.precedence, he] at this hl ⊢
          omega
        have hdown := ih ((leaves_of_ne hrest).1 hleaves) hrest hle'
        dsimp only
        cases hd : passDown ctx level v (rest.map Prod.snd) with
        | error failure => rw [hd] at hdown; exact hdown
        | ok q =>
          rw [hd] at hdown
          obtain ⟨r', hr', hvalue, hperm'⟩ := hdown
          refine ⟨r', hr', hvalue, fun ht => (hperm' ht).trans ?_⟩
          simpa [List.map_map, Function.comp_def] using hperm ht

/-- A whole reduction is the passes from some precedence down that no operator exceeds. -/
theorem complete_spec (ctx : Context) (tracing : Bool) (first : Decimal) (c : Clause)
    (cs : List Clause) :
    ∃ level, (∀ d ∈ c :: cs, d.precedence ≤ level) ∧
      match passDown ctx level first (c :: cs) with
      | .error failure =>
        ∃ r, complete ctx tracing (.start (.ofClauses first (c :: cs))) = .error failure r
      | .ok (v, _) =>
        ∃ r, complete ctx tracing (.start (.ofClauses first (c :: cs))) = .ok (some v) r ∧
          (tracing = true →
            (appliedOperators r.events).Perm ((c :: cs).map Clause.operator)) := by
  obtain ⟨items, hitems, hholds⟩ := ofClauses_holds first (c :: cs)
  have hne : items ≠ [] := by rintro rfl; cases hitems
  have hle := fun p (hp : p ∈ items) => le_maxPrecedence hholds hp
  have hdown := resolveDown_spec ctx tracing
    (r := .start (.ofClauses first (c :: cs))) hholds hne hle
  refine ⟨(StepChain.ofClauses first (c :: cs)).maxPrecedence, fun d hd => ?_, ?_⟩
  · rw [← hitems] at hd
    obtain ⟨p, hp, rfl⟩ := List.mem_map.1 hd
    exact hle p hp
  · rw [hitems] at hdown
    simp only [complete, bind_apply, get_apply]
    cases hp : passDown ctx (StepChain.ofClauses first (c :: cs)).maxPrecedence first (c :: cs) with
    | error failure =>
      rw [hp] at hdown
      obtain ⟨r', hr'⟩ := hdown
      exact ⟨r', by simp only [start] at hr' ⊢; rw [hr']⟩
    | ok q =>
      rw [hp] at hdown
      obtain ⟨r', hr', hvalue, hperm⟩ := hdown
      refine ⟨r', by simp only [start] at hr' ⊢; rw [hr']; simp [hvalue], fun ht => ?_⟩
      rw [← hitems]
      simpa [start, appliedOperators, List.map_map, Function.comp_def] using hperm ht

/-- A reduction gives the value of the tree, if it has one, and fails otherwise. -/
theorem complete_value (ctx : Context) (tracing : Bool) (first : Decimal) (c : Clause)
    (cs : List Clause) :
    match chainValue ctx first (c :: cs) with
    | none => ∃ failure r,
        complete ctx tracing (.start (.ofClauses first (c :: cs))) = .error failure r
    | some v =>
        ∃ r, complete ctx tracing (.start (.ofClauses first (c :: cs))) = .ok (some v) r ∧
          (tracing = true →
            (appliedOperators r.events).Perm ((c :: cs).map Clause.operator)) := by
  obtain ⟨level, hle, hspec⟩ := complete_spec ctx tracing first c cs
  have hvalue := passDown_value ctx first (c :: cs) hle
  cases hp : passDown ctx level first (c :: cs) with
  | error failure =>
    rw [hp] at hvalue hspec
    cases hv : chainValue ctx first (c :: cs) with
    | none => exact ⟨failure, hspec⟩
    | some v => rw [hv] at hvalue; cases hvalue
  | ok q =>
    rw [hp] at hvalue hspec
    cases hv : chainValue ctx first (c :: cs) with
    | none => rw [hv] at hvalue; cases hvalue
    | some v => rw [hv] at hvalue; cases hvalue; exact hspec

/-- A reduction succeeds exactly if the tree of its chain has a value, and gives that value. The
report of a reduction that succeeds holds every operator of the chain once; whether there is a
report makes no other difference. -/
theorem complete_eq_tree (ctx : Context) (tracing : Bool) (first : Decimal) (c : Clause)
    (cs : List Clause) :
    (∀ v, (∃ r, complete ctx tracing (.start (.ofClauses first (c :: cs))) = .ok (some v) r) ↔
      (OperatorTree.ofChain first (c :: cs)).value ctx = some v) ∧
    ∀ result r, complete ctx tracing (.start (.ofClauses first (c :: cs))) = .ok result r →
      result.isSome ∧
      ∃ r', complete ctx true (.start (.ofClauses first (c :: cs))) = .ok result r' ∧
        (appliedOperators r'.events).Perm ((c :: cs).map Clause.operator) := by
  have hvalue := complete_value ctx tracing first c cs
  have hreport := complete_value ctx true first c cs
  change (∀ v, _ ↔ chainValue ctx first (c :: cs) = some v) ∧ _
  cases hv : chainValue ctx first (c :: cs) with
  | none =>
    rw [hv] at hvalue
    obtain ⟨failure, r, hr⟩ := hvalue
    simp [hr]
  | some v =>
    rw [hv] at hvalue hreport
    obtain ⟨r, hr, -⟩ := hvalue
    obtain ⟨r', hr', hperm⟩ := hreport
    rw [hr]
    refine ⟨fun w => ⟨?_, ?_⟩, ?_⟩
    · rintro ⟨_, ⟨⟩⟩
      rfl
    · rintro ⟨⟩
      exact ⟨r, rfl⟩
    · rintro _ _ ⟨⟩
      exact ⟨rfl, r', hr', hperm rfl⟩

end Reduction
end Calculator
