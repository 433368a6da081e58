import Calculator.Proofs.ReductionValue

/-!
# Calculator.Proofs.ForwardLinks

Chains to which steps are appended and from which steps are spliced out in any order, also steps
that have been spliced out before. Such a step still has the links that it had: splicing it again
writes these into its former neighbours, and the chain may meet a resolved step again or pass over
one that is active. Links keep their direction all the same, which is why loops along them end.

* `LinkedWithin`: every step is linked to a later and an earlier place, inside a bound.
* `Built.forward`: this holds of a chain after every append and every splice.
* `Loops`, `Forward.loops_iff`: a loop along the links, whose length is not bounded beforehand, ends
  with what the steps of the walk make of its state.
* `built_loops_end`: the links of a chain, its walk, its highest precedence and its text.
* `resolveAll_room`: a pass that splices steps out while it follows the links ends as well.
-/

namespace Calculator

/-! ## Links by their direction -/

/-- From a place, the step is linked forwards and backwards to places below a bound. -/
structure Step.LinkedAt (s : Step) (place bound : Nat) : Prop where
  next : ∀ n, s.next = some n → place < n ∧ n < bound
  previous : ∀ p, s.previous = some p → p < place

/-- Every step is linked forwards and backwards to places below a bound. -/
def LinkedWithin (bound : Nat) (steps : Array Step) : Prop :=
  ∀ (i : Nat) (s : Step), steps[i]? = some s → s.LinkedAt i bound

section

variable {bound i : Nat} {steps : Array Step} {s : Step}

theorem Step.LinkedAt.mono {more : Nat} (h : s.LinkedAt i bound) (le : bound ≤ more) :
    s.LinkedAt i more where
  next n link := ⟨(h.next n link).1, Nat.lt_of_lt_of_le (h.next n link).2 le⟩
  previous := h.previous

theorem LinkedWithin.modify {f : Step → Step} (h : LinkedWithin bound steps)
    (kept : ∀ t, steps[i]? = some t → (f t).LinkedAt i bound) :
    LinkedWithin bound (steps.modify i f) := by
  intro j t there
  rw [Array.getElem?_modify] at there
  split at there
  case isTrue same =>
    subst same
    obtain ⟨t, here, rfl⟩ := Option.map_eq_some_iff.mp there
    exact kept t here
  case isFalse => exact h j t there

theorem LinkedWithin.push (h : LinkedWithin bound steps) (new : s.LinkedAt steps.size bound) :
    LinkedWithin bound (steps.push s) := by
  intro j t there
  rw [Array.getElem?_push] at there
  split at there
  case isTrue last =>
    cases there
    rw [last]
    exact new
  case isFalse => exact h j t there

/-- The step before one that is spliced out is linked to a later place than before. -/
theorem LinkedWithin.handBackwards (v : Decimal) (h : LinkedWithin bound steps)
    (linked : s.LinkedAt i bound) : LinkedWithin bound (StepChain.handBackwards steps s v) := by
  unfold StepChain.handBackwards
  split
  case h_1 => exact h
  case h_2 before link =>
    have lt := linked.previous before link
    refine h.modify fun t here => ⟨fun n next => ?_, (h before t here).previous⟩
    obtain ⟨lt', inside⟩ := linked.next n next
    exact ⟨Nat.lt_trans lt lt', inside⟩

/-- The step after one that is spliced out is linked back to an earlier place than before. -/
theorem LinkedWithin.handForwards (v : Decimal) (h : LinkedWithin bound steps)
    (linked : s.LinkedAt i bound) : LinkedWithin bound (StepChain.handForwards steps s v) := by
  unfold StepChain.handForwards
  split
  case h_1 => exact h
  case h_2 after link =>
    have lt := (linked.next after link).1
    exact h.modify fun t here =>
      ⟨(h after t here).next, fun p previous => Nat.lt_trans (linked.previous p previous) lt⟩

end

/-! ## Chains -/

namespace StepChain

/-- Every step is linked forwards and backwards inside the chain, and the chain begins in it. -/
structure Forward (chain : StepChain) : Prop where
  links : LinkedWithin chain.steps.size chain.steps
  head : ∀ i, chain.head = some i → i < chain.steps.size

/-- Steps without links are appended, and steps at any places spliced out, in any order. Nothing is
asked of a step that is spliced out: it may have been before. -/
inductive Built : StepChain → Prop
  | empty : Built .empty
  | append {chain : StepChain} {s : Step} :
      Built chain → s.previous = none → s.next = none → Built (chain.append s)
  | splice {chain : StepChain} {i : Nat} (v : Decimal) :
      Built chain → i < chain.steps.size → Built (chain.splice i v)

section

variable {chain : StepChain} {s : Step}

theorem Forward.append (h : chain.Forward) (previous : s.previous = none) (next : s.next = none) :
    (chain.append s).Forward := by
  by_cases empty : chain.steps.size = 0
  · have first : chain.append s = ⟨#[s], some 0⟩ := if_pos empty
    rw [first]
    refine ⟨?_, fun i head => ?_⟩
    · have nothing : LinkedWithin 1 #[] := fun j t there => by cases there
      exact nothing.push ⟨by simp [next], by simp [previous]⟩
    · cases head
      exact Nat.one_pos
  · refine ⟨?_, fun i head => ?_⟩
    · have within : LinkedWithin (chain.steps.size + 1) chain.steps :=
        fun j t there => (h.links j t there).mono (Nat.le_succ _)
      have linked : LinkedWithin (chain.steps.size + 1)
          (chain.steps.modify (chain.steps.size - 1) fun last =>
            { last with next := some chain.steps.size }) := by
        refine within.modify fun t here => ⟨?_, (within _ t here).previous⟩
        rintro n ⟨⟩
        omega
      rw [append_size]
      simp only [StepChain.append, if_neg empty]
      refine linked.push ⟨by simp [next], ?_⟩
      rintro p ⟨⟩
      rw [Array.size_modify]
      omega
    · rw [append_head chain s empty] at head
      rw [append_size]
      exact Nat.lt_succ_of_lt (h.head i head)

/-- Splicing any step out, whether the chain still meets it or not, leaves links their direction:
the places at its sides, which get linked to each other, lie at different sides of its own. -/
theorem Forward.splice (i : Nat) (v : Decimal) (h : chain.Forward) :
    (chain.splice i v).Forward := by
  have size := splice_size chain i v
  refine ⟨?_, ?_⟩
  · rw [size]
    unfold StepChain.splice
    split
    case h_1 => exact h.links
    case h_2 s here =>
      have linked := h.links i s here
      split
      case isTrue =>
        exact h.links.modify fun t there => ⟨(h.links i t there).next, (h.links i t there).previous⟩
      case isFalse =>
        have handed := (h.links.handBackwards v linked).handForwards v linked
        exact handed.modify fun t there => ⟨(handed i t there).next, (handed i t there).previous⟩
  · rw [size]
    unfold StepChain.splice
    split
    case h_1 => exact h.head
    case h_2 s here =>
      split
      case isTrue => exact h.head
      case isFalse =>
        -- a head that is spliced out hands over to the step after it, which may be none
        intro j head
        dsimp only at head
        split at head
        case isTrue => exact ((h.links i s here).next j head).2
        case isFalse => exact h.head j head

theorem Built.forward (built : chain.Built) : chain.Forward := by
  induction built with
  | empty => exact ⟨fun i s there => by simp [StepChain.empty] at there, nofun⟩
  | append _ previous next ih => exact ih.append previous next
  | splice v _ _ ih => exact ih.splice _ v

end

/-! ## Loops along the links -/

/-- A loop along the links from a place on: every step that is met, with its place, changes a state,
until a step is linked to no further one. A link out of the chain has no way on. -/
inductive Loops {σ : Type} (chain : StepChain) (body : σ → Nat → Step → σ) :
    Option Nat → σ → σ → Prop
  | stop {state : σ} : Loops chain body none state state
  | next {i : Nat} {s : Step} {state last : σ} :
      chain.steps[i]? = some s → Loops chain body s.next (body state i s) last →
      Loops chain body (some i) state last

/-- The steps at some places, with their places. -/
def stepsAt (chain : StepChain) (places : List Nat) : List (Nat × Step) :=
  places.filterMap fun i => chain.steps[i]?.map (i, ·)

/-- The places met so far, and one more. -/
def listPlace (places : List Nat) (i : Nat) (_ : Step) : List Nat := places ++ [i]

/-- The highest precedence so far, or that of one more step. -/
def takePrecedence (most : Nat) (_ : Nat) (s : Step) : Nat := max most s.precedence

/-- The text so far with the left value and the symbol of one more step, and that step. -/
def showStep (shown : String × Option Step) (_ : Nat) (s : Step) : String × Option Step :=
  (shown.1 ++ s.left.positionalText ++ s.shownSymbol, some s)

/-- The text with the right value of its last step. -/
def closeText : String × Option Step → String
  | (_, none) => ""
  | (text, some last) => text ++ last.right.positionalText

section

variable {σ : Type} {chain : StepChain} {body : σ → Nat → Step → σ} {fuel : Nat}
  {start : Option Nat} {state : σ}

theorem stepsAt_cons {i : Nat} {s : Step} (places : List Nat) (here : chain.steps[i]? = some s) :
    chain.stepsAt (i :: places) = (i, s) :: chain.stepsAt places :=
  List.filterMap_cons_some (by rw [here]; rfl)

theorem stepsAt_steps (chain : StepChain) (places : List Nat) :
    (chain.stepsAt places).map Prod.snd = places.filterMap (chain.steps[·]?) := by
  simp [stepsAt, List.map_filterMap, Function.comp_def]

/-- There is a step at every place that a walk meets. -/
theorem stepsAt_walkFrom :
    (chain.stepsAt (chain.walkFrom fuel start)).map Prod.fst = chain.walkFrom fuel start := by
  fun_induction StepChain.walkFrom chain fuel start with
  | case1 | case2 | case3 => rfl
  | case4 fuel i s here ih => rw [stepsAt_cons _ here, List.map_cons, ih]

/-- A loop ends in one way only. -/
theorem Loops.unique {last last' : σ} (ends : chain.Loops body start state last)
    (ends' : chain.Loops body start state last') : last = last' := by
  induction ends with
  | stop =>
    cases ends'
    rfl
  | next here _ ih =>
    cases ends' with
    | next here' later =>
      rw [here] at here'
      cases here'
      exact ih later

/-- The places that a walk meets increase, from the first one on. -/
theorem Forward.walkFrom_increasing (h : chain.Forward) :
    (chain.walkFrom fuel start).Pairwise (· < ·) ∧
      ∀ i, start = some i → ∀ j ∈ chain.walkFrom fuel start, i ≤ j := by
  fun_induction StepChain.walkFrom chain fuel start with
  | case1 | case2 | case3 => simp
  | case4 fuel i s here ih =>
    obtain ⟨increasing, least⟩ := ih
    have later : ∀ j ∈ chain.walkFrom fuel s.next, i < j := by
      intro j mem
      cases link : s.next with
      | none =>
        rw [link] at mem
        cases fuel <;> cases mem
      | some n =>
        exact Nat.lt_of_lt_of_le ((h.links i s here).next n link).1 (least n link j mem)
    refine ⟨List.pairwise_cons.mpr ⟨later, increasing⟩, ?_⟩
    rintro _ ⟨⟩
    exact List.forall_mem_cons.mpr ⟨Nat.le_refl i, fun j mem => Nat.le_of_lt (later j mem)⟩

/-- A loop ends within as many steps as there are places left, since each place is a later one. -/
theorem Forward.loops (h : chain.Forward)
    (room : ∀ i, start = some i → i < chain.steps.size ∧ chain.steps.size ≤ i + fuel) :
    chain.Loops body start state
      ((chain.stepsAt (chain.walkFrom fuel start)).foldl
        (fun state p => body state p.1 p.2) state) := by
  fun_induction StepChain.walkFrom chain fuel start generalizing state with
  | case1 start =>
    cases start with
    | none => exact .stop
    | some i =>
      have := room i rfl
      omega
  | case2 => exact .stop
  | case3 fuel i outside =>
    obtain ⟨lt, -⟩ := room i rfl
    exact absurd (Array.getElem?_eq_none_iff.mp outside) (Nat.not_le_of_lt lt)
  | case4 fuel i s here ih =>
    have later := (h.links i s here).next
    obtain ⟨-, enough⟩ := room i rfl
    rw [stepsAt_cons _ here, List.foldl_cons]
    refine .next here (ih fun n link => ?_)
    obtain ⟨lt, inside⟩ := later n link
    exact ⟨inside, by omega⟩

/-- A loop from the head on ends, with what the steps that the walk meets make of the state. -/
theorem Forward.loops_iff (h : chain.Forward) {last : σ} :
    chain.Loops body chain.head state last ↔
      last = (chain.stepsAt chain.walk).foldl (fun state p => body state p.1 p.2) state := by
  have ends : chain.Loops body chain.head state
      ((chain.stepsAt chain.walk).foldl (fun state p => body state p.1 p.2) state) :=
    h.loops fun i head => ⟨h.head i head, Nat.le_add_left _ _⟩
  constructor
  · intro ends'
    exact ends'.unique ends
  · rintro rfl
    exact ends

theorem foldl_listPlace (items : List (Nat × Step)) (places : List Nat) :
    items.foldl (fun places p => listPlace places p.1 p.2) places =
      places ++ items.map Prod.fst := by
  induction items generalizing places with
  | nil => simp
  | cons p rest ih =>
    rw [List.foldl_cons, ih, listPlace, List.append_assoc]
    rfl

theorem foldl_showStep (items : List (Nat × Step)) (shown : String × Option Step) :
    items.foldl (fun shown p => showStep shown p.1 p.2) shown =
      ((items.map Prod.snd).foldl
        (fun text s => text ++ s.left.positionalText ++ s.shownSymbol) shown.1,
        (items.map Prod.snd).getLast?.or shown.2) := by
  induction items generalizing shown with
  | nil => rfl
  | cons p rest ih =>
    rw [List.foldl_cons, ih]
    cases rest <;> simp [showStep, List.getLast?_cons]

end

/-- Whatever steps are appended to a chain and spliced out of it, in any order and any number of
times, every step is linked forwards and backwards inside the chain. Loops along the links end, in
one way each: the walk lists the places that are met, which increase, and the highest precedence and
the text are those of the steps that are met. -/
theorem built_loops_end {chain : StepChain} (built : chain.Built) :
    (∀ i s, chain.steps[i]? = some s →
      (∀ n, s.next = some n → i < n ∧ n < chain.steps.size) ∧
      ∀ p, s.previous = some p → p < i ∧ p < chain.steps.size) ∧
    (∀ places, chain.Loops listPlace chain.head [] places ↔ places = chain.walk) ∧
    (∀ most, chain.Loops takePrecedence chain.head 0 most ↔ most = chain.maxPrecedence) ∧
    (∃ shown, (∀ last, chain.Loops showStep chain.head ("", none) last ↔ last = shown) ∧
      closeText shown = chain.text) ∧
    chain.walk.Pairwise (· < ·) := by
  have forward := built.forward
  refine ⟨?_, ?_, ?_, ?_, forward.walkFrom_increasing.1⟩
  · intro i s here
    obtain ⟨lt, -⟩ := Array.getElem?_eq_some_iff.mp here
    have linked := forward.links i s here
    exact ⟨linked.next, fun p link =>
      ⟨linked.previous p link, Nat.lt_trans (linked.previous p link) lt⟩⟩
  · intro places
    rw [forward.loops_iff, foldl_listPlace, List.nil_append, walk, stepsAt_walkFrom]
  · intro most
    rw [forward.loops_iff, maxPrecedence, activeSteps, ← stepsAt_steps, List.foldl_map]
    rfl
  · refine ⟨_, fun last => forward.loops_iff, ?_⟩
    rw [foldl_showStep, stepsAt_steps, ← activeSteps, Option.or_none, text]
    cases chain.activeSteps.getLast? <;> rfl

/-- The step of `1+1`. -/
def oneStep : Step :=
  { left := .ofInt 1, operation := .handBack, right := .ofInt 1, precedence := 1, symbol := "+" }

def threeSteps : StepChain := ((StepChain.empty.append oneStep).append oneStep).append oneStep

/-- Of three steps the last two are spliced out, and then the middle one again: it links the first
one to the last one as before. A fourth step follows. -/
def revivedChain : StepChain :=
  (((threeSteps.splice 1 (.ofInt 2)).splice 2 (.ofInt 3)).splice 1 (.ofInt 4)).append oneStep

/-- A step that has been spliced out is met again. -/
theorem built_loops_end_revived : revivedChain.Built ∧
    (∃ s, revivedChain.steps[2]? = some s ∧ s.active = false) ∧
    revivedChain.walk = [0, 2, 3] ∧
    revivedChain.Loops listPlace revivedChain.head [] [0, 2, 3] ∧
    revivedChain.Loops takePrecedence revivedChain.head 0 1 := by
  have three : threeSteps.Built := .append (.append (.append .empty rfl rfl) rfl rfl) rfl rfl
  have built : revivedChain.Built := by
    refine .append (.splice _ (.splice _ (.splice _ three ?_) ?_) ?_) rfl rfl <;> decide
  obtain ⟨-, places, most, -⟩ := built_loops_end built
  exact ⟨built, ⟨_, rfl, rfl⟩, rfl, (places _).mpr rfl, (most _).mpr rfl⟩

end StepChain

/-! ## Passes -/

namespace Reduction

section

variable {ctx : Context} {tracing : Bool} {level fuel i : Nat} {start : Option Nat} {s : Step}
  {r r' : Reduction}

theorem resolve_forward (h : r.chain.Forward) (run : resolve ctx tracing i s r = .ok () r') :
    r'.chain.Forward ∧ r'.chain.steps.size = r.chain.steps.size := by
  cases applied : s.operation.apply ctx s.left s.right with
  | error failure =>
    obtain ⟨_, failed⟩ := resolve_error tracing i r applied
    rw [failed] at run
    cases run
  | ok v =>
    obtain ⟨r₁, resolved, spliced, -⟩ := resolve_ok tracing i r applied
    rw [resolved] at run
    cases run
    rw [spliced]
    exact ⟨h.splice i v, splice_size r.chain i v⟩

/-- A pass visits no more steps than there are places left, although it splices steps out on its
way: each time the next place is a later one. -/
theorem resolveLevel_room (h : r.chain.Forward) (more : Nat)
    (room : ∀ i, start = some i → i < r.chain.steps.size ∧ r.chain.steps.size ≤ i + fuel) :
    resolveLevel ctx tracing level (fuel + more) start r =
      resolveLevel ctx tracing level fuel start r := by
  induction fuel generalizing start r with
  | zero =>
    cases start with
    | none => rw [resolveLevel_none, resolveLevel_none]
    | some i =>
      have := room i rfl
      omega
  | succ fuel ih =>
    cases start with
    | none => rw [resolveLevel_none, resolveLevel_none]
    | some i =>
      obtain ⟨lt, enough⟩ := room i rfl
      have here := Array.getElem?_eq_getElem lt
      have onward : ∀ n, r.chain.steps[i].next = some n →
          n < r.chain.steps.size ∧ r.chain.steps.size ≤ n + fuel := by
        intro n link
        obtain ⟨lt', inside⟩ := (h.links i _ here).next n link
        exact ⟨inside, by omega⟩
      rw [Nat.succ_add, resolveLevel_some here, resolveLevel_some here]
      split
      case isTrue =>
        cases run : resolve ctx tracing i r.chain.steps[i] r with
        | error failure r' => rfl
        | ok _ r' =>
          obtain ⟨forward, size⟩ := resolve_forward h run
          exact ih forward (size ▸ onward)
      case isFalse => exact ih h onward

/-- A pass over a chain, however it was built, ends by itself: a larger bound changes nothing. -/
theorem resolveAll_room (built : r.chain.Built) (more : Nat) :
    resolveLevel ctx tracing level (r.chain.steps.size + more) r.chain.head r =
      resolveAll ctx tracing level r :=
  resolveLevel_room built.forward more fun i head =>
    ⟨built.forward.head i head, Nat.le_add_left _ _⟩

end

end Reduction
end Calculator
