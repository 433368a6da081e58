import Calculator.Proofs.Precedence

/-!
# Calculator.Proofs.Links

The linked steps of a chain as a list of clauses with their places.

`Zipped` says that the steps met along the links are the clauses of a list that is cut in two: those
already passed, the nearest first, and those to come. Moving on changes nothing (`zipped_next`);
splicing out the step at the cut hands its value to both sides (`zipped_splice`). `Holds` adds where
the chain begins; a chain to which steps are appended one after another holds them (`ofClauses_holds`).
-/

namespace Calculator

/-- The clause as a step, given the value at its left and the places of its neighbours. -/
def Clause.step (c : Clause) (left : Decimal) (previous next : Option Nat) : Step :=
  { left := left, operation := c.operator.operation, right := c.value
    precedence := c.operator.precedence, symbol := c.operator.symbol
    previous := previous, next := next, active := true }

/-- The operator of a step, as it is registered. -/
def Step.binding (s : Step) : Binding := ⟨s.symbol, s.operation, s.precedence⟩

@[simp] theorem Clause.step_binding (c : Clause) (left : Decimal) (previous next : Option Nat) :
    (c.step left previous next).binding = c.operator := rfl

/-- The place of the first of some clauses. -/
def placeOf (items : List (Nat × Clause)) : Option Nat := items.head?.map Prod.fst

/-- The value after the clauses that are passed, given the first value of the chain. -/
def valueOf (first : Decimal) : List (Nat × Clause) → Decimal
  | [] => first
  | (_, c) :: _ => c.value

@[simp] theorem placeOf_nil : placeOf [] = none := rfl

@[simp] theorem placeOf_cons (p : Nat × Clause) (items : List (Nat × Clause)) :
    placeOf (p :: items) = some p.1 := rfl

@[simp] theorem valueOf_nil (first : Decimal) : valueOf first [] = first := rfl

@[simp] theorem valueOf_cons (first : Decimal) (p : Nat × Clause) (items : List (Nat × Clause)) :
    valueOf first (p :: items) = p.2.value := rfl

/-- The steps at the places of the clauses to come, after a value and a place. -/
def Ahead (steps : Array Step) : Decimal → Option Nat → List (Nat × Clause) → Prop
  | _, _, [] => True
  | left, previous, (i, c) :: rest =>
    steps[i]? = some (c.step left previous (placeOf rest)) ∧ Ahead steps c.value (some i) rest

/-- The steps at the places of the clauses that are passed, before a place. -/
def Behind (steps : Array Step) (first : Decimal) : Option Nat → List (Nat × Clause) → Prop
  | _, [] => True
  | next, (i, c) :: more =>
    steps[i]? = some (c.step (valueOf first more) (placeOf more) next) ∧
      Behind steps first (some i) more

theorem Ahead.congr {steps steps' : Array Step} {left : Decimal} {previous : Option Nat}
    {items : List (Nat × Clause)} (h : Ahead steps left previous items)
    (hs : ∀ p ∈ items, steps'[p.1]? = steps[p.1]?) : Ahead steps' left previous items := by
  induction items generalizing left previous with
  | nil => trivial
  | cons p rest ih =>
    obtain ⟨i, c⟩ := p
    exact ⟨(hs (i, c) (by simp)).trans h.1, ih h.2 fun q hq => hs q (by simp [hq])⟩

theorem Behind.congr {steps steps' : Array Step} {first : Decimal} {next : Option Nat}
    {items : List (Nat × Clause)} (h : Behind steps first next items)
    (hs : ∀ p ∈ items, steps'[p.1]? = steps[p.1]?) : Behind steps' first next items := by
  induction items generalizing next with
  | nil => trivial
  | cons p rest ih =>
    obtain ⟨i, c⟩ := p
    exact ⟨(hs (i, c) (by simp)).trans h.1, ih h.2 fun q hq => hs q (by simp [hq])⟩

/-- The steps are the clauses of `passed`, in reverse, and then those of `rest`. -/
structure Zipped (steps : Array Step) (first : Decimal) (passed rest : List (Nat × Clause)) :
    Prop where
  behind : Behind steps first (placeOf rest) passed
  ahead : Ahead steps (valueOf first passed) (placeOf passed) rest
  places : ((passed ++ rest).map Prod.fst).Nodup

theorem Zipped.get {steps : Array Step} {first : Decimal} {passed rest : List (Nat × Clause)}
    {i : Nat} {c : Clause} (h : Zipped steps first passed ((i, c) :: rest)) :
    steps[i]? = some (c.step (valueOf first passed) (placeOf passed) (placeOf rest)) :=
  h.ahead.1

theorem zipped_next {steps : Array Step} {first : Decimal} {p : Nat × Clause}
    {passed rest : List (Nat × Clause)} :
    Zipped steps first passed (p :: rest) ↔ Zipped steps first (p :: passed) rest := by
  obtain ⟨i, c⟩ := p
  have hperm : (passed ++ (i, c) :: rest).Perm ((i, c) :: passed ++ rest) := List.perm_middle
  constructor
  · rintro ⟨hb, ha, hn⟩
    exact ⟨⟨ha.1, hb⟩, ha.2, (hperm.map Prod.fst).nodup_iff.1 hn⟩
  · rintro ⟨hb, ha, hn⟩
    exact ⟨hb.2, ⟨hb.1, ha⟩, (hperm.map Prod.fst).nodup_iff.2 hn⟩

theorem zipped_rewind {steps : Array Step} {first : Decimal} {passed rest : List (Nat × Clause)}
    (h : Zipped steps first passed rest) : Zipped steps first [] (passed.reverse ++ rest) := by
  induction passed generalizing rest with
  | nil => exact h
  | cons p passed ih =>
    rw [List.reverse_cons, List.append_assoc]
    exact ih (zipped_next.2 h)

/-! ## Splicing -/

/-- The clauses that are passed when the value after them is replaced. -/
def handValue (v : Decimal) : List (Nat × Clause) → List (Nat × Clause)
  | [] => []
  | (i, c) :: more => (i, c.withValue v) :: more

/-- The first value of the chain when the value after the passed clauses is replaced. -/
def handFirst (v first : Decimal) : List (Nat × Clause) → Decimal
  | [] => v
  | _ :: _ => first

@[simp] theorem placeOf_handValue (v : Decimal) (passed : List (Nat × Clause)) :
    placeOf (handValue v passed) = placeOf passed := by
  cases passed <;> rfl

@[simp] theorem valueOf_handValue (v first : Decimal) (passed : List (Nat × Clause)) :
    valueOf (handFirst v first passed) (handValue v passed) = v := by
  cases passed <;> rfl

@[simp] theorem handValue_places (v : Decimal) (passed : List (Nat × Clause)) :
    (handValue v passed).map Prod.fst = passed.map Prod.fst := by
  cases passed <;> rfl

/-- The step at a place after the step `s` before or after it is spliced out with a value. -/
def beside (s : Step) (v : Decimal) (place : Nat) (t : Step) : Step :=
  let t := if s.previous = some place then { t with right := v, next := s.next } else t
  if s.next = some place then { t with left := v, previous := s.previous } else t

theorem handBackwards_get (steps : Array Step) (s : Step) (v : Decimal) (place : Nat) :
    (StepChain.handBackwards steps s v)[place]? =
      steps[place]?.map fun t =>
        if s.previous = some place then { t with right := v, next := s.next } else t := by
  unfold StepChain.handBackwards
  split
  · rename_i hp
    simp [hp]
  · rename_i before hp
    rw [Array.getElem?_modify, hp]
    by_cases hb : before = place <;> simp [hb]

theorem handForwards_get (steps : Array Step) (s : Step) (v : Decimal) (place : Nat) :
    (StepChain.handForwards steps s v)[place]? =
      steps[place]?.map fun t =>
        if s.next = some place then { t with left := v, previous := s.previous } else t := by
  unfold StepChain.handForwards
  split
  · rename_i hp
    simp [hp]
  · rename_i after hp
    rw [Array.getElem?_modify, hp]
    by_cases ha : after = place <;> simp [ha]

theorem splice_get {chain : StepChain} {i : Nat} {s : Step} (v : Decimal)
    (hs : chain.steps[i]? = some s) (hn : (s.previous.isNone && s.next.isNone) = false)
    {place : Nat} (hne : i ≠ place) :
    (chain.splice i v).steps[place]? = chain.steps[place]?.map (beside s v place) := by
  have hsteps : (chain.splice i v).steps =
      (StepChain.handForwards (StepChain.handBackwards chain.steps s v) s v).modify i
        fun s => { s with active := false } := by
    simp [StepChain.splice, hs, hn]
  rw [hsteps, Array.getElem?_modify, if_neg hne, handForwards_get, handBackwards_get,
    Option.map_map]
  rfl

theorem splice_get_other {chain : StepChain} {i : Nat} {s : Step} (v : Decimal)
    (hs : chain.steps[i]? = some s) (hn : (s.previous.isNone && s.next.isNone) = false)
    {place : Nat} (hne : i ≠ place) (hp : s.previous ≠ some place) (hx : s.next ≠ some place) :
    (chain.splice i v).steps[place]? = chain.steps[place]? := by
  rw [splice_get v hs hn hne]
  cases chain.steps[place]? <;> simp [beside, hp, hx]

/-- The place of a step between others is none of theirs, and theirs differ. -/
theorem Zipped.apart {steps : Array Step} {first : Decimal} {passed rest : List (Nat × Clause)}
    {i : Nat} {c : Clause} (h : Zipped steps first passed ((i, c) :: rest)) :
    (∀ p ∈ passed, i ≠ p.1) ∧ (∀ q ∈ rest, i ≠ q.1) ∧ ∀ p ∈ passed, ∀ q ∈ rest, p.1 ≠ q.1 := by
  have places := h.places
  simp only [List.map_append, List.map_cons, List.nodup_append, List.nodup_cons, List.mem_cons,
    ne_eq] at places
  obtain ⟨-, ⟨notLater, -⟩, other⟩ := places
  refine ⟨?_, ?_, ?_⟩
  · intro p hp same
    exact other p.1 (List.mem_map_of_mem hp) i (Or.inl rfl) same.symm
  · intro q hq same
    exact notLater (same ▸ List.mem_map_of_mem hq)
  · intro p hp q hq
    exact other p.1 (List.mem_map_of_mem hp) q.1 (Or.inr (List.mem_map_of_mem hq))

theorem placeOf_ne {items : List (Nat × Clause)} {place : Nat} (h : ∀ p ∈ items, p.1 ≠ place) :
    placeOf items ≠ some place := by
  cases items with
  | nil => simp
  | cons p rest => simpa using h p (by simp)

section

variable {chain : StepChain} {first : Decimal} {passed rest : List (Nat × Clause)} {i : Nat}
  {c : Clause}

theorem isNone_places (hne : passed ≠ [] ∨ rest ≠ []) :
    ((placeOf passed).isNone && (placeOf rest).isNone) = false := by
  rcases hne with hne | hne
  · cases passed with
    | nil => exact absurd rfl hne
    | cons p more => rfl
  · cases rest with
    | nil => exact absurd rfl hne
    | cons p more => simp

theorem behind_splice (v : Decimal) (h : Zipped chain.steps first passed ((i, c) :: rest))
    (hne : passed ≠ [] ∨ rest ≠ []) :
    Behind (chain.splice i v).steps (handFirst v first passed) (placeOf rest)
      (handValue v passed) := by
  have hs := h.get
  have hn := isNone_places hne
  obtain ⟨hip, -, hpr⟩ := h.apart
  cases passed with
  | nil => trivial
  | cons p more =>
    obtain ⟨j, d⟩ := p
    have places := h.places
    simp only [List.cons_append, List.map_cons, List.nodup_cons, List.map_append,
      List.mem_append, not_or] at places
    refine ⟨?_, Behind.congr h.behind.2 fun q hq => ?_⟩
    · have hx : placeOf rest ≠ some j := placeOf_ne fun q hq => (hpr (j, d) (by simp) q hq).symm
      rw [splice_get v hs hn (hip (j, d) (by simp)), h.behind.1]
      simp [beside, Clause.step, hx, handFirst]
    · have hj : j ≠ q.1 := fun same => places.1.1 (same ▸ List.mem_map_of_mem hq)
      have hx : placeOf rest ≠ some q.1 :=
        placeOf_ne fun r hr => (hpr q (by simp [hq]) r hr).symm
      exact splice_get_other v hs hn (hip q (by simp [hq])) (by simpa [Clause.step] using hj) hx

theorem ahead_splice (v : Decimal) (h : Zipped chain.steps first passed ((i, c) :: rest))
    (hne : passed ≠ [] ∨ rest ≠ []) :
    Ahead (chain.splice i v).steps v (placeOf passed) rest := by
  have hs := h.get
  have hn := isNone_places hne
  obtain ⟨-, hir, hpr⟩ := h.apart
  cases rest with
  | nil => trivial
  | cons p more =>
    obtain ⟨k, e⟩ := p
    have places := h.places
    simp only [List.map_append, List.map_cons, List.nodup_append, List.nodup_cons] at places
    refine ⟨?_, Ahead.congr h.ahead.2.2 fun q hq => ?_⟩
    · have hp : placeOf passed ≠ some k := placeOf_ne fun q hq => hpr q hq (k, e) (by simp)
      rw [splice_get v hs hn (hir (k, e) (by simp)), h.ahead.2.1]
      simp [beside, Clause.step, hp]
    · have hk : k ≠ q.1 := fun same => places.2.1.2.1 (same ▸ List.mem_map_of_mem hq)
      have hp : placeOf passed ≠ some q.1 := placeOf_ne fun r hr => hpr r hr q (by simp [hq])
      exact splice_get_other v hs hn (hir q (by simp [hq])) hp (by simpa [Clause.step] using hk)

theorem zipped_splice (v : Decimal) (h : Zipped chain.steps first passed ((i, c) :: rest))
    (hne : passed ≠ [] ∨ rest ≠ []) :
    Zipped (chain.splice i v).steps (handFirst v first passed) (handValue v passed) rest := by
  refine ⟨behind_splice v h hne, ?_, ?_⟩
  · rw [valueOf_handValue, placeOf_handValue]
    exact ahead_splice v h hne
  · simpa using h.places.sublist
      (List.Sublist.map _ ((List.sublist_cons_self (i, c) rest).append_left passed))

end

@[simp] theorem handValue_handValue (v w : Decimal) (passed : List (Nat × Clause)) :
    handValue v (handValue w passed) = handValue v passed := by
  cases passed <;> rfl

@[simp] theorem handFirst_handFirst (v w first : Decimal) (passed : List (Nat × Clause)) :
    handFirst v (handFirst w first passed) (handValue w passed) = handFirst v first passed := by
  cases passed <;> rfl

@[simp] theorem handValue_valueOf (first : Decimal) (passed : List (Nat × Clause)) :
    handValue (valueOf first passed) passed = passed := by
  cases passed <;> rfl

@[simp] theorem handFirst_valueOf (first : Decimal) (passed : List (Nat × Clause)) :
    handFirst (valueOf first passed) first passed = first := by
  cases passed <;> rfl

@[simp] theorem handValue_eq_nil {v : Decimal} {passed : List (Nat × Clause)} :
    handValue v passed = [] ↔ passed = [] := by
  cases passed <;> simp [handValue]

/-! ## Chains -/

/-- The chain holds the clauses of `passed`, in reverse, and then those of `rest`. -/
structure Holds (chain : StepChain) (first : Decimal) (passed rest : List (Nat × Clause)) :
    Prop where
  zipped : Zipped chain.steps first passed rest
  head : chain.head = placeOf (passed.reverse ++ rest)
  room : passed.length + rest.length ≤ chain.steps.size

theorem holds_next {chain : StepChain} {first : Decimal} {p : Nat × Clause}
    {passed rest : List (Nat × Clause)} (h : Holds chain first passed (p :: rest)) :
    Holds chain first (p :: passed) rest where
  zipped := zipped_next.1 h.zipped
  head := by simpa using h.head
  room := by have := h.room; simp only [List.length_cons] at this ⊢; omega

theorem holds_rewind {chain : StepChain} {first : Decimal} {passed rest : List (Nat × Clause)}
    (h : Holds chain first passed rest) : Holds chain first [] (passed.reverse ++ rest) where
  zipped := zipped_rewind h.zipped
  head := by simpa using h.head
  room := by simpa using h.room

theorem splice_size (chain : StepChain) (i : Nat) (v : Decimal) :
    (chain.splice i v).steps.size = chain.steps.size := by
  unfold StepChain.splice
  split
  · rfl
  · split
    · simp
    · simp only [StepChain.handForwards, StepChain.handBackwards, Array.size_modify]
      split <;> split <;> simp

/-- Splicing out the step at the cut hands its value to both sides. -/
theorem holds_splice {chain : StepChain} {first : Decimal} {passed rest : List (Nat × Clause)}
    {i : Nat} {c : Clause} (v : Decimal) (h : Holds chain first passed ((i, c) :: rest))
    (hne : passed ≠ [] ∨ rest ≠ []) :
    Holds (chain.splice i v) (handFirst v first passed) (handValue v passed) rest where
  zipped := zipped_splice v h.zipped hne
  head := by
    have hs := h.zipped.get
    have hhead := h.head
    cases hp : passed with
    | nil =>
      subst hp
      obtain hne | hne := hne
      · exact absurd rfl hne
      cases rest with
      | nil => exact absurd rfl hne
      | cons q rest => simp [StepChain.splice, hs, Clause.step, hhead, handValue]
    | cons p more =>
      -- the head lies among the clauses that are passed, none of which is spliced out
      have hmem : ∃ q ∈ p :: more, placeOf ((p :: more).reverse ++ (i, c) :: rest) = some q.1 ∧
          placeOf ((handValue v (p :: more)).reverse ++ rest) = some q.1 := by
        obtain ⟨j, d⟩ := p
        rcases List.eq_nil_or_concat more with rfl | ⟨front, q, rfl⟩
        · exact ⟨(j, d), by simp, by simp, by simp [handValue]⟩
        · exact ⟨q, by simp, by simp, by simp [handValue]⟩
      obtain ⟨q, hq, hold, hnew⟩ := hmem
      rw [← hp] at hq hold hnew
      have hiq : q.1 ≠ i := by
        have hplaces := h.zipped.places
        simp only [List.map_append, List.map_cons, List.nodup_append, ne_eq] at hplaces
        exact hplaces.2.2 q.1 (List.mem_map_of_mem hq) i (by simp)
      rw [hold] at hhead
      rw [← hp, hnew]
      simp [StepChain.splice, hs, Clause.step, hhead, hiq, hp]
  room := by
    have := h.room
    rw [splice_size]
    have hl : (handValue v passed).length = passed.length := by cases passed <;> rfl
    simp only [List.length_cons] at this
    omega

theorem splice_only {chain : StepChain} {first : Decimal} {i : Nat} {c : Clause} (v : Decimal)
    (h : Holds chain first [] [(i, c)]) :
    (chain.splice i v).head = some i ∧
      (chain.splice i v).steps[i]? = some ((c.withValue v).step first none none) := by
  have hs : chain.steps[i]? = some (c.step first none none) := h.zipped.get
  have hhead : chain.head = some i := h.head
  simp [StepChain.splice, hs, Clause.step, hhead, Array.getElem?_modify]

/-! ## Appending -/

/-- A chain with a further step for each clause, the first of them after a value. -/
def StepChain.extend : StepChain → Decimal → List Clause → StepChain
  | chain, _, [] => chain
  | chain, left, c :: rest => (chain.append (c.step left none none)).extend c.value rest

/-- The chain to which a step is appended for each clause. -/
def StepChain.ofClauses (first : Decimal) (cs : List Clause) : StepChain := empty.extend first cs

/-- A chain that has only been appended to: its steps lie one after another. -/
structure Appended (chain : StepChain) (first : Decimal) (passed : List (Nat × Clause)) :
    Prop where
  holds : Holds chain first passed []
  last : placeOf passed = if chain.steps.size = 0 then none else some (chain.steps.size - 1)
  below : ∀ p ∈ passed, p.1 < chain.steps.size

theorem appended_empty (first : Decimal) : Appended .empty first [] where
  holds := ⟨⟨trivial, trivial, List.nodup_nil⟩, rfl, Nat.le_refl _⟩
  last := rfl
  below := by simp

@[simp] theorem append_size (chain : StepChain) (s : Step) :
    (chain.append s).steps.size = chain.steps.size + 1 := by
  by_cases h : chain.steps.size = 0 <;> simp [StepChain.append, h]

theorem append_get (chain : StepChain) (s : Step) (h : chain.steps.size ≠ 0) (place : Nat) :
    (chain.append s).steps[place]? =
      if place = chain.steps.size then some { s with previous := some (chain.steps.size - 1) }
      else chain.steps[place]?.map fun t =>
        if chain.steps.size - 1 = place then { t with next := some chain.steps.size } else t := by
  simp only [StepChain.append, if_neg h, Array.getElem?_push, Array.size_modify]
  split
  · rfl
  · rw [Array.getElem?_modify]
    split <;> simp

theorem append_head (chain : StepChain) (s : Step) (h : chain.steps.size ≠ 0) :
    (chain.append s).head = chain.head := by
  simp [StepChain.append, h]

theorem appended_append {chain : StepChain} {first : Decimal} {passed : List (Nat × Clause)}
    (c : Clause) (h : Appended chain first passed) :
    Appended (chain.append (c.step (valueOf first passed) none none)) first
      ((chain.steps.size, c) :: passed) := by
  obtain ⟨⟨⟨hb, -, hn⟩, hhead, hroom⟩, hlast, hbelow⟩ := h
  cases passed with
  | nil =>
    have hsize : chain.steps.size = 0 := by
      cases hz : chain.steps.size with
      | zero => rfl
      | succ n => simp [hz] at hlast
    refine ⟨⟨⟨?_, trivial, by simp⟩, ?_, ?_⟩, ?_, ?_⟩ <;>
      simp [StepChain.append, hsize, Behind, Clause.step]
  | cons p more =>
    obtain ⟨j, d⟩ := p
    have hj : j < chain.steps.size := hbelow (j, d) (by simp)
    have hsize : chain.steps.size ≠ 0 := by omega
    simp only [placeOf_cons, if_neg hsize, Option.some.injEq] at hlast
    simp only [List.append_nil, List.map_cons, List.nodup_cons] at hn
    have hbehind : Behind (chain.append (c.step d.value none none)).steps first
        (some chain.steps.size) ((j, d) :: more) := by
      refine ⟨?_, Behind.congr hb.2 fun q hq => ?_⟩
      · rw [append_get _ _ hsize, if_neg (by omega), hb.1]
        simp [Clause.step, hlast]
      · have hq' : q.1 < chain.steps.size := hbelow q (by simp [hq])
        have hqj : chain.steps.size - 1 ≠ q.1 := fun he =>
          hn.1 (hlast.trans he ▸ List.mem_map_of_mem hq)
        rw [append_get _ _ hsize, if_neg (by omega)]
        simp [hqj]
    have hnew : chain.steps.size ∉ ((j, d) :: more).map Prod.fst := by
      intro hmem
      obtain ⟨q, hq, he⟩ := List.mem_map.1 hmem
      have := hbelow q hq
      omega
    rw [valueOf_cons]
    refine ⟨⟨⟨⟨?_, hbehind⟩, trivial, ?_⟩, ?_, ?_⟩, ?_, fun q hq => ?_⟩
    · rw [append_get _ _ hsize, if_pos rfl]
      simp [Clause.step, hlast]
    · rw [List.append_nil, List.map_cons, List.nodup_cons]
      exact ⟨hnew, List.nodup_cons.2 hn⟩
    · rw [append_head _ _ hsize, hhead]
      simp [placeOf]
    · simpa using hroom
    · simp
    · rw [append_size]
      rcases List.mem_cons.1 hq with rfl | hq
      · exact Nat.lt_succ_self _
      · exact Nat.lt_succ_of_lt (hbelow q hq)

theorem appended_extend {chain : StepChain} {first : Decimal} {passed : List (Nat × Clause)}
    (cs : List Clause) (h : Appended chain first passed) :
    ∃ items : List (Nat × Clause), items.map Prod.snd = cs ∧
      Appended (chain.extend (valueOf first passed) cs) first (items.reverse ++ passed) := by
  induction cs generalizing chain passed with
  | nil => exact ⟨[], rfl, h⟩
  | cons c cs ih =>
    obtain ⟨items, hi, ha⟩ := ih (appended_append c h)
    exact ⟨(chain.steps.size, c) :: items, by simp [hi], by simpa [StepChain.extend] using ha⟩

theorem ofClauses_holds (first : Decimal) (cs : List Clause) :
    ∃ items : List (Nat × Clause), items.map Prod.snd = cs ∧
      Holds (.ofClauses first cs) first [] items := by
  obtain ⟨items, hi, ha⟩ := appended_extend cs (appended_empty first)
  exact ⟨items, hi, by simpa [StepChain.ofClauses] using holds_rewind ha.holds⟩

/-! ## Walking -/

theorem walkFrom_ahead {chain : StepChain} {left : Decimal} {previous : Option Nat}
    {items : List (Nat × Clause)} {fuel : Nat} (h : Ahead chain.steps left previous items)
    (hf : items.length ≤ fuel) : chain.walkFrom fuel (placeOf items) = items.map Prod.fst := by
  induction items generalizing left previous fuel with
  | nil => cases fuel <;> rfl
  | cons p rest ih =>
    obtain ⟨i, c⟩ := p
    cases fuel with
    | zero => simp at hf
    | succ fuel =>
      simp only [placeOf_cons, StepChain.walkFrom, h.1]
      rw [List.map_cons, ← ih h.2 (by simpa using hf)]
      rfl

theorem ahead_mem {steps : Array Step} {left : Decimal} {previous : Option Nat}
    {items : List (Nat × Clause)} (h : Ahead steps left previous items) {p : Nat × Clause}
    (hp : p ∈ items) : ∃ s, steps[p.1]? = some s ∧ s.precedence = p.2.precedence := by
  induction items generalizing left previous with
  | nil => cases hp
  | cons q rest ih =>
    obtain ⟨i, c⟩ := q
    rcases List.mem_cons.1 hp with rfl | hp
    · exact ⟨_, h.1, rfl⟩
    · exact ih h.2 hp

theorem le_foldl_max (steps : List Step) (most : Nat) :
    most ≤ steps.foldl (fun most step => max most step.precedence) most ∧
      ∀ s ∈ steps, s.precedence ≤ steps.foldl (fun most step => max most step.precedence) most := by
  induction steps generalizing most with
  | nil => simp
  | cons s steps ih =>
    obtain ⟨h, hs⟩ := ih (max most s.precedence)
    simp only [List.foldl_cons, List.forall_mem_cons]
    exact ⟨by omega, by omega, hs⟩

theorem le_maxPrecedence {chain : StepChain} {first : Decimal} {items : List (Nat × Clause)}
    (h : Holds chain first [] items) {p : Nat × Clause} (hp : p ∈ items) :
    p.2.precedence ≤ chain.maxPrecedence := by
  obtain ⟨s, hs, he⟩ := ahead_mem h.zipped.ahead hp
  rw [← he]
  refine (le_foldl_max _ 0).2 s (List.mem_filterMap.2 ⟨p.1, ?_, hs⟩)
  have hroom := h.room
  rw [StepChain.walk, h.head]
  rw [List.reverse_nil, List.nil_append, walkFrom_ahead h.zipped.ahead (by simpa using hroom)]
  exact List.mem_map_of_mem hp

/-! ## What a chain shows -/

/-- The values and operators of the steps from the head on. -/
def StepChain.view (chain : StepChain) : List (Decimal × Binding × Decimal) :=
  chain.activeSteps.map fun s => (s.left, s.binding, s.right)

/-- The values at the sides of each operator, and the operator. -/
def alternating : Decimal → List Clause → List (Decimal × Binding × Decimal)
  | _, [] => []
  | left, c :: rest => (left, c.operator, c.value) :: alternating c.value rest

theorem ahead_view {steps : Array Step} {left : Decimal} {previous : Option Nat}
    {items : List (Nat × Clause)} (h : Ahead steps left previous items) :
    ((items.map Prod.fst).filterMap (steps[·]?)).map (fun s => (s.left, s.binding, s.right)) =
      alternating left (items.map Prod.snd) := by
  induction items generalizing left previous with
  | nil => rfl
  | cons p rest ih =>
    obtain ⟨i, c⟩ := p
    simp only [List.map_cons, List.filterMap_cons_some h.1, ih h.2, alternating]
    rfl

theorem extend_size (chain : StepChain) (left : Decimal) (cs : List Clause) :
    (chain.extend left cs).steps.size = chain.steps.size + cs.length := by
  induction cs generalizing chain left with
  | nil => rfl
  | cons c rest ih => rw [StepChain.extend, ih, append_size, List.length_cons]; omega

theorem ofClauses_size (first : Decimal) (cs : List Clause) :
    (StepChain.ofClauses first cs).steps.size = cs.length := by
  rw [StepChain.ofClauses, extend_size]
  exact Nat.zero_add _

theorem ofClauses_view (first : Decimal) (cs : List Clause) :
    (StepChain.ofClauses first cs).view = alternating first cs := by
  obtain ⟨items, rfl, h⟩ := ofClauses_holds first cs
  have hroom := h.room
  have hahead : Ahead _ first none items := h.zipped.ahead
  have hwalk := walkFrom_ahead hahead (by simpa using hroom)
  rw [← ahead_view hahead, StepChain.view, StepChain.activeSteps, StepChain.walk, h.head,
    List.reverse_nil, List.nil_append, hwalk]

end Calculator
