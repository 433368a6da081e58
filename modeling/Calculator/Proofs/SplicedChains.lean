import Calculator.Proofs.Segments
import Mathlib.Data.List.Chain

/-!
# Calculator.Proofs.SplicedChains

Chains from which active steps are spliced out in any order, with any values.

* `resolveAt`: a list of cells, less the one at a place, which hands a value to its neighbours.
* `Intact`: the active steps of a chain are those that it lists, and their values meet.
* `Intact.splice`, `Splices.intact`: splicing keeps a chain intact, once and many times.
* `splices_represent`: what the walk, the links, the values and the text of the chain are then.
-/

namespace Calculator

/-! ## Lists of cells -/

/-- The cells that are left when the one at a place is resolved: its neighbours get the value, or it
stays and has the value at its right if it is the only one. -/
def resolveAt (i : Nat) (v : Decimal) (items : List PlacedCell) : List PlacedCell :=
  if items.length = 1 then items.map fun p => (p.1, p.2.withRight v)
  else handOverPlaced v (items.takeWhile (·.1 != i)) (items.dropWhile (·.1 != i)).tail

def resolveAll (splices : List (Nat × Decimal)) (items : List PlacedCell) : List PlacedCell :=
  splices.foldl (fun items s => resolveAt s.1 s.2 items) items

/-- Each cell begins with the value that the one before it ends with. -/
def Coherent (cells : List Cell) : Prop := cells.IsChain fun c d => c.right = d.left

section

variable {before after : List PlacedCell} {i : Nat} {c : Cell}

theorem resolveAt_between (v : Decimal) (earlier : ∀ p ∈ before, p.1 < i)
    (ne : before ++ after ≠ []) :
    resolveAt i v (before ++ (i, c) :: after) = handOverPlaced v before after := by
  have several : (before ++ (i, c) :: after).length ≠ 1 := by
    have positive := List.length_pos_iff.mpr ne
    simp only [List.length_append, List.length_cons] at positive ⊢
    omega
  have passed : ∀ p ∈ before, (p.1 != i) = true :=
    fun p mem => bne_iff_ne.mpr (Nat.ne_of_lt (earlier p mem))
  rw [resolveAt, if_neg several, List.takeWhile_append_of_pos passed,
    List.dropWhile_append_of_pos passed, List.takeWhile_cons_of_neg (by simp),
    List.dropWhile_cons_of_neg (by simp), List.append_nil, List.tail_cons]

theorem coherent_modifyLast (v : Decimal) {cells : List Cell} (h : Coherent cells) :
    Coherent (cells.modifyLast (·.withRight v)) := by
  rcases List.eq_nil_or_concat cells with rfl | ⟨front, last, rfl⟩
  · exact h
  · rw [List.concat_eq_append] at h ⊢
    rw [List.modifyLast_concat]
    obtain ⟨chain, -, met⟩ := List.isChain_append.mp h
    refine List.isChain_append.mpr ⟨chain, List.isChain_singleton _, fun d mem e mem' => ?_⟩
    cases mem'
    exact met d mem last rfl

theorem coherent_modifyHead (v : Decimal) {cells : List Cell} (h : Coherent cells) :
    Coherent (cells.modifyHead (·.withLeft v)) := by
  cases cells with
  | nil => exact h
  | cons first rest =>
    cases rest with
    | nil => exact List.isChain_singleton _
    | cons second rest =>
      obtain ⟨met, chain⟩ := List.isChain_cons_cons.mp h
      exact List.isChain_cons_cons.mpr ⟨met, chain⟩

/-- The values at both sides of a cell that has been resolved are the same. -/
theorem coherent_handOver (v : Decimal) {before after : List Cell} {c : Cell}
    (h : Coherent (before ++ c :: after)) : Coherent (handOver v before after) := by
  obtain ⟨left, right, -⟩ := List.isChain_append.mp h
  refine List.isChain_append.mpr ⟨coherent_modifyLast v left,
    coherent_modifyHead v right.tail, fun d last e first => ?_⟩
  have handed : d.right = v := by
    rcases List.eq_nil_or_concat before with rfl | ⟨front, b, rfl⟩
    · cases last
    · rw [List.concat_eq_append, List.modifyLast_concat, List.getLast?_concat] at last
      cases last
      rfl
  have handed' : e.left = v := by
    cases after with
    | nil => cases first
    | cons a rest =>
      cases first
      rfl
  rw [handed, handed']

end

/-! ## Active steps -/

namespace StepChain

/-- The chain has an active step at a place. -/
def IsActive (chain : StepChain) (i : Nat) : Prop :=
  ∃ s, chain.steps[i]? = some s ∧ s.active = true

/-- Steps are spliced out one after another, each of which is active when its turn comes. -/
inductive Splices : StepChain → List (Nat × Decimal) → StepChain → Prop
  | refl {chain : StepChain} : Splices chain [] chain
  | cons {chain last : StepChain} {i : Nat} {v : Decimal} {later : List (Nat × Decimal)} :
      chain.IsActive i → Splices (chain.splice i v) later last →
      Splices chain ((i, v) :: later) last

/-- The chain lists some cells, whose steps are its active ones, and their values meet. -/
structure Intact (chain : StepChain) (items : List PlacedCell) : Prop
    extends chain.Lists items where
  filled : items ≠ []
  active : ∀ i, chain.IsActive i → i ∈ items.map Prod.fst
  coherent : Coherent (items.map Prod.snd)

section

variable {chain : StepChain} {items before after : List PlacedCell} {i : Nat} {c : Cell}

theorem Lists.isActive (h : chain.Lists (before ++ (i, c) :: after)) : chain.IsActive i :=
  ⟨_, h.at_place.2.1, rfl⟩

theorem mem_places : i ∈ items.map Prod.fst ↔
    ∃ (before : List PlacedCell) (c : Cell) (after : List PlacedCell),
      items = before ++ (i, c) :: after := by
  constructor
  · intro mem
    obtain ⟨⟨_, c⟩, listed, rfl⟩ := List.mem_map.mp mem
    obtain ⟨before, after, split⟩ := List.append_of_mem listed
    exact ⟨before, c, after, split⟩
  · rintro ⟨before, c, after, rfl⟩
    exact List.mem_map_of_mem (List.mem_append_right _ List.mem_cons_self)

theorem Intact.isActive_iff (h : chain.Intact items) {j : Nat} :
    chain.IsActive j ↔ j ∈ items.map Prod.fst := by
  refine ⟨h.active j, fun mem => ?_⟩
  obtain ⟨before, c, after, rfl⟩ := mem_places.mp mem
  exact h.toLists.isActive

/-- Splicing a step out from others leaves all of these as active as they were. -/
theorem isActive_splice (v : Decimal) (h : chain.Lists (before ++ (i, c) :: after))
    (ne : before ++ after ≠ []) (j : Nat) :
    (chain.splice i v).IsActive j ↔ chain.IsActive j ∧ j ≠ i := by
  by_cases same : j = i
  · subst same
    obtain ⟨s, here, inactive⟩ := splice_inactive v h ne
    refine ⟨?_, fun active => absurd rfl active.2⟩
    rintro ⟨t, there, active⟩
    rw [here] at there
    cases there
    rw [inactive] at active
    cases active
  · have get := splice_get v h.at_place.2.1 (isNone_linked ne) (Ne.symm same)
    have kept (t : Step) : (beside (c.step (lastPlace none before) (firstPlace after none)) v j
        t).active = t.active := by
      simp only [beside]
      split <;> split <;> rfl
    rw [IsActive, IsActive, get]
    cases chain.steps[j]? with
    | none => simp
    | some t => simp [kept, same]

/-- The last step of all stays active. -/
theorem isActive_splice_sole (v : Decimal) (h : chain.Lists [(i, c)]) (j : Nat) :
    (chain.splice i v).IsActive j ↔ chain.IsActive j := by
  rw [splice_sole_eq v h, IsActive, IsActive, Array.getElem?_modify]
  by_cases same : i = j
  · rw [if_pos same]
    cases chain.steps[j]? with
    | none => simp
    | some t => simp
  · rw [if_neg same]

/-- Splicing an active step out keeps a chain intact. -/
theorem Intact.splice (v : Decimal) (h : chain.Intact items) (active : chain.IsActive i) :
    (chain.splice i v).Intact (resolveAt i v items) := by
  obtain ⟨before, c, after, rfl⟩ := mem_places.mp (h.active i active)
  by_cases ne : before ++ after = []
  · obtain ⟨rfl, rfl⟩ := List.append_eq_nil_iff.mp ne
    exact {
      toLists := splice_sole v h.toLists
      filled := List.cons_ne_nil _ _
      active := fun j later => h.active j ((isActive_splice_sole v h.toLists j).mp later)
      coherent := List.isChain_singleton _ }
  · have coherent := h.coherent
    rw [List.map_append, List.map_cons] at coherent
    rw [resolveAt_between v h.toLists.apart.1 ne]
    exact {
      toLists := lists_splice v h.toLists ne
      filled := handOverPlaced_ne v ne
      active := fun j later => by
        obtain ⟨earlier, other⟩ := (isActive_splice v h.toLists ne j).mp later
        have mem := h.active j earlier
        rw [handOverPlaced_places]
        rw [List.map_append, List.map_cons, List.mem_append, List.mem_cons] at mem
        exact List.mem_append.mpr (mem.imp_right fun here => here.resolve_left other)
      coherent := by
        rw [handOverPlaced_cells]
        exact coherent_handOver v coherent }

theorem Splices.intact {last : StepChain} {splices : List (Nat × Decimal)}
    (spliced : chain.Splices splices last) (h : chain.Intact items) :
    last.Intact (resolveAll splices items) := by
  induction spliced generalizing items with
  | refl => exact h
  | cons active _ ih => exact ih (h.splice _ active)

/-- Steps that have only been appended are all active. -/
theorem intact_ofCells {cells : List Cell} (filled : cells ≠ []) (coherent : Coherent cells) :
    (ofCells cells).Intact (placeCells cells) where
  toLists := ofCells_lists cells
  filled := by
    intro none
    have places := placeCells_cells cells
    rw [none] at places
    exact filled places.symm
  active i active := by
    obtain ⟨s, here, -⟩ := active
    obtain ⟨lt, -⟩ := Array.getElem?_eq_some_iff.mp here
    rw [placeCells_places, List.mem_range, ← ofCells_size]
    exact lt
  coherent := by
    rw [placeCells_cells]
    exact coherent

end

/-! ## What a chain shows -/

section

variable {chain : StepChain} {items : List PlacedCell}

/-- The chain is the list of cells, seen in every way. -/
structure Represents (chain : StepChain) (items : List PlacedCell) : Prop where
  walk : chain.walk = items.map Prod.fst
  increasing : chain.walk.Pairwise (· < ·)
  active : ∀ i, i ∈ chain.walk ↔ chain.IsActive i
  head : chain.head = chain.walk.head?
  links : ∀ before i after, chain.walk = before ++ i :: after →
    ∃ s, chain.steps[i]? = some s ∧ s.previous = before.getLast? ∧ s.next = after.head?
  cells : chain.activeSteps.map Step.cell = items.map Prod.snd
  coherent : chain.activeSteps.IsChain fun s t => s.right = t.left
  text : chain.text = textOfCells (items.map Prod.snd)

theorem firstPlace_eq (items : List PlacedCell) :
    firstPlace items none = (items.map Prod.fst).head? := by
  cases items <;> rfl

theorem lastPlace_eq (items : List PlacedCell) :
    lastPlace none items = (items.map Prod.fst).getLast? := by
  rcases List.eq_nil_or_concat items with rfl | ⟨front, p, rfl⟩
  · rfl
  · rw [List.concat_eq_append, lastPlace_concat, List.map_append, List.map_singleton,
      List.getLast?_concat]

theorem Lists.links {before after : List Nat} {i : Nat} (h : chain.Lists items)
    (split : items.map Prod.fst = before ++ i :: after) :
    ∃ s, chain.steps[i]? = some s ∧ s.previous = before.getLast? ∧ s.next = after.head? := by
  obtain ⟨left, right, rfl, rfl, rest⟩ := List.map_eq_append_iff.mp split
  obtain ⟨⟨_, c⟩, right, rfl, rfl, rfl⟩ := List.map_eq_cons_iff.mp rest
  refine ⟨_, h.at_place.2.1, ?_, ?_⟩
  · rw [← lastPlace_eq]
    rfl
  · rw [← firstPlace_eq]
    rfl

theorem Intact.represents (h : chain.Intact items) : chain.Represents items where
  walk := h.walk
  increasing := by
    rw [h.walk]
    exact h.places
  active i := by
    rw [h.walk]
    exact h.isActive_iff.symm
  head := by
    rw [h.walk, h.head, firstPlace_eq]
  links before i after split := by
    rw [h.walk] at split
    exact h.toLists.links split
  cells := h.cells
  coherent := by
    have coherent := h.coherent
    rw [Coherent, ← h.cells, List.isChain_map] at coherent
    exact coherent
  text := h.text

/-- The only active step stays active when it is spliced out, with the value at its right, and any
other becomes inactive, alone of all steps. -/
theorem Intact.splice_active (h : chain.Intact items) {i : Nat} (v : Decimal)
    (active : chain.IsActive i) :
    (chain.walk = [i] → (∀ j, (chain.splice i v).IsActive j ↔ chain.IsActive j) ∧
      ∃ s, (chain.splice i v).steps[i]? = some s ∧ s.active = true ∧ s.right = v) ∧
    (chain.walk ≠ [i] → ∀ j, (chain.splice i v).IsActive j ↔ chain.IsActive j ∧ j ≠ i) := by
  obtain ⟨before, c, after, rfl⟩ := mem_places.mp (h.active i active)
  by_cases ne : before ++ after = []
  · obtain ⟨rfl, rfl⟩ := List.append_eq_nil_iff.mp ne
    have here := (splice_sole v h.toLists).linked.1
    exact ⟨fun _ => ⟨isActive_splice_sole v h.toLists, _, here, rfl, rfl⟩,
      fun several => absurd h.walk several⟩
  · have several : chain.walk ≠ [i] := by
      intro alone
      have length := congrArg List.length (h.walk.symm.trans alone)
      have positive := List.length_pos_iff.mpr ne
      simp only [List.length_map, List.length_append, List.length_cons, List.length_nil]
        at length positive
      omega
    exact ⟨fun alone => absurd alone several, fun _ => isActive_splice v h.toLists ne⟩

end

/-- A chain of cells whose values meet, from which active steps have been spliced out in any order
and with any values, is the list of cells from which these have been resolved. It never gets empty:
every further active step that is spliced out becomes inactive, alone of all steps, unless it is the
last one, which stays and has the value at its right. -/
theorem splices_represent {cells : List Cell} {splices : List (Nat × Decimal)} {chain : StepChain}
    (filled : cells ≠ []) (coherent : Coherent cells)
    (spliced : (ofCells cells).Splices splices chain) :
    chain.walk ≠ [] ∧ chain.Represents (resolveAll splices (placeCells cells)) ∧
    ∀ i v, chain.IsActive i →
      (chain.walk = [i] → (∀ j, (chain.splice i v).IsActive j ↔ chain.IsActive j) ∧
        ∃ s, (chain.splice i v).steps[i]? = some s ∧ s.active = true ∧ s.right = v) ∧
      (chain.walk ≠ [i] → ∀ j, (chain.splice i v).IsActive j ↔ chain.IsActive j ∧ j ≠ i) := by
  have intact := spliced.intact (intact_ofCells filled coherent)
  refine ⟨?_, intact.represents, fun i v active => intact.splice_active v active⟩
  rw [intact.walk]
  exact mt List.map_eq_nil_iff.mp intact.filled

/-- The cells of `1-2*3+4`. -/
def mixedCells : List Cell :=
  [⟨.ofInt 1, ⟨"-", .handBack, 0⟩, .ofInt 2⟩, ⟨.ofInt 2, ⟨"*", .handBack, 0⟩, .ofInt 3⟩,
    ⟨.ofInt 3, ⟨"+", .handBack, 0⟩, .ofInt 4⟩]

/-- The product is resolved first, then the difference, and at last the sum, which stays. -/
theorem splices_represent_mixed : mixedCells ≠ [] ∧ Coherent mixedCells ∧
    ∃ chain, (ofCells mixedCells).Splices
        [(1, .ofInt 6), (0, .ofInt (-5)), (2, .ofInt (-1))] chain ∧
      chain.walk = [2] ∧ chain.IsActive 2 ∧ ¬ chain.IsActive 1 ∧ chain.text = "-5+-1" := by
  have filled : mixedCells ≠ [] := List.cons_ne_nil _ _
  have coherent : Coherent mixedCells :=
    List.isChain_cons_cons.mpr ⟨rfl, List.isChain_cons_cons.mpr ⟨rfl, List.isChain_singleton _⟩⟩
  have spliced : (ofCells mixedCells).Splices
      [(1, .ofInt 6), (0, .ofInt (-5)), (2, .ofInt (-1))] _ :=
    .cons ⟨_, rfl, rfl⟩ (.cons ⟨_, rfl, rfl⟩ (.cons ⟨_, rfl, rfl⟩ .refl))
  obtain ⟨-, represented, -⟩ := splices_represent filled coherent spliced
  have walk := represented.walk.trans (rfl : _ = [2])
  refine ⟨filled, coherent, _, spliced, walk, (represented.active 2).mp ?_,
    mt (represented.active 1).mpr ?_, ?_⟩
  · rw [walk]
    decide
  · rw [walk]
    decide
  · exact represented.text.trans (by decide +kernel)

end StepChain
end Calculator
