import Calculator.Proofs.Links
import Mathlib.Data.List.Induction
import Mathlib.Data.List.ModifyLast

/-!
# Calculator.Proofs.Segments

The linked steps of a chain as a list of cells, whatever their values are.

A cell is a step apart from its links. `Linked` says that some places hold the cells of a list, each
linked to its neighbours; such segments can be put together (`linked_append`). Splicing a step out
hands its value to the cells at both sides (`lists_splice`), appending one extends the list
(`lists_ofCells`), and walking along the links meets the cells in order (`Lists.walk`).
-/

namespace Calculator

/-- A step apart from its links. -/
structure Cell where
  left : Decimal
  operator : Binding
  right : Decimal

namespace Cell

def precedence (c : Cell) : Nat := c.operator.precedence

def withLeft (v : Decimal) (c : Cell) : Cell := { c with left := v }

def withRight (v : Decimal) (c : Cell) : Cell := { c with right := v }

/-- The cell as a step, given the places of its neighbours. -/
def step (c : Cell) (previous next : Option Nat) : Step :=
  { left := c.left, operation := c.operator.operation, right := c.right
    precedence := c.operator.precedence, symbol := c.operator.symbol
    previous := previous, next := next, active := true }

end Cell

/-- The step apart from its links. -/
def Step.cell (s : Step) : Cell := ⟨s.left, s.binding, s.right⟩

section

variable {α β : Type} {f : α → α} {g : α → β}

/-- What a change leaves alone stays as it is along a list. -/
theorem map_modifyLast_kept (kept : ∀ a, g (f a) = g a) (items : List α) :
    (items.modifyLast f).map g = items.map g := by
  rcases List.eq_nil_or_concat items with rfl | ⟨front, a, rfl⟩
  · rfl
  · rw [List.concat_eq_append, List.modifyLast_concat, List.map_append, List.map_append,
      List.map_singleton, List.map_singleton, kept]

theorem map_modifyHead_kept (kept : ∀ a, g (f a) = g a) (items : List α) :
    (items.modifyHead f).map g = items.map g := by
  cases items with
  | nil => rfl
  | cons a rest => exact congrArg (· :: rest.map g) (kept a)

end

/-- Cells when one between those before and those after it is resolved: its value is handed to both
sides. -/
def handOver (v : Decimal) (before after : List Cell) : List Cell :=
  before.modifyLast (·.withRight v) ++ after.modifyHead (·.withLeft v)

theorem handOver_length (v : Decimal) (before after : List Cell) :
    (handOver v before after).length = before.length + after.length := by
  have operators : (handOver v before after).map Cell.operator =
      before.map Cell.operator ++ after.map Cell.operator := by
    rw [handOver, List.map_append]
    congr 1
    · refine map_modifyLast_kept (fun c => ?_) before
      rfl
    · refine map_modifyHead_kept (fun c => ?_) after
      rfl
  simpa using congrArg List.length operators

/-! ## Segments -/

/-- A cell with its place in a chain. -/
abbrev PlacedCell := Nat × Cell

/-- The place of the first of some cells before a place. -/
def firstPlace : List PlacedCell → Option Nat → Option Nat
  | [], next => next
  | (i, _) :: _, _ => some i

/-- The place of the last of some cells after a place. -/
def lastPlace : Option Nat → List PlacedCell → Option Nat
  | previous, [] => previous
  | _, (i, _) :: rest => lastPlace (some i) rest

/-- The steps at the places of the cells are these cells, linked one to the next, between two
places. -/
def Linked (steps : Array Step) : Option Nat → List PlacedCell → Option Nat → Prop
  | _, [], _ => True
  | previous, (i, c) :: rest, next =>
    steps[i]? = some (c.step previous (firstPlace rest next)) ∧ Linked steps (some i) rest next

section

variable {steps steps' : Array Step} {previous next : Option Nat}
  {before after items : List PlacedCell}

@[simp] theorem firstPlace_nil (next : Option Nat) : firstPlace [] next = next := rfl

@[simp] theorem firstPlace_cons (p : PlacedCell) (items : List PlacedCell) (next : Option Nat) :
    firstPlace (p :: items) next = some p.1 := rfl

theorem firstPlace_append (before after : List PlacedCell) (next : Option Nat) :
    firstPlace (before ++ after) next = firstPlace before (firstPlace after next) := by
  cases before <;> rfl

theorem lastPlace_concat (previous : Option Nat) (items : List PlacedCell) (p : PlacedCell) :
    lastPlace previous (items ++ [p]) = some p.1 := by
  induction items generalizing previous with
  | nil => rfl
  | cons q rest ih => exact ih (some q.1)

theorem linked_append : Linked steps previous (before ++ after) next ↔
    Linked steps previous before (firstPlace after next) ∧
      Linked steps (lastPlace previous before) after next := by
  induction before generalizing previous with
  | nil => exact Iff.of_eq (true_and _).symm
  | cons p rest ih =>
    simp only [List.cons_append, Linked, lastPlace, firstPlace_append, ih, and_assoc]

theorem Linked.congr (h : Linked steps previous items next)
    (same : ∀ p ∈ items, steps'[p.1]? = steps[p.1]?) : Linked steps' previous items next := by
  induction items generalizing previous with
  | nil => trivial
  | cons p rest ih =>
    obtain ⟨here, later⟩ := List.forall_mem_cons.mp same
    exact ⟨here.trans h.1, ih h.2 later⟩

theorem firstPlace_ne {place : Nat} (h : ∀ p ∈ items, p.1 ≠ place) :
    firstPlace items none ≠ some place := by
  cases items with
  | nil => exact nofun
  | cons p rest =>
    rintro ⟨⟩
    exact h p List.mem_cons_self rfl

theorem lastPlace_ne {place : Nat} (h : ∀ p ∈ items, p.1 ≠ place) :
    lastPlace none items ≠ some place := by
  rcases List.eq_nil_or_concat items with rfl | ⟨front, p, rfl⟩
  · exact nofun
  · rw [List.concat_eq_append] at h ⊢
    rw [lastPlace_concat]
    rintro ⟨⟩
    exact h p (List.mem_append_right _ List.mem_cons_self) rfl

end

/-! ## Chains -/

/-- The steps from the head on are the cells, one after another. -/
structure StepChain.Lists (chain : StepChain) (items : List PlacedCell) : Prop where
  linked : Linked chain.steps none items none
  head : chain.head = firstPlace items none
  places : (items.map Prod.fst).Pairwise (· < ·)
  room : items.length ≤ chain.steps.size

/-- Cells with their places when one between those before and those after it is resolved. -/
def handOverPlaced (v : Decimal) (before after : List PlacedCell) : List PlacedCell :=
  before.modifyLast (fun p => (p.1, p.2.withRight v)) ++
    after.modifyHead (fun p => (p.1, p.2.withLeft v))

theorem handOverPlaced_cells (v : Decimal) (before after : List PlacedCell) :
    (handOverPlaced v before after).map Prod.snd =
      handOver v (before.map Prod.snd) (after.map Prod.snd) := by
  rw [handOverPlaced, handOver, List.map_append]
  congr 1
  · rcases List.eq_nil_or_concat before with rfl | ⟨front, p, rfl⟩
    · rfl
    · simp [List.modifyLast_concat]
  · cases after <;> rfl

theorem handOverPlaced_places (v : Decimal) (before after : List PlacedCell) :
    (handOverPlaced v before after).map Prod.fst = before.map Prod.fst ++ after.map Prod.fst := by
  rw [handOverPlaced, List.map_append]
  congr 1
  · refine map_modifyLast_kept (fun p => ?_) before
    rfl
  · refine map_modifyHead_kept (fun p => ?_) after
    rfl

theorem handOverPlaced_ne {before after : List PlacedCell} (v : Decimal)
    (ne : before ++ after ≠ []) : handOverPlaced v before after ≠ [] := by
  intro empty
  have places := handOverPlaced_places v before after
  rw [empty, ← List.map_append] at places
  exact ne (List.map_eq_nil_iff.mp places.symm)

section

variable {chain : StepChain} {before after : List PlacedCell} {i : Nat} {c : Cell}

/-- The step at a place, and how the cells before and after it are linked to it. -/
theorem StepChain.Lists.at_place (h : chain.Lists (before ++ (i, c) :: after)) :
    Linked chain.steps none before (some i) ∧
      chain.steps[i]? = some (c.step (lastPlace none before) (firstPlace after none)) ∧
      Linked chain.steps (some i) after none :=
  linked_append.mp h.linked

/-- Places increase from cell to cell. -/
theorem StepChain.Lists.apart (h : chain.Lists (before ++ (i, c) :: after)) :
    (∀ p ∈ before, p.1 < i) ∧ (∀ q ∈ after, i < q.1) ∧ ∀ p ∈ before, ∀ q ∈ after, p.1 < q.1 := by
  have places := h.places
  simp only [List.map_append, List.map_cons, List.pairwise_append, List.pairwise_cons,
    List.forall_mem_cons, List.forall_mem_map] at places
  obtain ⟨-, ⟨later, -⟩, across⟩ := places
  exact ⟨fun p mem => (across p mem).1, later, fun p mem => (across p mem).2⟩

theorem isNone_linked (ne : before ++ after ≠ []) :
    ((lastPlace none before).isNone && (firstPlace after none).isNone) = false := by
  rcases List.eq_nil_or_concat before with rfl | ⟨front, p, rfl⟩
  · cases after with
    | nil => exact absurd rfl ne
    | cons q rest => rfl
  · rw [List.concat_eq_append, lastPlace_concat]
    rfl

/-- The cell before the one that is spliced out gets its value, and is linked past it. -/
theorem linked_splice_before (v : Decimal) (h : chain.Lists (before ++ (i, c) :: after))
    (ne : before ++ after ≠ []) :
    Linked (chain.splice i v).steps none
      (before.modifyLast fun p => (p.1, p.2.withRight v)) (firstPlace after none) := by
  obtain ⟨linked, here, -⟩ := h.at_place
  obtain ⟨earlier, -, across⟩ := h.apart
  have others := isNone_linked ne
  rcases List.eq_nil_or_concat before with rfl | ⟨front, ⟨j, d⟩, rfl⟩
  · trivial
  · rw [List.concat_eq_append] at linked here earlier across others h ⊢
    rw [lastPlace_concat] at here others
    rw [List.append_assoc] at h
    obtain ⟨front_lt, -, -⟩ := h.apart
    have last : (j, d) ∈ front ++ [(j, d)] := List.mem_append_right _ List.mem_cons_self
    have next_ne {p : PlacedCell} (mem : p ∈ front ++ [(j, d)]) :
        firstPlace after none ≠ some p.1 :=
      firstPlace_ne fun q later => Nat.ne_of_gt (across p mem q later)
    obtain ⟨inFront, atLast, -⟩ := linked_append.mp linked
    rw [List.modifyLast_concat]
    refine linked_append.mpr ⟨inFront.congr fun p mem => ?_, ?_, trivial⟩
    · have mem' : p ∈ front ++ [(j, d)] := List.mem_append_left _ mem
      have apart : (some j : Option Nat) ≠ some p.1 := by
        rintro ⟨⟩
        exact Nat.lt_irrefl _ (front_lt p mem)
      exact splice_get_other v here others (Nat.ne_of_gt (earlier p mem')) apart (next_ne mem')
    · rw [splice_get v here others (Nat.ne_of_gt (earlier _ last)), atLast]
      simp [beside, Cell.step, Cell.withRight, next_ne last]

/-- The cell after the one that is spliced out gets its value, and is linked back past it. -/
theorem linked_splice_after (v : Decimal) (h : chain.Lists (before ++ (i, c) :: after))
    (ne : before ++ after ≠ []) :
    Linked (chain.splice i v).steps (lastPlace none before)
      (after.modifyHead fun p => (p.1, p.2.withLeft v)) none := by
  obtain ⟨-, here, linked⟩ := h.at_place
  obtain ⟨-, later, across⟩ := h.apart
  have others := isNone_linked ne
  cases after with
  | nil => trivial
  | cons q rest =>
    obtain ⟨k, d⟩ := q
    have previous_ne {p : PlacedCell} (mem : p ∈ (k, d) :: rest) :
        lastPlace none before ≠ some p.1 :=
      lastPlace_ne fun q earlier => Nat.ne_of_lt (across q earlier p mem)
    have split : before ++ (i, c) :: (k, d) :: rest = (before ++ [(i, c)]) ++ (k, d) :: rest := by
      simp
    rw [split] at h
    obtain ⟨-, rest_lt, -⟩ := h.apart
    refine ⟨?_, linked.2.congr fun p mem => ?_⟩
    · rw [splice_get v here others (Nat.ne_of_lt (later _ List.mem_cons_self)), linked.1]
      simp [beside, Cell.step, Cell.withLeft, previous_ne List.mem_cons_self]
    · have mem' : p ∈ (k, d) :: rest := List.mem_cons_of_mem _ mem
      have apart : (some k : Option Nat) ≠ some p.1 := by
        rintro ⟨⟩
        exact Nat.lt_irrefl _ (rest_lt p mem)
      exact splice_get_other v here others (Nat.ne_of_lt (later p mem')) (previous_ne mem') apart

theorem firstPlace_modifyHead (f : Cell → Cell) (items : List PlacedCell) (next : Option Nat) :
    firstPlace (items.modifyHead fun p => (p.1, f p.2)) next = firstPlace items next := by
  cases items <;> rfl

theorem lastPlace_modifyLast (f : Cell → Cell) (items : List PlacedCell) (previous : Option Nat) :
    lastPlace previous (items.modifyLast fun p => (p.1, f p.2)) = lastPlace previous items := by
  rcases List.eq_nil_or_concat items with rfl | ⟨front, p, rfl⟩
  · rfl
  · rw [List.concat_eq_append, List.modifyLast_concat, lastPlace_concat, lastPlace_concat]

theorem splice_head (v : Decimal) (h : chain.Lists (before ++ (i, c) :: after))
    (ne : before ++ after ≠ []) :
    (chain.splice i v).head = firstPlace (handOverPlaced v before after) none := by
  obtain ⟨-, here, -⟩ := h.at_place
  obtain ⟨earlier, -, -⟩ := h.apart
  have others := isNone_linked ne
  have head : (chain.splice i v).head =
      if chain.head = some i then firstPlace after none else chain.head := by
    simp [StepChain.splice, here, Cell.step, others]
  rw [head, h.head, handOverPlaced, firstPlace_append, firstPlace_append, firstPlace_modifyHead]
  cases before with
  | nil => exact if_pos rfl
  | cons p rest =>
    have first : (some p.1 : Option Nat) ≠ some i := by
      rintro ⟨⟩
      exact Nat.lt_irrefl _ (earlier p List.mem_cons_self)
    rw [firstPlace_cons, if_neg first]
    rcases List.eq_nil_or_concat rest with rfl | ⟨front, q, rfl⟩
    · rfl
    · rw [List.concat_eq_append, ← List.cons_append, List.modifyLast_concat]
      rfl

/-- Splicing a step out hands its value to the cells at both sides. -/
theorem lists_splice (v : Decimal) (h : chain.Lists (before ++ (i, c) :: after))
    (ne : before ++ after ≠ []) : (chain.splice i v).Lists (handOverPlaced v before after) where
  linked := by
    refine linked_append.mpr ⟨?_, ?_⟩
    · rw [firstPlace_modifyHead]
      exact linked_splice_before v h ne
    · rw [lastPlace_modifyLast]
      exact linked_splice_after v h ne
  head := splice_head v h ne
  places := by
    rw [handOverPlaced_places, ← List.map_append]
    exact h.places.sublist (((List.sublist_cons_self (i, c) after).append_left before).map Prod.fst)
  room := by
    have room := h.room
    have length := congrArg List.length (handOverPlaced_places v before after)
    simp only [List.length_map, List.length_append, List.length_cons] at room length
    rw [splice_size, length]
    omega

/-- A step that is spliced out from others is left behind, inactive. -/
theorem splice_inactive (v : Decimal) (h : chain.Lists (before ++ (i, c) :: after))
    (ne : before ++ after ≠ []) :
    ∃ s, (chain.splice i v).steps[i]? = some s ∧ s.active = false := by
  obtain ⟨-, here, -⟩ := h.at_place
  have others := isNone_linked ne
  have steps : (chain.splice i v).steps =
      (StepChain.handForwards (StepChain.handBackwards chain.steps
        (c.step (lastPlace none before) (firstPlace after none)) v)
        (c.step (lastPlace none before) (firstPlace after none)) v).modify i
        fun s => { s with active := false } := by
    simp [StepChain.splice, here, Cell.step, others]
  rw [steps, Array.getElem?_modify, if_pos rfl, handForwards_get, handBackwards_get, here]
  exact ⟨_, rfl, rfl⟩

theorem splice_sole_eq (v : Decimal) (h : chain.Lists [(i, c)]) :
    chain.splice i v =
      { chain with steps := chain.steps.modify i fun s => { s with right := v } } := by
  have here : chain.steps[i]? = some (c.step none none) := h.linked.1
  simp [StepChain.splice, here, Cell.step]

/-- The last step of all stays where it is, with the value at its right. -/
theorem splice_sole (v : Decimal) (h : chain.Lists [(i, c)]) :
    (chain.splice i v).Lists [(i, c.withRight v)] := by
  have here : chain.steps[i]? = some (c.step none none) := h.linked.1
  rw [splice_sole_eq v h]
  refine ⟨⟨?_, trivial⟩, h.head, h.places, ?_⟩
  · rw [Array.getElem?_modify, if_pos rfl, here]
    rfl
  · rw [Array.size_modify]
    exact h.room

end

/-! ## Walking -/

section

variable {chain : StepChain} {items : List PlacedCell}

theorem walkFrom_linked {previous : Option Nat} {fuel : Nat}
    (h : Linked chain.steps previous items none) (enough : items.length ≤ fuel) :
    chain.walkFrom fuel (firstPlace items none) = items.map Prod.fst := by
  induction items generalizing previous fuel with
  | nil => cases fuel <;> rfl
  | cons p rest ih =>
    cases fuel with
    | zero => cases enough
    | succ fuel =>
      simp only [firstPlace_cons, StepChain.walkFrom, h.1, List.map_cons]
      exact congrArg _ (ih h.2 (Nat.le_of_succ_le_succ enough))

theorem StepChain.Lists.walk (h : chain.Lists items) : chain.walk = items.map Prod.fst := by
  rw [StepChain.walk, h.head, walkFrom_linked h.linked h.room]

theorem linked_steps {steps : Array Step} {previous : Option Nat}
    (h : Linked steps previous items none) :
    ((items.map Prod.fst).filterMap (steps[·]?)).map Step.cell = items.map Prod.snd := by
  induction items generalizing previous with
  | nil => rfl
  | cons p rest ih =>
    rw [List.map_cons, List.filterMap_cons_some h.1, List.map_cons, ih h.2]
    rfl

theorem StepChain.Lists.cells (h : chain.Lists items) :
    chain.activeSteps.map Step.cell = items.map Prod.snd := by
  rw [StepChain.activeSteps, h.walk, linked_steps h.linked]

theorem StepChain.Lists.precedence_le (h : chain.Lists items) :
    ∀ c ∈ items.map Prod.snd, c.precedence ≤ chain.maxPrecedence := by
  rw [← h.cells, List.forall_mem_map]
  exact (le_foldl_max chain.activeSteps 0).2

/-- The text of cells in a row: values and symbols in turn, and the last value. -/
def textOfCells : List Cell → String
  | [] => ""
  | [c] => (c.step none none).text
  | c :: rest => c.left.positionalText ++ (c.step none none).shownSymbol ++ textOfCells rest

theorem foldl_text (steps : List Step) (last : Step) (start : String) :
    (steps ++ [last]).foldl (fun text s => text ++ s.left.positionalText ++ s.shownSymbol) start ++
      last.right.positionalText = start ++ textOfCells ((steps ++ [last]).map Step.cell) := by
  induction steps generalizing start with
  | nil =>
    have text : textOfCells ([last].map Step.cell) =
        last.left.positionalText ++ last.shownSymbol ++ last.right.positionalText := rfl
    rw [List.nil_append, text]
    simp only [List.foldl_cons, List.foldl_nil, String.append_assoc]
  | cons s rest ih =>
    have text : textOfCells ((s :: rest ++ [last]).map Step.cell) =
        s.left.positionalText ++ s.shownSymbol ++ textOfCells ((rest ++ [last]).map Step.cell) := by
      cases rest <;> rfl
    rw [text, List.cons_append, List.foldl_cons, ih]
    simp only [String.append_assoc]

theorem StepChain.Lists.text (h : chain.Lists items) :
    chain.text = textOfCells (items.map Prod.snd) := by
  rw [← h.cells, StepChain.text]
  rcases List.eq_nil_or_concat chain.activeSteps with none | ⟨front, last, some⟩
  · rw [none]
    rfl
  · rw [some, List.concat_eq_append, List.getLast?_concat]
    simpa using foldl_text front last ""

end

/-! ## Appending -/

/-- The chain to which the cells are appended as steps, one after another. -/
def StepChain.ofCells (cells : List Cell) : StepChain :=
  cells.foldl (fun chain c => chain.append (c.step none none)) .empty

/-- Cells with the places that they get when they are appended. -/
def placeCells (cells : List Cell) : List PlacedCell := cells.zipIdx.map Prod.swap

theorem ofCells_concat (cells : List Cell) (c : Cell) :
    StepChain.ofCells (cells ++ [c]) = (StepChain.ofCells cells).append (c.step none none) := by
  rw [StepChain.ofCells, List.foldl_append]
  rfl

theorem ofCells_size (cells : List Cell) : (StepChain.ofCells cells).steps.size = cells.length := by
  induction cells using List.reverseRecOn with
  | nil => rfl
  | append_singleton cells c ih =>
    rw [ofCells_concat, append_size, ih, List.length_append]
    rfl

theorem placeCells_concat (cells : List Cell) (c : Cell) :
    placeCells (cells ++ [c]) = placeCells cells ++ [(cells.length, c)] := by
  simp [placeCells, List.zipIdx_append]

theorem placeCells_cells (cells : List Cell) : (placeCells cells).map Prod.snd = cells := by
  simp [placeCells, Function.comp_def]

theorem placeCells_places (cells : List Cell) :
    (placeCells cells).map Prod.fst = List.range cells.length := by
  rw [List.range_eq_range', ← List.zipIdx_map_snd 0 cells]
  simp [placeCells, Function.comp_def]

/-- A step that is appended is linked after the cells that are there. -/
theorem linked_append_step {chain : StepChain} {items : List PlacedCell} {j : Nat} {d : Cell}
    (c : Cell) (size : chain.steps.size = j + 1) (below : ∀ p ∈ items, p.1 < j)
    (h : Linked chain.steps none (items ++ [(j, d)]) none) :
    Linked (chain.append (c.step none none)).steps none (items ++ [(j, d)] ++ [(j + 1, c)])
      none := by
  have filled : chain.steps.size ≠ 0 := by omega
  have get (place : Nat) := append_get chain (c.step none none) filled place
  rw [size, Nat.add_sub_cancel] at get
  obtain ⟨front, last, -⟩ := linked_append.mp h
  rw [linked_append, linked_append, lastPlace_concat]
  refine ⟨⟨front.congr fun p mem => ?_, ?_, trivial⟩, ?_, trivial⟩
  · have less := below p mem
    rw [get, if_neg (by omega)]
    simp [Nat.ne_of_gt less]
  · rw [get, if_neg (by omega), last]
    simp [Cell.step]
  · rw [get, if_pos rfl]
    rfl

/-- A chain to which steps have been appended lists their cells. -/
theorem ofCells_lists (cells : List Cell) : (StepChain.ofCells cells).Lists (placeCells cells) := by
  have places : ((placeCells cells).map Prod.fst).Pairwise (· < ·) := by
    rw [placeCells_places]
    exact List.pairwise_lt_range
  have room : (placeCells cells).length ≤ (StepChain.ofCells cells).steps.size := by
    have length := congrArg List.length (placeCells_places cells)
    rw [List.length_map, List.length_range] at length
    exact Nat.le_of_eq (length.trans (ofCells_size cells).symm)
  suffices linked : Linked (StepChain.ofCells cells).steps none (placeCells cells) none ∧
      (StepChain.ofCells cells).head = firstPlace (placeCells cells) none from
    ⟨linked.1, linked.2, places, room⟩
  clear places room
  induction cells using List.reverseRecOn with
  | nil => exact ⟨trivial, rfl⟩
  | append_singleton cells c ih =>
    obtain ⟨linked, head⟩ := ih
    rcases List.eq_nil_or_concat cells with rfl | ⟨front, d, rfl⟩
    · exact ⟨⟨rfl, trivial⟩, rfl⟩
    · rw [List.concat_eq_append] at linked head ⊢
      have size := ofCells_size (front ++ [d])
      rw [List.length_append, List.length_singleton] at size
      have below : ∀ p ∈ placeCells front, p.1 < front.length := by
        intro p mem
        have place := List.mem_map_of_mem (f := Prod.fst) mem
        rwa [placeCells_places, List.mem_range] at place
      rw [placeCells_concat] at linked head
      rw [ofCells_concat, placeCells_concat, placeCells_concat, List.length_append,
        List.length_singleton]
      refine ⟨linked_append_step c size below linked, ?_⟩
      rw [append_head _ _ (by omega), head, firstPlace_append (placeCells front ++ _)]
      rw [firstPlace_append, firstPlace_append]
      rfl

end Calculator
