import Calculator.Proofs.ContextNames
import Calculator.Proofs.PlainText
import Calculator.Proofs.RunnerTables

/-!
# Calculator.Proofs.EnvironmentPages

The pages on which the command for environments lists variables and functions.

Mathematical meaning: what is visible, ordered by its labels, is cut into as few pages of nine as
there can be, and always into one at least.

* `pagesOf`: all pages of a list; `pagesOf_flatten`, `pagesOf_full` and `pagesOf_last` say how they
  make it up.
* `listing_catalogue`: each visible variable and each visible function has one label of its own.
* `handle_environment`: what a line with the command for environments leads to.
* `askedPage_numeral`: which page the text of a number asks for.
* `environment_pages`: which pages can be shown, and what stands on them.
-/

namespace Calculator

/-! ## Numbers as text -/

theorem decimalDigit?_ascii {c : Char} (h : isAsciiDigit c = true) :
    decimalDigit? c = some (c.toNat - 48) := by
  have low : c.toNat < 128 := by
    rw [isAsciiDigit_iff] at h
    omega
  rw [decimalDigit?, if_pos low, if_pos h]

theorem digitsNumber_ascii {text : List Char} (h : ∀ c ∈ text, isAsciiDigit c = true) :
    digitsNumber text = Decimal.digitsValue text := by
  have values : text.filterMap decimalDigit? = text.map fun c => c.toNat - 48 := by
    rw [← List.filterMap_eq_map]
    exact List.filterMap_congr fun c mem => decimalDigit?_ascii (h c mem)
  rw [digitsNumber, values, List.foldl_map]
  rfl

/-- The digits of a number are read as that number unless they are too many. -/
theorem readDigits_digits (n : Nat) : readDigits (Decimal.digits n) =
    if n < tenPow longestNumeral then .ok n else .error (.tooLong (Decimal.digits n).length) := by
  have digit := Decimal.digits_digit n
  have free : '_' ∉ Decimal.digits n := fun mem => by cases digit '_' mem
  have placed : Placed (Decimal.digits n) := by
    intro c mem
    rw [decimalDigit?_ascii (digit c mem)]
    rfl
  have short : ∀ k, 0 < k → ((Decimal.digits n).length ≤ k ↔ n < tenPow k) :=
    fun k positive => Nat.length_toDigits_le_iff (by decide) positive
  have short := short longestNumeral (by decide)
  rw [readDigits_placed (Decimal.digits_ne_nil n) free placed, digitsNumber_ascii digit,
    Decimal.digitsValue_digits]
  by_cases fits : n < tenPow longestNumeral
  · rw [if_pos fits, if_neg (Nat.not_lt.mpr (short.mpr fits))]
  · rw [if_neg fits, if_pos (Nat.lt_of_not_le (mt short.mp fits))]

/-- The text of an integer is that of a natural number, after a sign if it is negative. -/
theorem toString_int_toList (n : Int) : (toString n).toList =
    if 0 ≤ n then Decimal.digits n.natAbs else '-' :: Decimal.digits n.natAbs := by
  rw [Int.toString_eq_repr, Int.repr_eq_if]
  by_cases sign : 0 ≤ n
  · have same : n.toNat = n.natAbs := by omega
    rw [if_pos sign, if_pos sign, same, Nat.repr_eq_ofList_toDigits, String.toList_ofList]
    rfl
  · have same : (-n).toNat = n.natAbs := by omega
    rw [if_neg sign, if_neg sign, same, Nat.repr_eq_ofList_toDigits, String.toList_append]
    exact congrArg ('-' :: ·) String.toList_ofList

theorem readInteger_minus {text : List Char} (digits : ∀ c ∈ text, isAnyDigit c = true) :
    readInteger ('-' :: text) = (readDigits text).map fun n => -(n : Int) := by
  have filled : ∀ c ∈ '-' :: text, isNumeralBlank c = false := by
    intro c mem
    rcases List.mem_cons.mp mem with rfl | mem
    · decide
    · exact isNumeralBlank_digit (digits c mem)
  rw [readInteger, numeral_solid filled]
  rfl

theorem isAnyDigit_digits (n : Nat) : ∀ c ∈ Decimal.digits n, isAnyDigit c = true := by
  intro c mem
  rw [isAnyDigit, decimalDigit?_ascii (Decimal.digits_digit n c mem)]
  rfl

/-- The text of an integer is read as that integer unless it has too many digits. -/
theorem readInteger_toString (n : Int) : (readInteger (toString n).toList).toOption =
    if n.natAbs < tenPow longestNumeral then some n else none := by
  have digit := isAnyDigit_digits n.natAbs
  have read := readDigits_digits n.natAbs
  rw [toString_int_toList]
  by_cases sign : 0 ≤ n
  · rw [if_pos sign, readInteger_digits digit, read]
    by_cases fits : n.natAbs < tenPow longestNumeral
    · rw [if_pos fits, if_pos fits]
      exact congrArg some (Int.natAbs_of_nonneg sign)
    · rw [if_neg fits, if_neg fits]
      rfl
  · rw [if_neg sign, readInteger_minus digit, read]
    by_cases fits : n.natAbs < tenPow longestNumeral
    · rw [if_pos fits, if_pos fits]
      exact congrArg some (by omega : -(n.natAbs : Int) = n)
    · rw [if_neg fits, if_neg fits]
      rfl

theorem toString_int_filled (n : Int) : ∀ c ∈ (toString n).toList, isBlank c = false := by
  have digit (c : Char) (mem : c ∈ Decimal.digits n.natAbs) : isBlank c = false :=
    isBlank_of_isAnyDigit (isAnyDigit_digits _ c mem)
  rw [toString_int_toList]
  split
  · exact digit
  · exact List.forall_mem_cons.mpr ⟨by decide, digit⟩

namespace Runner

/-! ## Pages -/

section

variable {α : Type}

/-- All pages of a list. -/
def pagesOf (entries : List α) : List (List α) :=
  (List.range (pageCount entries.length)).map (pageOf · entries)

theorem pagesOf_length (entries : List α) :
    (pagesOf entries).length = pageCount entries.length := by
  rw [pagesOf, List.length_map, List.length_range]

theorem pagesOf_get {entries : List α} {i : Nat} (lt : i < pageCount entries.length) :
    (pagesOf entries)[i]? = some (pageOf i entries) := by
  rw [pagesOf, List.getElem?_map, List.getElem?_range lt]
  rfl

theorem pageCount_pos (count : Nat) : 1 ≤ pageCount count := Nat.le_max_left _ _

/-- There is room for all names. -/
theorem pageCount_room (count : Nat) : count ≤ pageCount count * pageSize := by
  simp only [pageCount, pageSize]
  omega

/-- There is no room for all of them on one page less. -/
theorem pageCount_tight {count : Nat} (some : count ≠ 0) :
    (pageCount count - 1) * pageSize < count := by
  simp only [pageCount, pageSize]
  omega

theorem pageOf_length (page : Nat) (entries : List α) :
    (pageOf page entries).length = min pageSize (entries.length - page * pageSize) := by
  rw [pageOf, List.length_take, List.length_drop]

/-- The first pages, one after another, are the beginning of the list. -/
theorem flatten_pages (entries : List α) (count : Nat) :
    ((List.range count).map (pageOf · entries)).flatten = entries.take (count * pageSize) := by
  induction count with
  | zero => rw [Nat.zero_mul]; rfl
  | succ count ih =>
    rw [List.range_succ, List.map_append, List.map_singleton, List.flatten_concat, ih,
      Nat.succ_mul, List.take_add]
    rfl

theorem pagesOf_flatten (entries : List α) : (pagesOf entries).flatten = entries := by
  rw [pagesOf, flatten_pages, List.take_of_length_le (pageCount_room _)]

/-- The pages are the last one and full ones before it. -/
theorem pagesOf_concat (entries : List α) : pagesOf entries =
    (List.range (pageCount entries.length - 1)).map (pageOf · entries) ++
      [pageOf (pageCount entries.length - 1) entries] := by
  obtain ⟨before, count⟩ := Nat.exists_eq_succ_of_ne_zero
    (Nat.ne_of_gt (pageCount_pos entries.length))
  rw [pagesOf, count, Nat.succ_sub_one, List.range_succ, List.map_append, List.map_singleton]

theorem pagesOf_full {entries page : List α} (mem : page ∈ (pagesOf entries).dropLast) :
    page.length = pageSize := by
  rw [pagesOf_concat, List.dropLast_concat, List.mem_map] at mem
  obtain ⟨i, early, rfl⟩ := mem
  rw [List.mem_range] at early
  have some : entries.length ≠ 0 := by
    intro none
    rw [none] at early
    exact Nat.not_lt_zero i early
  have tight := pageCount_tight some
  have room : (i + 1) * pageSize ≤ (pageCount entries.length - 1) * pageSize :=
    Nat.mul_le_mul_right _ early
  rw [Nat.succ_mul] at room
  rw [pageOf_length]
  omega

theorem pagesOf_last {entries page : List α} (last : (pagesOf entries).getLast? = some page) :
    page.length ≤ pageSize ∧ (page = [] → entries = []) := by
  rw [pagesOf_concat, List.getLast?_concat] at last
  obtain rfl := Option.some.inj last
  have length := pageOf_length (pageCount entries.length - 1) entries
  refine ⟨by omega, fun empty => ?_⟩
  by_contra filled
  have tight := pageCount_tight (mt List.length_eq_zero_iff.mp filled)
  rw [empty, List.length_nil] at length
  simp only [pageSize] at length tight
  omega

end

/-! ## What is listed -/

/-- What has a label: a variable that of its name, and a function that of its name and empty
brackets. The mark tells what users have defined from what is native. -/
inductive Listed (r : Runner) : String → Bool → Prop
  | variable {name : String} {v : Variable} :
      r.lookup .vars name = some v → Listed r name v.isFixed
  | function {name : String} {f : Function} :
      r.lookup .functions name = some f → Listed r (name ++ "()") f.isUser

/-- The entries list what is visible, in the order of labels, and no two of them have one label.
Neither have a variable and a function, so that nothing shares its entry. -/
structure Catalogue (r : Runner) (entries : List (String × Bool)) : Prop where
  increasing : (entries.map Prod.fst).Pairwise (· < ·)
  listed : ∀ label user, (label, user) ∈ entries ↔ Listed r label user
  apart : ∀ name other v f, r.lookup .vars name = some v → r.lookup .functions other = some f →
    name ≠ other ++ "()"

section

variable {r : Runner}

/-- Names of variables hold no brackets, and the labels of functions do. -/
theorem label_apart (built : r.family.Built) {name other : String} {v : Variable}
    (found : r.lookup .vars name = some v) : name ≠ other ++ "()" := by
  rintro rfl
  have valid := Family.lookup_admissible (Family.built_wellFormed built) found
  obtain ⟨first, rest, -, -, -, symbols⟩ := nameProblem?_eq_none valid
  have bracket : '(' ∈ (other ++ "()").toList := by simp
  rcases symbols '(' bracket with symbol | ⟨allowed, -⟩
  · cases symbol
  · cases allowed

theorem names_visible (built : r.family.Built) {kind : Kind} {name : String} :
    name ∈ r.family.names r.environment kind ↔ ∃ value, r.lookup kind name = some value := by
  rw [Family.mem_names (Family.built_distinct built), Option.isSome_iff_exists]
  rfl

theorem mem_listing (built : r.family.Built) (label : String) (user : Bool) :
    (label, user) ∈ r.listing ↔ Listed r label user := by
  rw [listing, List.mem_mergeSort, List.mem_append, List.mem_map, List.mem_map]
  constructor
  · rintro (⟨name, visible, same⟩ | ⟨name, visible, same⟩)
    · obtain ⟨v, found⟩ := (names_visible built).mp visible
      rw [found] at same
      cases same
      exact .variable found
    · obtain ⟨f, found⟩ := (names_visible built).mp visible
      rw [found] at same
      cases same
      exact .function found
  · rintro (⟨found⟩ | ⟨found⟩)
    · exact .inl ⟨_, (names_visible built).mpr ⟨_, found⟩, by rw [found]; rfl⟩
    · exact .inr ⟨_, (names_visible built).mpr ⟨_, found⟩, by rw [found]; rfl⟩

/-- The labels are those of variables and those of functions, each once. -/
theorem labels_nodup (built : r.family.Built) : (r.listing.map Prod.fst).Nodup := by
  have sorted := (List.mergeSort_perm ((r.family.names r.environment .vars).map (fun name =>
      (name, ((r.lookup .vars name).map Variable.isFixed).getD false)) ++
    (r.family.names r.environment .functions).map (fun name =>
      (name ++ "()", ((r.lookup .functions name).map Function.isUser).getD false)))
    (fun a b => decide (a.1 ≤ b.1))).map Prod.fst
  refine (List.Perm.nodup_iff sorted).mpr ?_
  rw [List.map_append, List.map_map, List.map_map, List.nodup_append]
  refine ⟨?_, ?_, ?_⟩
  · exact (Family.names_nodup _ _ _).map fun _ _ same => same
  · refine (Family.names_nodup _ _ _).map fun _ _ same => ?_
    exact String.append_left_inj _ |>.mp same
  · intro label inVars _ inFunctions rfl
    obtain ⟨name, visible, rfl⟩ := List.mem_map.mp inVars
    obtain ⟨other, -, same⟩ := List.mem_map.mp inFunctions
    obtain ⟨v, found⟩ := (names_visible built).mp visible
    exact label_apart built found same.symm

/-- There is an entry for each variable and one for each function. -/
theorem listing_length (r : Runner) : r.listing.length =
    (r.family.names r.environment .vars).length +
      (r.family.names r.environment .functions).length := by
  rw [listing, List.length_mergeSort, List.length_append, List.length_map, List.length_map]

/-- Sorting brings labels into their order. -/
theorem labels_sorted (entries : List (String × Bool)) :
    ((entries.mergeSort fun a b => decide (a.1 ≤ b.1)).map Prod.fst).Pairwise (· ≤ ·) := by
  have transitive (a b c : String × Bool) (first : decide (a.1 ≤ b.1) = true)
      (second : decide (b.1 ≤ c.1) = true) : decide (a.1 ≤ c.1) = true :=
    decide_eq_true (String.le_trans (of_decide_eq_true first) (of_decide_eq_true second))
  have total (a b : String × Bool) : (decide (a.1 ≤ b.1) || decide (b.1 ≤ a.1)) = true := by
    rw [Bool.or_eq_true, decide_eq_true_iff, decide_eq_true_iff]
    exact String.le_total a.1 b.1
  exact List.pairwise_map.mpr
    ((List.pairwise_mergeSort transitive total entries).imp of_decide_eq_true)

theorem listing_catalogue (built : r.family.Built) : r.Catalogue r.listing where
  increasing := ((labels_sorted _).and (labels_nodup built)).imp fun h =>
    Std.lt_of_le_of_ne h.1 h.2
  listed := mem_listing built
  apart _ _ _ _ found _ := label_apart built found

/-! ## The command for environments -/

/-- An entry as a line. -/
def entryLine (entry : String × Bool) : String :=
  padded 70 entry.1 ++ " " ++ if entry.2 then "user" else "native"

/-- What the command for environments leads to when it is asked for a page, if it is: it shows the
page of that number, or fails because there is none. -/
inductive PageOutcome (r : Runner) (pages : List (List (String × Bool))) :
    Option Int → Runner × LineResult → Prop
  | shown {page : Int} {entries : List (String × Bool)} (positive : 1 ≤ page)
      (there : pages[page.toNat - 1]? = some entries) :
      PageOutcome r pages (some page) (r, ⟨none,
        ("Environment (" ++ toString page ++ " of " ++ toString pages.length ++ ")") ::
          entries.map entryLine, none, r.session.report⟩)
  | refused {asked : Option Int} {report : List String}
      (outside : ∀ page, asked = some page → ¬ (1 ≤ page ∧ page ≤ pages.length)) :
      PageOutcome r pages asked (r, ⟨none, [], some (.command .page), report⟩)

theorem PageOutcome.fine_iff {pages : List (List (String × Bool))} {page : Int}
    {outcome : Runner × LineResult} (h : PageOutcome r pages (some page) outcome) :
    outcome.2.failure = none ↔ 1 ≤ page ∧ page ≤ pages.length := by
  cases h with
  | shown positive there =>
    obtain ⟨lt, -⟩ := List.getElem?_eq_some_iff.mp there
    exact ⟨fun _ => ⟨positive, by omega⟩, fun _ => rfl⟩
  | refused outside => exact ⟨nofun, fun inside => absurd inside (outside page rfl)⟩

theorem listPage_run (text : String) (r : Runner) : listPage text r =
    match askedPage text with
    | none => .error (.command .page) r
    | some page =>
      if page < 1 ∨ (pageCount r.listing.length : Int) < page then .error (.command .page) r
      else .ok (("Environment (" ++ toString page ++ " of " ++
          toString (pageCount r.listing.length) ++ ")") ::
        (pageOf (page.toNat - 1) r.listing).map entryLine) r := by
  simp only [listPage, bind_apply, get_apply]
  cases askedPage text with
  | none => rfl
  | some page =>
    dsimp only
    split
    · rfl
    · rfl

theorem handle_environment (setting : Setting) (text : String) (r : Runner) : ∃ outcome,
    handle setting (some (":env " ++ text)) r = .done outcome ∧
      PageOutcome r.cleared (pagesOf r.listing) (askedPage (trimString text)) outcome := by
  have line : handle setting (some (":env " ++ text)) r =
      command setting (trimString text) r.cleared .environment :=
    @handle_word "env" .environment setting text r rfl (by decide) (by decide)
  rw [line]
  have same : r.listing = r.cleared.listing := rfl
  rw [same]
  generalize trimString text = text
  generalize r.cleared = r
  refine ⟨_, command_step (c := .environment) rfl r, ?_⟩
  rw [printing, bind_apply, listPage_run]
  cases asked : askedPage text with
  | none => exact .refused fun page none => by cases none
  | some page =>
    by_cases outside : page < 1 ∨ (pageCount r.listing.length : Int) < page
    · dsimp only
      rw [if_pos outside]
      refine .refused fun other same inside => ?_
      cases same
      rw [pagesOf_length] at inside
      omega
    · dsimp only
      rw [if_neg outside]
      have there := @pagesOf_get _ r.listing (page.toNat - 1) (by omega)
      have shown := @PageOutcome.shown r (pagesOf r.listing) page _ (by omega) there
      rw [pagesOf_length] at shown
      exact shown

end

/-! ## The pages that can be shown -/

/-- The text of a number asks for the page of that number. -/
theorem askedPage_numeral (n : Int) : askedPage (trimString (toString n)) =
    if n.natAbs < tenPow longestNumeral then some n else none := by
  have bare : trimString (toString n) = toString n := by
    rw [trimString, trim_of_edged (edged_of_filled (toString_int_filled n)), String.ofList_toList]
  have filled : (toString n).isEmpty = false := by
    rw [String.isEmpty_eq_false_iff]
    intro none
    have text := toString_int_toList n
    rw [none] at text
    split at text
    · exact Decimal.digits_ne_nil _ text.symm
    · cases text
  rw [bare, askedPage, filled]
  exact readInteger_toString n

section

variable {r : Runner}

/-- Nothing is shown if no page is asked for, as if a page were asked for that is not there. -/
theorem PageOutcome.of_none {pages : List (List (String × Bool))} {page : Int}
    {outcome : Runner × LineResult} (h : PageOutcome r pages none outcome)
    (outside : ¬ (1 ≤ page ∧ page ≤ pages.length)) : PageOutcome r pages (some page) outcome := by
  cases h with
  | refused => exact .refused fun other same => Option.some.inj same ▸ outside

/-- A number that is too long to be read is that of no page if the numbers of pages are shorter. -/
theorem outside_of_long {page : Int} {count : Nat}
    (bound : page.natAbs < tenPow longestNumeral ∨ count < tenPow longestNumeral)
    (long : ¬ page.natAbs < tenPow longestNumeral) : ¬ (1 ≤ page ∧ page ≤ count) := by
  have few := bound.resolve_left long
  rintro ⟨positive, small⟩
  omega

/-- The pages of what is visible. -/
def pages (r : Runner) : List (List (String × Bool)) := pagesOf r.listing

/-- The pages that the command for environments shows list what is visible, nine entries on each but
the last. Each is shown if it is asked for by its number, and a number that no page has is refused.
A numeral of too many digits is not read as a number, which could only matter for that many
pages. -/
theorem environment_pages (setting : Setting) (built : r.family.Built) :
    r.pages ≠ [] ∧
    (∀ page ∈ r.pages.dropLast, page.length = 9) ∧
    (∀ page, r.pages.getLast? = some page →
      page.length ≤ 9 ∧ (page = [] → r.pages.flatten = [])) ∧
    r.Catalogue r.pages.flatten ∧
    (∀ text, ∃ outcome, handle setting (some (":env " ++ text)) r = .done outcome ∧
      PageOutcome r.cleared r.pages (askedPage (trimString text)) outcome) ∧
    ∀ page : Int, page.natAbs < tenPow longestNumeral ∨ r.pages.length < tenPow longestNumeral →
      ∃ outcome, handle setting (some (":env " ++ toString page)) r = .done outcome ∧
        PageOutcome r.cleared r.pages (some page) outcome ∧
        (outcome.2.failure = none ↔ 1 ≤ page ∧ page ≤ r.pages.length) := by
  have whole : r.pages.flatten = r.listing := pagesOf_flatten r.listing
  have shown (text : String) := handle_environment setting text r
  refine ⟨?_, fun _ => pagesOf_full, fun _ last => ?_, ?_, shown, fun page bound => ?_⟩
  · have positive := pageCount_pos r.listing.length
    rw [← pagesOf_length] at positive
    exact List.ne_nil_of_length_pos positive
  · rw [whole]
    exact pagesOf_last last
  · rw [whole]
    exact listing_catalogue built
  · obtain ⟨outcome, handled, result⟩ := shown (toString page)
    have numbered : PageOutcome r.cleared r.pages (some page) outcome := by
      rw [askedPage_numeral] at result
      by_cases short : page.natAbs < tenPow longestNumeral
      · rw [if_pos short] at result
        exact result
      · rw [if_neg short] at result
        exact result.of_none (outside_of_long bound short)
    exact ⟨outcome, handled, numbered, numbered.fine_iff⟩

/-- The first runner has two pages: the second is shown, and a third is not. -/
theorem environment_pages_standard : (usual ["home"] 0).family.Built ∧
    (2 : Int).natAbs < tenPow longestNumeral ∧ (3 : Int).natAbs < tenPow longestNumeral ∧
    (usual ["home"] 0).pages.length = 2 ∧
    (∃ outcome, handle ⟨0, false⟩ (some (":env " ++ toString (2 : Int))) (usual ["home"] 0) =
      .done outcome ∧ outcome.2.failure = none) ∧
    ∃ outcome, handle ⟨0, false⟩ (some (":env " ++ toString (3 : Int))) (usual ["home"] 0) =
      .done outcome ∧ outcome.2.failure ≠ none := by
  have built : (usual ["home"] 0).family.Built := by
    have standard := Family.built_addStandard .empty
    rw [addStandard_eq] at standard
    exact @Family.Built.setOptions _ 0 (fun _ => optionsOf {} (.ofDigits 34)) standard
  have short : (2 : Int).natAbs < tenPow longestNumeral ∧
      (3 : Int).natAbs < tenPow longestNumeral := by decide +kernel
  have count : (usual ["home"] 0).pages.length = 2 := by
    rw [pages, pagesOf_length, listing_length]
    decide +kernel
  obtain ⟨-, -, -, -, -, numbers⟩ := environment_pages ⟨0, false⟩ built
  obtain ⟨second, handled, -, fine⟩ := numbers 2 (.inl short.1)
  obtain ⟨third, handled', -, fine'⟩ := numbers 3 (.inl short.2)
  rw [count] at fine fine'
  exact ⟨built, short.1, short.2, count, ⟨second, handled, fine.mpr (by decide)⟩,
    third, handled', mt fine'.mp (by decide)⟩

end

end Runner

end Calculator
