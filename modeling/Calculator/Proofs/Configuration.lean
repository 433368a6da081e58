import Calculator.Console
import Calculator.Proofs.ContextNames
import Calculator.Proofs.RunnerTables
import Mathlib.Algebra.Order.Ring.Rat
import Mathlib.Data.Prod.Lex
import Mathlib.Data.String.Basic

/-!
# Calculator.Proofs.Configuration

Where the values of settings come from: the process environment before the file, the file before the
usual values. The decimal context has two names in a file, of which the precision comes before the
name; the process environment comes before both.

A complaint is a `SettingsProblem`; anything else that keeps settings from being loaded is a fault.
Apart from those of the reader of YAML texts, which may be any, the only one is that of a context
whose name is a numeral `Beyond` all precisions.

* `loadWith_run`: loading settings reads one mapping and combines it with the process environment.
* `ofValues_ok`, `ofValues_valid`: settings say what each check has let through.
* `first_congr`: which unknown key is reported depends on the set of the keys only.
* `combine_precedence`: settings by their sources, and mappings that the process environment
  overrides.
* `combine_loads`: what loading settings without a file leads to.
* `context_name_outcomes`: what each name of a context leads to, wherever it is given.
-/

namespace Calculator

section Except

variable {ε α β : Type}

theorem except_bind_eq_ok {x : Except ε α} {f : α → Except ε β} {b : β} :
    (x >>= f) = .ok b ↔ ∃ a, x = .ok a ∧ f a = .ok b := by
  cases x with
  | ok a => exact ⟨fun h => ⟨a, rfl, h⟩, by rintro ⟨_, ⟨⟩, h⟩; exact h⟩
  | error e => exact ⟨nofun, by rintro ⟨_, ⟨⟩, _⟩⟩

theorem except_bind_eq_error {x : Except ε α} {f : α → Except ε β} {e : ε} :
    (x >>= f) = .error e ↔ x = .error e ∨ ∃ a, x = .ok a ∧ f a = .error e := by
  cases x with
  | ok a => exact ⟨fun h => .inr ⟨a, rfl, h⟩, by rintro (⟨⟨⟩⟩ | ⟨_, ⟨⟩, h⟩); exact h⟩
  | error e' => exact ⟨by rintro ⟨⟩; exact .inl rfl, by rintro (⟨⟨⟩⟩ | ⟨_, ⟨⟩, _⟩); rfl⟩

end Except

theorem Interaction.run_bind {α β : Type} (i : Interaction α) (f : α → Interaction β) :
    ∀ tree : FileTree, (i >>= f).run tree = (f (i.run tree).2).run (i.run tree).1 := by
  induction i with
  | done a => exact fun _ => rfl
  | read path resume ih => exact fun tree => ih (tree.read path) tree
  | write path content resume ih =>
    exact fun tree => ih (tree.write path content).2 (tree.write path content).1

namespace Settings

/-! ## The mapping in the file -/

/-- The settings file that is found in a tree. -/
def found (tree : FileTree) : Option String :=
  fileNames.find? fun name => tree.read name ≠ .error .missing ∧ tree.read name ≠ .error .directory

/-- The mapping in a settings file of a tree; without a file it is empty. -/
def mappingAt (yaml : YamlReader) (tree : FileTree) :
    Option String → Except SettingsFailure (List (Datum × Datum))
  | none => .ok []
  | some path =>
    match tree.read path with
    | .error _ => wrong (.unreadable path)
    | .ok content => parseFile yaml path content

/-- The file that settings are loaded from: the one at a path, unless the path is empty, or the one
that is found. -/
def fileOf (tree : FileTree) (path : Option String) : Option String :=
  path.elim (found tree) fun path => if path.isEmpty then none else some path

theorem readFile_run (tree : FileTree) (path : String) :
    (Interaction.readFile path).run tree = (tree, tree.read path) := rfl

theorem findAmong_run (tree : FileTree) (names : List String) : (findAmong names).run tree =
    (tree, names.find? fun name =>
      tree.read name ≠ .error .missing ∧ tree.read name ≠ .error .directory) := by
  induction names with
  | nil => rfl
  | cons name rest ih =>
    rw [findAmong, Interaction.run_bind, readFile_run]
    cases answer : tree.read name with
    | ok content => simp [answer]; rfl
    | error problem =>
      cases problem with
      | missing => simpa [answer] using ih
      | directory => simpa [answer] using ih
      | unreadable => simp [answer]; rfl

section

variable (yaml : YamlReader) (tree : FileTree) (environ : List (String × String))

/-- Loads the settings from a file, or from none. -/
def loadFrom (file : Option String) : Interaction (Except SettingsFailure Settings) := do
  let entries ← match file with
    | none => pure (.ok [])
    | some path => readFile yaml path
  match entries with
  | .error failure => return .error failure
  | .ok entries => return combine entries environ

theorem loadWith_eq (path : Option String) :
    loadWith yaml path environ = path.elim find
      (fun path => pure (if path.isEmpty then none else some path)) >>= loadFrom yaml environ := by
  cases path with
  | none => rfl
  | some path => rfl

theorem loadFrom_run (file : Option String) : (loadFrom yaml environ file).run tree =
    (tree, do combine (← mappingAt yaml tree file) environ) := by
  cases file with
  | none => rfl
  | some path =>
    have read : (readFile yaml path).run tree = (tree, mappingAt yaml tree (some path)) := by
      rw [readFile, Interaction.run_bind, readFile_run, mappingAt]
      cases tree.read path with
      | error problem => rfl
      | ok content => rfl
    rw [loadFrom, Interaction.run_bind, read]
    cases mappingAt yaml tree (some path) with
    | error failure => rfl
    | ok entries => rfl

/-- Loading settings reads one mapping and combines it with the process environment. -/
theorem loadWith_run (path : Option String) : (loadWith yaml path environ).run tree =
    (tree, do combine (← mappingAt yaml tree (fileOf tree path)) environ) := by
  rw [loadWith_eq, Interaction.run_bind, fileOf]
  cases path with
  | none =>
    rw [Option.elim_none, find, findAmong_run]
    exact loadFrom_run yaml tree environ _
  | some path => exact loadFrom_run yaml tree environ _

end

/-! ## Checks -/

/-- Values that set nothing. -/
def IsUnset (value : Option Datum) : Prop := value = none ∨ value = some .null

theorem checkContext_ok {value : Option Datum} {context : Option String}
    (h : checkContext value = .ok context) : (IsUnset value ∧ context = none) ∨
      ∃ d ctx, value = some d ∧ d ≠ .null ∧ context = some d.shown ∧
        Context.ofName d.shown = .ok ctx := by
  revert h
  fun_cases checkContext value with
  | case1 => rintro ⟨⟩; exact .inl ⟨.inl rfl, rfl⟩
  | case2 => rintro ⟨⟩; exact .inl ⟨.inr rfl, rfl⟩
  | case3 d filled ctx named => rintro ⟨⟩; exact .inr ⟨d, ctx, rfl, filled, rfl, named⟩
  | case4 => exact nofun
  | case5 => exact nofun

theorem checkPrecision_ok {value : Option Datum} {precision : Option Int}
    (h : checkPrecision value = .ok precision) : (IsUnset value ∧ precision = none) ∨
      ∃ n, value = some (.int n) ∧ 1 ≤ n ∧ precision = some n := by
  revert h
  fun_cases checkPrecision value with
  | case1 => rintro ⟨⟩; exact .inl ⟨.inl rfl, rfl⟩
  | case2 => rintro ⟨⟩; exact .inl ⟨.inr rfl, rfl⟩
  | case3 => exact nofun
  | case4 n positive => rintro ⟨⟩; exact .inr ⟨n, rfl, by omega, rfl⟩
  | case5 => exact nofun

theorem checkDepth_ok {value : Option Datum} {depth : Int} (h : checkDepth value = .ok depth) :
    (value = none ∧ depth = 100) ∨ value = some (.int depth) ∧ 1 ≤ depth := by
  revert h
  fun_cases checkDepth value with
  | case1 => rintro ⟨⟩; exact .inl ⟨rfl, rfl⟩
  | case2 => exact nofun
  | case3 n positive => rintro ⟨⟩; exact .inr ⟨rfl, by omega⟩
  | case4 => exact nofun

theorem checkFormat_ok {value : Option Datum} {format : String}
    (h : checkFormat value = .ok format) : (NumberFormat.ofName? format).isSome = true ∧
      ((value = none ∧ format = "plain") ∨ value = some (.text format)) := by
  revert h
  fun_cases checkFormat value with
  | case1 => rintro ⟨⟩; exact ⟨rfl, .inl ⟨rfl, rfl⟩⟩
  | case2 name known => rintro ⟨⟩; exact ⟨known, .inr rfl⟩
  | case3 => exact nofun
  | case4 => exact nofun

theorem checkStateFile_ok {value : Option Datum} {name : String}
    (h : checkStateFile value = .ok name) : ¬ Blank name.toList := by
  revert h
  fun_cases checkStateFile value with
  | case1 => rintro ⟨⟩; rw [← all_isBlank]; decide
  | case2 => exact nofun
  | case3 name filled => rintro ⟨⟩; rwa [← all_isBlank]
  | case4 => exact nofun

/-- What settings say is what each check has let through. -/
theorem ofValues_ok {value : String → Option Datum} {settings : Settings}
    (h : ofValues value = .ok settings) :
    checkContext (value "context") = .ok settings.context ∧
      checkPrecision (value "precision") = .ok settings.precision ∧
      checkDepth (value "max_depth") = .ok settings.maxDepth ∧
      checkFormat (value "format") = .ok settings.format ∧
      checkStateFile (value "state_file") = .ok settings.stateFile := by
  obtain ⟨context, hContext, h⟩ := except_bind_eq_ok.mp h
  obtain ⟨precision, hPrecision, h⟩ := except_bind_eq_ok.mp h
  obtain ⟨bracketMultiply, -, h⟩ := except_bind_eq_ok.mp h
  obtain ⟨variableMultiply, -, h⟩ := except_bind_eq_ok.mp h
  obtain ⟨depth, hDepth, h⟩ := except_bind_eq_ok.mp h
  obtain ⟨format, hFormat, h⟩ := except_bind_eq_ok.mp h
  obtain ⟨stateFile, hStateFile, h⟩ := except_bind_eq_ok.mp h
  cases h
  exact ⟨hContext, hPrecision, hDepth, hFormat, hStateFile⟩

/-- Settings that have passed every check. -/
structure Valid (settings : Settings) : Prop where
  context : ∀ name ∈ settings.context, ∃ ctx, Context.ofName name = .ok ctx
  precision : ∀ n ∈ settings.precision, 1 ≤ n
  maxDepth : 1 ≤ settings.maxDepth
  format : (NumberFormat.ofName? settings.format).isSome = true
  stateFile : ¬ Blank settings.stateFile.toList

theorem ofValues_valid {value : String → Option Datum} {settings : Settings}
    (h : ofValues value = .ok settings) : settings.Valid := by
  obtain ⟨context, precision, depth, format, stateFile⟩ := ofValues_ok h
  constructor
  · rintro name set
    obtain ⟨-, none⟩ | ⟨d, ctx, -, -, some, named⟩ := checkContext_ok context
    · rw [none] at set
      cases set
    · rw [some] at set
      cases set
      exact ⟨ctx, named⟩
  · rintro n set
    obtain ⟨-, none⟩ | ⟨m, -, positive, some⟩ := checkPrecision_ok precision
    · rw [none] at set
      cases set
    · rw [some] at set
      cases set
      exact positive
  · obtain ⟨-, usual⟩ | ⟨-, positive⟩ := checkDepth_ok depth
    · rw [usual]
      decide
    · exact positive
  · exact (checkFormat_ok format).1
  · exact checkStateFile_ok stateFile

/-! ## Unknown keys -/

/-- Everything that decides about the place of a key. -/
def keyRank (key : Datum) : ℕ ×ₗ ℚ ×ₗ String :=
  toLex ((keyPlace key).1, toLex ((keyPlace key).2, key.shown))

theorem keyOrder_iff {a b : Datum} : keyOrder a b = true ↔ keyRank a ≤ keyRank b := by
  rw [keyRank, keyRank, Prod.Lex.toLex_le_toLex, Prod.Lex.toLex_le_toLex]
  exact decide_eq_true_iff

/-- A key that comes first stands before all of them. -/
theorem first_least {keys : List Datum} {a : Datum} (h : a ∈ (keys.mergeSort keyOrder).head?) :
    a ∈ keys ∧ ∀ b ∈ keys, keyRank a ≤ keyRank b := by
  have sorted : (keys.mergeSort keyOrder).Pairwise fun a b => keyOrder a b = true :=
    List.pairwise_mergeSort
      (fun a b c => by rw [keyOrder_iff, keyOrder_iff, keyOrder_iff]; exact le_trans)
      (fun a b => by rw [Bool.or_eq_true, keyOrder_iff, keyOrder_iff]; exact le_total _ _) keys
  have members (b : Datum) : b ∈ keys.mergeSort keyOrder ↔ b ∈ keys := List.mem_mergeSort
  obtain ⟨rest, split⟩ := List.head?_eq_some_iff.mp h
  rw [split] at sorted members
  refine ⟨(members a).mp List.mem_cons_self, fun b mem => ?_⟩
  rcases List.mem_cons.mp ((members b).mpr mem) with rfl | later
  · exact le_refl _
  · exact keyOrder_iff.mp ((List.pairwise_cons.mp sorted).1 b later)

/-- Which key comes first, as it is shown, depends on the set of the keys only. -/
theorem first_congr {keys keys' : List Datum} (same : ∀ key, key ∈ keys ↔ key ∈ keys') :
    (keys.mergeSort keyOrder).head?.map Datum.shown =
      (keys'.mergeSort keyOrder).head?.map Datum.shown := by
  have none {keys : List Datum} (h : (keys.mergeSort keyOrder).head? = none) (b : Datum) :
      b ∉ keys := by
    have members : b ∈ keys.mergeSort keyOrder ↔ b ∈ keys := List.mem_mergeSort
    rw [← members, List.head?_eq_none_iff.mp h]
    exact List.not_mem_nil
  cases first : (keys.mergeSort keyOrder).head? with
  | none =>
    cases first' : (keys'.mergeSort keyOrder).head? with
    | none => rfl
    | some b => exact absurd ((same b).mpr (first_least first').1) (none first b)
  | some a =>
    obtain ⟨mem, least⟩ := first_least first
    cases first' : (keys'.mergeSort keyOrder).head? with
    | none => exact absurd ((same a).mp mem) (none first' a)
    | some b =>
      obtain ⟨mem', least'⟩ := first_least first'
      have ranks : keyRank a = keyRank b :=
        le_antisymm (least b ((same b).mpr mem')) (least' a ((same a).mp mem))
      exact congrArg (fun rank => some (ofLex (ofLex rank).2).2) ranks

/-! ## Sources of values -/

/-- Whether a key names a setting. -/
def IsKnown (key : Datum) : Prop := ∃ name ∈ names, key = .text name

/-- The settings for which the process environment has a variable; two of them stand for the decimal
context. -/
def overridable : List String := ["max_depth", "format", "context", "precision"]

/-- Mappings that differ in the values of some settings only. -/
structure DifferIn (chosen : List String) (entries entries' : List (Datum × Datum)) : Prop where
  values : ∀ name, name ∉ chosen → fileValue entries name = fileValue entries' name
  unknown : ∀ key, ¬ IsKnown key → (key ∈ entries.map (·.1) ↔ key ∈ entries'.map (·.1))

theorem DifferIn.unknown?_eq {chosen : List String} {entries entries' : List (Datum × Datum)}
    (h : DifferIn chosen entries entries') : unknown? entries = unknown? entries' := by
  refine first_congr fun key => ?_
  rw [List.mem_filter, List.mem_filter]
  refine and_congr_left fun isUnknown => h.unknown key ?_
  rintro ⟨name, known, rfl⟩
  have listed : names.contains name = true := List.contains_iff_mem.mpr known
  dsimp only at isUnknown
  rw [listed] at isUnknown
  cases isUnknown

/-- The values that are checked. -/
def valueFrom (entries : List (Datum × Datum)) (environ : List (String × String))
    (depth : Option Datum) (name : String) : Option Datum :=
  let context := (variableOf environ "EXPCALC_CONTEXT").map Datum.text
  let format := (variableOf environ "EXPCALC_FORMAT").map fun value =>
    Datum.text (lowerString (trimString value))
  match name with
  | "max_depth" => depth.or (fileValue entries name)
  | "context" => context.or (fileValue entries name)
  | "precision" => if context.isSome then none else fileValue entries name
  | "format" => format.or (fileValue entries name)
  | name => fileValue entries name

theorem combine_eq (entries : List (Datum × Datum)) (environ : List (String × String)) :
    combine entries environ = match unknown? entries with
      | some name => wrong (.unknown name)
      | none => depthOverride environ >>= fun depth => ofValues (valueFrom entries environ depth) :=
  rfl

theorem combine_ok {entries : List (Datum × Datum)} {environ : List (String × String)}
    {settings : Settings} (h : combine entries environ = .ok settings) :
    ∃ depth, depthOverride environ = .ok depth ∧
      ofValues (valueFrom entries environ depth) = .ok settings := by
  rw [combine_eq] at h
  split at h
  · cases h
  · exact except_bind_eq_ok.mp h

theorem depthOverride_ok {environ : List (String × String)} {depth : Option Datum}
    (h : depthOverride environ = .ok depth) :
    (variableOf environ "EXPCALC_MAX_DEPTH" = none ∧ depth = none) ∨
      ∃ text n, variableOf environ "EXPCALC_MAX_DEPTH" = some text ∧
        readInteger text.toList = .ok n ∧ depth = some (.int n) := by
  revert h
  fun_cases depthOverride environ with
  | case1 unset => rintro ⟨⟩; exact .inl ⟨unset, rfl⟩
  | case2 text set n read => rintro ⟨⟩; exact .inr ⟨text, n, set, read, rfl⟩
  | case3 => exact nofun

/-- Where the nesting depth comes from. -/
inductive DepthFrom (entries : List (Datum × Datum)) (environ : List (String × String)) : Int → Prop
  | variable {text : String} {n : Int} (set : variableOf environ "EXPCALC_MAX_DEPTH" = some text)
      (read : readInteger text.toList = .ok n) : DepthFrom entries environ n
  | file {n : Int} (unset : variableOf environ "EXPCALC_MAX_DEPTH" = none)
      (value : fileValue entries "max_depth" = some (.int n)) : DepthFrom entries environ n
  | usual (unset : variableOf environ "EXPCALC_MAX_DEPTH" = none)
      (absent : fileValue entries "max_depth" = none) : DepthFrom entries environ 100

/-- Where the number format comes from. -/
inductive FormatFrom (entries : List (Datum × Datum)) (environ : List (String × String)) :
    String → Prop
  | variable {text : String} (set : variableOf environ "EXPCALC_FORMAT" = some text) :
      FormatFrom entries environ (lowerString (trimString text))
  | file {name : String} (unset : variableOf environ "EXPCALC_FORMAT" = none)
      (value : fileValue entries "format" = some (.text name)) : FormatFrom entries environ name
  | usual (unset : variableOf environ "EXPCALC_FORMAT" = none)
      (absent : fileValue entries "format" = none) : FormatFrom entries environ "plain"

/-- Where the decimal context of an environment comes from: it keeps its own, if none is set. Only a
precision in the file may turn out too large. -/
inductive ContextFrom (entries : List (Datum × Datum)) (environ : List (String × String))
    (own : Context) : Except (Refusal ⊕ Fault) Context → Prop
  | variable {name : String} {ctx : Context}
      (set : variableOf environ "EXPCALC_CONTEXT" = some name)
      (named : Context.ofName name = .ok ctx) : ContextFrom entries environ own (.ok ctx)
  | precision {n : Int} (unset : variableOf environ "EXPCALC_CONTEXT" = none)
      (value : fileValue entries "precision" = some (.int n)) (fits : n ≤ Context.maxPrecision) :
      ContextFrom entries environ own (.ok (.ofDigits n.toNat))
  | large {n : Int} {f : Fault} (unset : variableOf environ "EXPCALC_CONTEXT" = none)
      (value : fileValue entries "precision" = some (.int n)) (large : Context.maxPrecision < n) :
      ContextFrom entries environ own (.error (.inr f))
  | name {d : Datum} {ctx : Context} (unset : variableOf environ "EXPCALC_CONTEXT" = none)
      (noPrecision : IsUnset (fileValue entries "precision"))
      (value : fileValue entries "context" = some d) (filled : d ≠ .null)
      (named : Context.ofName d.shown = .ok ctx) : ContextFrom entries environ own (.ok ctx)
  | own (unset : variableOf environ "EXPCALC_CONTEXT" = none)
      (noPrecision : IsUnset (fileValue entries "precision"))
      (noName : IsUnset (fileValue entries "context")) : ContextFrom entries environ own (.ok own)

theorem depth_from {entries : List (Datum × Datum)} {environ : List (String × String)}
    {depth : Option Datum} {n : Int} (set : depthOverride environ = .ok depth)
    (checked : checkDepth (valueFrom entries environ depth "max_depth") = .ok n) :
    DepthFrom entries environ n := by
  obtain ⟨unset, rfl⟩ | ⟨text, m, given, read, rfl⟩ := depthOverride_ok set
  · obtain ⟨absent, rfl⟩ | ⟨value, -⟩ := checkDepth_ok checked
    · exact .usual unset absent
    · exact .file unset value
  · obtain ⟨absent, -⟩ | ⟨value, -⟩ := checkDepth_ok checked
    · cases absent
    · cases value
      exact .variable given read

theorem format_from {entries : List (Datum × Datum)} {environ : List (String × String)}
    {depth : Option Datum} {name : String}
    (checked : checkFormat (valueFrom entries environ depth "format") = .ok name) :
    FormatFrom entries environ name := by
  have value := (checkFormat_ok checked).2
  simp only [valueFrom] at value
  cases set : variableOf environ "EXPCALC_FORMAT" with
  | none =>
    rw [set] at value
    obtain ⟨absent, rfl⟩ | value := value
    · exact .usual set absent
    · exact .file set value
  | some text =>
    rw [set] at value
    obtain ⟨absent, -⟩ | value := value
    · cases absent
    · rw [← Datum.text.inj (Option.some.inj value)]
      exact .variable set

theorem chosenContext_named {settings : Settings} {name : String} {ctx : Context}
    (noPrecision : settings.precision = none) (named : settings.context = some name)
    (resolved : Context.ofName name = .ok ctx) : settings.chosenContext = .ok (some ctx) := by
  rw [chosenContext, noPrecision, named]
  dsimp only
  rw [resolved]
  rfl

theorem context_from {entries : List (Datum × Datum)} {environ : List (String × String)}
    {depth : Option Datum} {settings : Settings}
    (name : checkContext (valueFrom entries environ depth "context") = .ok settings.context)
    (digits : checkPrecision (valueFrom entries environ depth "precision") = .ok settings.precision)
    (own : Context) :
    ContextFrom entries environ own (settings.chosenContext.map fun ctx => ctx.getD own) := by
  simp only [valueFrom] at name digits
  cases set : variableOf environ "EXPCALC_CONTEXT" with
  | some text =>
    rw [set] at name digits
    obtain ⟨-, noPrecision⟩ | ⟨n, value, -⟩ := checkPrecision_ok digits
    · obtain ⟨none | null, -⟩ | ⟨d, ctx, value, -, some, named⟩ := checkContext_ok name
      · cases none
      · cases null
      · cases value
        rw [chosenContext_named noPrecision some named]
        exact .variable set named
    · cases value
  | none =>
    rw [set] at name digits
    obtain ⟨unset, noPrecision⟩ | ⟨n, value, positive, some⟩ := checkPrecision_ok digits
    · obtain ⟨noName, none⟩ | ⟨d, ctx, value, filled, some, named⟩ := checkContext_ok name
      · rw [chosenContext, noPrecision, none]
        exact .own set unset noName
      · rw [chosenContext_named noPrecision some named]
        exact .name set unset value filled named
    · rw [chosenContext, some]
      dsimp only
      obtain ⟨small, -⟩ | ⟨-, fits, ok⟩ | ⟨large, f, fault⟩ := Context.ofPrecision_cases n
      · omega
      · rw [ok]
        exact .precision set value fits
      · rw [fault]
        exact .large set value large

/-- What putting settings in force in an environment leads to, told from the context they set. -/
def Applies (settings : Settings) (family : Family) (id : EnvId) :
    Except (Refusal ⊕ Fault) Context → Prop
  | .ok ctx => ∃ family', settings.apply family id = .ok family' ∧ family'.options id =
      { context := ctx, bracketMultiply := settings.bracketMultiply
        variableMultiply := settings.variableMultiply, maxDepth := settings.maxDepth }
  | .error failure => settings.apply family id = .error failure

theorem apply_chosen (settings : Settings) {family : Family} {id : EnvId}
    (lt : id < family.members.size) : Applies settings family id
      (settings.chosenContext.map fun ctx => ctx.getD (family.options id).context) := by
  cases chosen : settings.chosenContext with
  | ok ctx =>
    refine ⟨_, by rw [apply, chosen]; rfl, ?_⟩
    rw [Family.options_modifyOptions lt]
  | error failure =>
    change settings.apply family id = .error failure
    rw [apply, chosen]
    rfl

/-- The variables of the process environment that override settings. -/
def overriding : List String := ["EXPCALC_MAX_DEPTH", "EXPCALC_FORMAT", "EXPCALC_CONTEXT"]

theorem valueFrom_overridden {entries entries' : List (Datum × Datum)}
    {environ : List (String × String)} {depth : Option Datum}
    (differ : DifferIn overridable entries entries')
    (set : ∀ name ∈ overriding, variableOf environ name ≠ none)
    (read : depthOverride environ = .ok depth) :
    valueFrom entries environ depth = valueFrom entries' environ depth := by
  obtain ⟨context, hContext⟩ := Option.ne_none_iff_exists'.mp (set "EXPCALC_CONTEXT" (by decide))
  obtain ⟨format, hFormat⟩ := Option.ne_none_iff_exists'.mp (set "EXPCALC_FORMAT" (by decide))
  obtain ⟨unset, -⟩ | ⟨text, n, -, -, rfl⟩ := depthOverride_ok read
  · exact absurd unset (set _ (by decide))
  · funext name
    -- the first four names are those that are overridden, and the mappings agree on all others
    unfold valueFrom
    rw [hContext, hFormat]
    dsimp only
    split
    · rfl
    · rfl
    · rfl
    · rfl
    · rename_i noDepth noContext noPrecision noFormat
      refine differ.values name ?_
      simp only [overridable, List.mem_cons, List.not_mem_nil, or_false, not_or]
      exact ⟨noDepth, noFormat, noContext, noPrecision⟩

/-- Every value of settings comes from the process environment if it is set there, or else from the
file if it is set there, or else is the usual one; the context of an environment stays its own. What
stands in the file under the four names that the process environment overrides does not matter at
all, be it right or wrong, where all three of its variables are set. -/
theorem combine_precedence (entries : List (Datum × Datum)) (environ : List (String × String)) :
    (∀ yaml tree path, mappingAt yaml tree (fileOf tree path) = .ok entries →
      (loadWith yaml path environ).run tree = (tree, combine entries environ)) ∧
    (∀ settings, combine entries environ = .ok settings →
      DepthFrom entries environ settings.maxDepth ∧ FormatFrom entries environ settings.format ∧
      ∀ (family : Family) (id : EnvId), id < family.members.size → ∃ chosen,
        ContextFrom entries environ (family.options id).context chosen ∧
          Applies settings family id chosen) ∧
    ∀ entries', DifferIn overridable entries entries' →
      (∀ name ∈ overriding, variableOf environ name ≠ none) →
      combine entries environ = combine entries' environ := by
  refine ⟨?_, ?_, ?_⟩
  · intro yaml tree path mapping
    rw [loadWith_run, mapping]
    rfl
  · intro settings combined
    obtain ⟨depth, read, values⟩ := combine_ok combined
    obtain ⟨name, digits, hDepth, hFormat, -⟩ := ofValues_ok values
    refine ⟨depth_from read hDepth, format_from hFormat, ?_⟩
    intro family id lt
    exact ⟨_, context_from name digits _, apply_chosen settings lt⟩
  · intro entries' differ set
    rw [combine_eq, combine_eq, differ.unknown?_eq]
    cases unknown? entries' with
    | some name => rfl
    | none =>
      cases read : depthOverride environ with
      | error failure => rfl
      | ok depth => exact congrArg ofValues (valueFrom_overridden differ set read)

/-- A mapping whose values are wrong, and variables that override them. -/
def wrongMapping : List (Datum × Datum) :=
  [(.text "max_depth", .text "deep"), (.text "format", .int 3), (.text "precision", .bool true)]

def fullEnvironment : List (String × String) :=
  [("EXPCALC_CONTEXT", "64 bit"), ("EXPCALC_FORMAT", " Separated"), ("EXPCALC_MAX_DEPTH", "7")]

def overriddenSettings : Settings :=
  { context := some "64 bit", maxDepth := 7, format := "separated" }

theorem differIn_nothing {chosen : List String} {entries : List (Datum × Datum)}
    (h : ∀ entry ∈ entries, ∃ name ∈ chosen, name ∈ names ∧ entry.1 = .text name) :
    DifferIn chosen entries [] := by
  constructor
  · intro name other
    have absent : fileValue entries name = none := by
      rw [fileValue, Option.map_eq_none_iff, List.find?_eq_none]
      rintro ⟨key, value⟩ mem
      obtain ⟨named, inside, -, rfl⟩ := h _ (List.mem_reverse.mp mem)
      simpa using fun same : named = name => other (same ▸ inside)
    rw [absent]
    rfl
  · intro key isUnknown
    refine iff_of_false ?_ List.not_mem_nil
    intro mem
    obtain ⟨entry, inside, rfl⟩ := List.mem_map.mp mem
    obtain ⟨name, -, known, key⟩ := h entry inside
    exact isUnknown ⟨name, known, key⟩

theorem combine_precedence_wrong : (∀ name ∈ overriding, variableOf fullEnvironment name ≠ none) ∧
    DifferIn overridable wrongMapping [] ∧
    combine wrongMapping fullEnvironment = .ok overriddenSettings ∧
    DepthFrom wrongMapping fullEnvironment 7 ∧ FormatFrom wrongMapping fullEnvironment "separated" ∧
    ∃ chosen, ContextFrom wrongMapping fullEnvironment Options.bare.context chosen ∧
      Applies overriddenSettings ⟨#[.bare], #[]⟩ 0 chosen := by
  have set : ∀ name ∈ overriding, variableOf fullEnvironment name ≠ none := by decide
  have differ : DifferIn overridable wrongMapping [] :=
    differIn_nothing (by simp [wrongMapping, overridable, names])
  have without : combine [] fullEnvironment = .ok overriddenSettings := by decide +kernel
  obtain ⟨-, sources, overridden⟩ := combine_precedence wrongMapping fullEnvironment
  have combined : combine wrongMapping fullEnvironment = .ok overriddenSettings :=
    (overridden [] differ set).trans without
  obtain ⟨depth, format, context⟩ := sources overriddenSettings combined
  exact ⟨set, differ, combined, depth, format, context ⟨#[.bare], #[]⟩ 0 (by decide)⟩

/-! ## Names of contexts -/

/-- Steps that may complain about settings, but do not pass on faults. -/
def Complaining {α : Type} (step : Except SettingsFailure α) : Prop := ∀ f, step ≠ .error (.fault f)

section

variable {α β : Type}

theorem complaining_ok (a : α) : Complaining (.ok a) := fun _ => nofun

theorem complaining_wrong (problem : SettingsProblem) : Complaining (wrong problem : Except _ α) :=
  fun _ => nofun

theorem complaining_bind {x : Except SettingsFailure α} {f : α → Except SettingsFailure β}
    (hx : Complaining x) (hf : ∀ a, Complaining (f a)) : Complaining (x >>= f) := by
  intro fault h
  obtain first | ⟨a, -, second⟩ := except_bind_eq_error.mp h
  · exact hx fault first
  · exact hf a fault second

end

theorem checkPrecision_complaining (value : Option Datum) : Complaining (checkPrecision value) := by
  fun_cases checkPrecision value <;> first | exact complaining_ok _ | exact complaining_wrong _

theorem checkFlag_complaining (name : String) (value : Option Datum) :
    Complaining (checkFlag name value) := by
  fun_cases checkFlag name value <;> first | exact complaining_ok _ | exact complaining_wrong _

theorem checkDepth_complaining (value : Option Datum) : Complaining (checkDepth value) := by
  fun_cases checkDepth value <;> first | exact complaining_ok _ | exact complaining_wrong _

theorem checkFormat_complaining (value : Option Datum) : Complaining (checkFormat value) := by
  fun_cases checkFormat value <;> first | exact complaining_ok _ | exact complaining_wrong _

theorem checkStateFile_complaining (value : Option Datum) : Complaining (checkStateFile value) := by
  fun_cases checkStateFile value <;> first | exact complaining_ok _ | exact complaining_wrong _

theorem depthOverride_complaining (environ : List (String × String)) :
    Complaining (depthOverride environ) := by
  fun_cases depthOverride environ <;> first | exact complaining_ok _ | exact complaining_wrong _

/-- Of all checks, only that of the context passes on faults. -/
theorem ofValues_fault {value : String → Option Datum} {f : Fault}
    (h : ofValues value = .error (.fault f)) :
    checkContext (value "context") = .error (.fault f) := by
  obtain fault | ⟨context, -, later⟩ := except_bind_eq_error.mp h
  · exact fault
  -- the checks that follow, in the order in which they are made
  · refine absurd later (complaining_bind (checkPrecision_complaining _) (fun _ => ?_) f)
    refine complaining_bind (checkFlag_complaining _ _) fun _ => ?_
    refine complaining_bind (checkFlag_complaining _ _) fun _ => ?_
    refine complaining_bind (checkDepth_complaining _) fun _ => ?_
    refine complaining_bind (checkFormat_complaining _) fun _ => ?_
    exact complaining_bind (checkStateFile_complaining _) fun _ => complaining_ok _

theorem checkContext_fault {value : Option Datum} {f : Fault}
    (h : checkContext value = .error (.fault f)) :
    ∃ d, value = some d ∧ Context.ofName d.shown = .error (.inr f) := by
  revert h
  fun_cases checkContext value with
  | case1 => exact nofun
  | case2 => exact nofun
  | case3 => exact nofun
  | case4 => exact nofun
  | case5 d filled f named => rintro ⟨⟩; exact ⟨d, rfl, named⟩

/-- Process environments whose context is a name beyond all precisions, and in which nothing is
complained about before. -/
structure PassesOn (environ : List (String × String)) : Prop where
  depth : ∃ depth, depthOverride environ = .ok depth
  context : ∃ name, variableOf environ "EXPCALC_CONTEXT" = some name ∧ Context.Beyond name

/-- What loading settings without a file leads to: settings that have passed every check, a
complaint, or a fault, if the process environment passes one on. -/
def Loads (environ : List (String × String)) : Except SettingsFailure Settings → Prop
  | .ok settings => settings.Valid ∧ ¬ PassesOn environ
  | .error (.problem _) => ¬ PassesOn environ
  | .error (.fault _) => PassesOn environ

theorem combine_nothing (environ : List (String × String)) : combine [] environ =
    depthOverride environ >>= fun depth => ofValues (valueFrom [] environ depth) := by
  have none : unknown? [] = none := by decide +kernel
  rw [combine_eq, none]

theorem combine_passesOn {environ : List (String × String)} (h : PassesOn environ) :
    ∃ f, combine [] environ = .error (.fault f) := by
  obtain ⟨⟨depth, read⟩, name, set, beyond⟩ := h
  obtain ⟨f, named⟩ := Context.ofName_beyond beyond
  refine ⟨f, ?_⟩
  have value : valueFrom [] environ depth "context" = some (.text name) := by
    simp only [valueFrom, set]
    rfl
  have checked : checkContext (valueFrom [] environ depth "context") = .error (.fault f) := by
    rw [value]
    simp only [checkContext, Datum.shown, named]
  rw [combine_nothing, read]
  exact except_bind_eq_error.mpr (.inr ⟨depth, rfl, except_bind_eq_error.mpr (.inl checked)⟩)

theorem not_passesOn {environ : List (String × String)}
    (complaining : Complaining (combine [] environ)) : ¬ PassesOn environ := by
  intro passes
  obtain ⟨f, fault⟩ := combine_passesOn passes
  exact complaining f fault

theorem combine_loads (environ : List (String × String)) :
    Loads environ (combine [] environ) := by
  cases combined : combine [] environ with
  | ok settings =>
    obtain ⟨depth, -, values⟩ := combine_ok combined
    exact ⟨ofValues_valid values, not_passesOn (combined ▸ complaining_ok settings)⟩
  | error failure =>
    cases failure with
    | problem p => exact not_passesOn (combined ▸ complaining_wrong p)
    | fault f =>
      rw [combine_nothing] at combined
      obtain first | ⟨depth, read, fault⟩ := except_bind_eq_error.mp combined
      · exact absurd first (depthOverride_complaining environ f)
      · obtain ⟨d, value, named⟩ := checkContext_fault (ofValues_fault fault)
        refine ⟨⟨depth, read⟩, ?_⟩
        cases set : variableOf environ "EXPCALC_CONTEXT" with
        | none =>
          simp only [valueFrom, set] at value
          cases value
        | some name =>
          simp only [valueFrom, set] at value
          cases value
          have resolves := Context.ofName_resolves name
          refine ⟨name, rfl, ?_⟩
          change Context.ofName name = _ at named
          rw [named] at resolves
          exact resolves

/-- Every name gives a context that can be calculated in or is refused, but for the names beyond all
precisions, which lead to faults. The command for contexts says that the context is unknown where
the name is refused, and loading settings without a file complains; both pass on the faults. -/
theorem context_name_outcomes (name : String) (setting : Setting) (r : Runner) (yaml : YamlReader)
    {tree : FileTree} {path : Option String} (noFile : fileOf tree path = none)
    (environ : List (String × String)) :
    Context.Resolves name (Context.ofName name) ∧
    (∃ outcome, Runner.handle setting (some (":context " ++ name)) r = .done outcome ∧
      Runner.ContextOutcome r.cleared (trimString name) outcome) ∧
    (LineFailure.command .context).line = "context: unknown math context." ∧
    ∃ result, (loadWith yaml path environ).run tree = (tree, result) ∧ Loads environ result := by
  refine ⟨Context.ofName_resolves name, Runner.handle_context setting name r, rfl,
    combine [] environ, ?_, combine_loads environ⟩
  rw [loadWith_run, noFile]
  rfl

theorem context_name_outcomes_superscript : fileOf ⟨["home"], [], []⟩ none = none ∧
    Context.Resolves "\u00b2" (Context.ofName "\u00b2") ∧
    (∃ outcome, Runner.handle ⟨0, false⟩ (some (":context " ++ "\u00b2")) (.usual ["home"] 0) =
      .done outcome ∧ Runner.ContextOutcome (Runner.usual ["home"] 0).cleared "\u00b2" outcome) ∧
    ∃ result, (load none [("EXPCALC_CONTEXT", "\u00b2")]).run ⟨["home"], [], []⟩ =
      (⟨["home"], [], []⟩, result) ∧ Loads [("EXPCALC_CONTEXT", "\u00b2")] result := by
  have noFile : fileOf ⟨["home"], [], []⟩ none = none := by decide +kernel
  obtain ⟨named, line, -, loaded⟩ := context_name_outcomes "\u00b2" ⟨0, false⟩ (.usual ["home"] 0)
    (fun cs => .ok (YamlText.parse cs)) noFile [("EXPCALC_CONTEXT", "\u00b2")]
  exact ⟨noFile, named, line, loaded⟩

/-- A superscript is a digit of no number: it is neither taken nor refused, and no check of settings
says so. -/
theorem superscript_fault :
    ¬ ((∃ ctx, Context.ofName "\u00b2" = .ok ctx) ∨
      ∃ refusal, Context.ofName "\u00b2" = .error (.inl refusal)) ∧
    ¬ ((∃ settings, combine [] [("EXPCALC_CONTEXT", "\u00b2")] = .ok settings) ∨
      ∃ p, combine [] [("EXPCALC_CONTEXT", "\u00b2")] = .error (.problem p)) := by
  have named : Context.ofName "\u00b2" = .error (.inr (.badNumeral "\u00b2")) := by decide +kernel
  have combined : combine [] [("EXPCALC_CONTEXT", "\u00b2")] =
      .error (.fault (.badNumeral "\u00b2")) := by decide +kernel
  rw [named, combined]
  refine ⟨?_, ?_⟩
  · rintro (⟨ctx, ⟨⟩⟩ | ⟨refusal, ⟨⟩⟩)
  · rintro (⟨settings, ⟨⟩⟩ | ⟨p, ⟨⟩⟩)

end Settings
end Calculator
