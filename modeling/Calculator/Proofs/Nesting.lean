import Calculator.Proofs.Likeness

/-!
# Calculator.Proofs.Nesting

How deeply the expressions of an evaluation are nested, and how the limit on that shows. An
evaluation that opens `N` expressions at once, and no more, ends as if there were no limit when at
least `N` are allowed, and fails because of the limit when fewer are.

* `evaluateAt_held`: of two evaluations, the one that may open fewer expressions ends as the other
  does, or fails because it may open no more and the other has opened more.
* `nesting_threshold`: the limits for which an evaluation fails because of them are those below a
  threshold, which is the largest number of expressions open at once.
-/

namespace Calculator

/-! ## What is allowed -/

/-- How many expressions may be open when a limit is in force and there is room for some. -/
def Allowance.of (most : Int) (room : Nat) : Allowance :=
  if most ≤ room then ⟨most.toNat, .limit most⟩ else ⟨room, .stack⟩

theorem Allowance.count_le (most : Int) (room : Nat) : (Allowance.of most room).count ≤ room := by
  unfold Allowance.of
  split
  · dsimp only
    omega
  · exact Nat.le_refl _

namespace Counting

section

variable {setting : Setting} {bound : EnvId → Scope} {scope : Scope} {text : List Char} {c : Count}
  {most : Int} {room : Nat}

theorem evaluateAt_full (full : scope.options.maxDepth < (c.level : Int) + 1) :
    evaluateAt setting bound room scope text c =
      .error (.tooDeep (.limit scope.options.maxDepth)) c := by
  cases room with
  | zero => rw [evaluateAt, bind_apply, get_apply]; exact congrFun (if_pos full) c
  | succ room => rw [evaluateAt, bind_apply, get_apply]; exact congrFun (if_pos full) c

theorem evaluateAt_zero (fits : ¬ scope.options.maxDepth < (c.level : Int) + 1) :
    evaluateAt setting bound 0 scope text c = .error (.tooDeep .stack) c := by
  rw [evaluateAt, bind_apply, get_apply]
  exact congrFun (if_neg fits) c

theorem evaluateAt_succ (fits : ¬ scope.options.maxDepth < (c.level : Int) + 1) :
    evaluateAt setting bound (room + 1) scope text c =
      opened (evaluateOpen setting (evaluateAt setting bound room) bound scope text) c := by
  rw [evaluateAt, bind_apply, get_apply]
  exact congrFun (if_neg fits) c

/-- Where as many are open as are allowed, none is opened. -/
theorem evaluateAt_refused (total : Nat) (limit : scope.options.maxDepth = most)
    (all : c.level + room = total)
    (full : (Allowance.of most total).count ≤ c.level) :
    evaluateAt setting bound room scope text c =
      .error (.tooDeep (Allowance.of most total).problem) c := by
  unfold Allowance.of at full ⊢
  by_cases fits : most ≤ total
  · rw [if_pos fits] at full ⊢
    dsimp only at full
    rw [evaluateAt_full (by omega), limit]
  · rw [if_neg fits] at full ⊢
    dsimp only at full
    obtain rfl : room = 0 := by omega
    exact evaluateAt_zero (by omega)

/-- Where fewer are open than are allowed, the expression is opened. -/
theorem evaluateAt_opened (total : Nat) (limit : scope.options.maxDepth = most)
    (all : c.level + (room + 1) = total) (fewer : c.level < (Allowance.of most total).count) :
    evaluateAt setting bound (room + 1) scope text c =
      opened (evaluateOpen setting (evaluateAt setting bound room) bound scope text) c := by
  refine evaluateAt_succ ?_
  unfold Allowance.of at fewer
  split at fewer
  · dsimp only at fewer
    omega
  · dsimp only at fewer
    omega

end

/-! ## Two limits -/

section

variable {moving : Moving} {setting setting' : Setting} {bound bound' : EnvId → Scope}
  {most most' : Int} {total total' : Nat}

theorem Comparable.refl {depths : Int → Int → Prop}
    (compared : Comparable depths moving setting setting' bound bound') :
    Comparable Eq moving setting' setting' bound' bound' where
  tracing := rfl
  draws := compared.draws
  bounds i still := (compared.bounds i still).refl

/-- Where as many are open as are allowed, the other evaluation goes beyond that, or may not open
one more either. -/
theorem evaluateAt_held_full
    (compared : Comparable (fun m m' => m = most ∧ m' = most') moving setting setting' bound bound')
    {room room' level : Nat} (all : level + room = total) (all' : level + room' = total')
    (full : (Allowance.of most total).count ≤ level) :
    InnerFollows (fun m m' => m = most ∧ m' = most') moving bound'
      (some (Allowance.of most total)) level (evaluateAt setting bound room)
      (evaluateAt setting' bound' room') := by
  intro ground x y text near free
  obtain ⟨limit, limit'⟩ := near.depths
  -- By itself the other evaluation puts its counter back, whether or not it opens the expression.
  have alone (less level : Nat) : InnerFollows Eq moving bound' none level
      (evaluateAt setting' bound' less) (evaluateAt setting' bound' less) :=
    evaluateAt_follows compared.refl (fun _ _ same => same) less less level (.inl rfl)
  refine ⟨fun {c c'} abreast => ?_, (alone room' level near.refl free).restored⟩
  obtain ⟨left, right, -, -⟩ := abreast
  rw [evaluateAt_refused total limit (by omega) (by omega)]
  refine .deep rfl ?_
  by_cases more : c'.level < (Allowance.of most' total').count
  · cases room' with
    | zero =>
      have room := Allowance.count_le most' total'
      omega
    | succ less =>
      have inside := follows_evaluateOpen compared.refl (alone less (level + 1)) near.refl free
      have raised := (restored_opened inside.restored right).2
      rw [evaluateAt_opened total' limit' (by omega) more]
      exact beyond_of_lt (Nat.lt_of_le_of_lt full raised)
  · rw [evaluateAt_refused total' limit' (by omega) (Nat.not_lt.mp more)]
    exact .inr rfl

/-- Of two evaluations, the one that may open fewer expressions follows the other until it may open
no more. The induction is on its room. -/
theorem evaluateAt_held
    (compared : Comparable (fun m m' => m = most ∧ m' = most') moving setting setting' bound bound')
    (fewer : (Allowance.of most total).count ≤ (Allowance.of most' total').count) (room : Nat) :
    ∀ room' level, level + room = total → level + room' = total' →
      InnerFollows (fun m m' => m = most ∧ m' = most') moving bound'
        (some (Allowance.of most total)) level (evaluateAt setting bound room)
        (evaluateAt setting' bound' room') := by
  induction room with
  | zero =>
    intro room' level all all' ground x y text near free
    have full := Allowance.count_le most total
    exact evaluateAt_held_full compared all all' (by omega) near free
  | succ room ih =>
    intro room' level all all' ground x y text near free
    by_cases opens : level < (Allowance.of most total).count
    · obtain ⟨limit, limit'⟩ := near.depths
      have opens' := Nat.lt_of_lt_of_le opens fewer
      cases room' with
      | zero =>
        have full := Allowance.count_le most' total'
        omega
      | succ room' =>
        have inside := follows_evaluateOpen compared
          (ih room' (level + 1) (by omega) (by omega)) near free
        have run := follows_opened inside fun _ allowed => Option.mem_some.mp allowed ▸ opens
        exact run.congr
          (fun c at_level => evaluateAt_opened total limit (by omega) (by omega))
          (fun c at_level => evaluateAt_opened total' limit' (by omega) (by omega))
    · exact evaluateAt_held_full compared all all' (Nat.not_lt.mp opens) near free

end

end Counting

/-! ## Two limits of one environment -/

section

variable {most : Allowance} {level : Nat} {α : Type} {q q' : EStateM.Result Failure Count α}

/-- An outcome that says that too many expressions were open. -/
def Deep (outcome : Except Failure α) : Prop :=
  ∃ failure, outcome = .error failure ∧ failure.isDeep = true

/-- A run that may open fewer expressions than one that does not fail because of its limit ends as
that one does, or else fails because of its own limit. -/
theorem Ended.cases_limit (ended : Ended (some most) level q q') (fine : ¬ Deep (outcomeOf q')) :
    (outcomeOf q = outcomeOf q' ∧ (countOf q).peak = (countOf q').peak ∧
      (countOf q').peak ≤ most.count) ∨
    (outcomeOf q = .error (.tooDeep most.problem) ∧ most.count < (countOf q').peak) := by
  cases ended with
  | ok abreast => exact .inl ⟨rfl, abreast.peak, abreast.peak ▸ abreast.allowed most rfl⟩
  | error abreast => exact .inl ⟨rfl, abreast.peak, abreast.peak ▸ abreast.allowed most rfl⟩
  | deep mem beyond =>
    cases mem
    refine .inr ⟨rfl, ?_⟩
    cases q' with
    | ok a c => exact beyond
    | error failure c =>
      exact beyond.resolve_right fun deep => fine ⟨failure, rfl, deep⟩

/-- A run that does not fail because of its limit ends as one that may open more expressions. -/
theorem Ended.of_fine (ended : Ended (some most) level q q') (fine : ¬ Deep (outcomeOf q)) :
    outcomeOf q' = outcomeOf q ∧ (countOf q').peak = (countOf q).peak ∧
      (countOf q).peak ≤ most.count := by
  cases ended with
  | ok abreast => exact ⟨rfl, abreast.peak.symm, abreast.allowed most rfl⟩
  | error abreast => exact ⟨rfl, abreast.peak.symm, abreast.allowed most rfl⟩
  | deep _ _ => exact absurd ⟨_, rfl, rfl⟩ fine

end

namespace Family

/-- The family in which no more than `most` expressions may be open in an environment. -/
def limited (family : Family) (id : EnvId) (most : Int) : Family :=
  family.modifyOptions id fun options => { options with maxDepth := most }

/-- Counted evaluation of a text in an environment where no more than `most` expressions may be open,
with room for `room`. -/
def counted (family : Family) (id : EnvId) (text : String) (tracing : Bool) (most : Int)
    (room : Nat) (now : Int) : Counting Decimal :=
  Counting.evaluateAt ⟨now, tracing⟩ ((family.limited id most).scope now) room
    ((family.limited id most).scope now id) text.toList

section

variable {family : Family} {id : EnvId} {text : String} {tracing : Bool}

/-- User functions that are found in an environment are bound to it, if at all. -/
def Own (family : Family) (id : EnvId) : Prop :=
  ∀ name f, family.lookup id .functions name = some (.user f) → f.scope = none ∨ f.scope = some id

theorem Own.owner (own : family.Own id) {name : String} {f : UserFunction}
    (found : family.lookup id .functions name = some (.user f)) : f.scope.getD id = id := by
  rcases own name f found with unbound | bound
  · rw [unbound]
    rfl
  · rw [bound]
    rfl

theorem limited_built (built : family.Built) (most : Int) : (family.limited id most).Built :=
  .setOptions built

theorem limited_size (most : Int) : (family.limited id most).members.size = family.members.size :=
  modifyEnvironment_size _ _ _

/-- Counted evaluation is evaluation, and leaves the counter where it was. -/
theorem counted_kept (built : family.Built) (exist : id < family.members.size) (most : Int)
    (room : Nat) (now : Int) (c : Count) :
    Kept c
      (Evaluation.evaluateAt ⟨now, tracing⟩ room c.level (family.limited id most) id text.toList
        c.session)
      (family.counted id text tracing most room now c) := by
  have built' : (family.limited id most).Built := limited_built built most
  have exist' : id < (family.limited id most).members.size := by rw [limited_size]; exact exist
  exact Evaluation.evaluateAt_counts ⟨now, tracing⟩ built' room c.level text.toList
    (Shows.start built' exist' now) c rfl

theorem limited_lookup (wf : family.WellFormed) (exist : id < family.members.size) (most : Int)
    (kind : Kind) : (family.limited id most).lookup id kind = family.lookup id kind :=
  funext fun key => lookup_modifyOptions wf exist _ kind key

theorem limited_options (exist : id < family.members.size) (most : Int) :
    (family.limited id most).options id = { family.options id with maxDepth := most } :=
  options_modifyOptions exist _

theorem limited_near (wf : family.WellFormed) (exist : id < family.members.size)
    (most most' now now' : Int) :
    Near (fun m m' => m = most ∧ m' = most') ((family.otherTimes (· ≠ id)).names id)
      ((family.limited id most').scope now' id) ((family.limited id most).scope now id)
      ((family.limited id most').scope now' id) := by
  have lookups := limited_lookup wf exist
  have options := limited_options exist
  refine scopes_near (fun kind => by rw [lookups, lookups]) (fun name v still found => ?_)
    (by rw [options, options]) (by rw [options, options]; exact ⟨rfl, rfl⟩)
  refine valueOf_still ?_ rfl now now'
  rintro rfl
  rw [lookups] at found
  exact still found

/-- Nothing moves in the environment but clocks and the limit. -/
theorem limited_compared (wf : family.WellFormed) (exist : id < family.members.size)
    (tracing : Bool) (most most' now now' : Int) :
    Counting.Comparable (fun m m' => m = most ∧ m' = most') (family.otherTimes (· ≠ id))
      ⟨now, tracing⟩ ⟨now', tracing⟩ ((family.limited id most).scope now)
      ((family.limited id most').scope now') := by
  refine ⟨rfl, fun _ draws => draws, fun i here => ?_⟩
  obtain rfl := not_not.mp here
  exact limited_near wf exist most most' now now'

theorem limited_untouched (wf : family.WellFormed) (exist : id < family.members.size)
    (own : family.Own id) (free : ¬ family.Uses id text.toList) (most now : Int) :
    ¬ Touches ((family.limited id most).scope now) (family.otherTimes (· ≠ id)) id text.toList := by
  intro touches
  refine free (uses_of_touches ?_ ?_ ?_ touches fun other => other rfl)
  · intro i name f here found
    obtain rfl := not_not.mp here
    exact fun other => other (own.owner found)
  · intro i here
    obtain rfl := not_not.mp here
    exact limited_lookup wf exist most .functions
  · intro i here
    obtain rfl := not_not.mp here
    have same := congrArg Options.variableMultiply (limited_options exist most)
    exact same

section

variable (built : family.Built) (exist : id < family.members.size) (own : family.Own id)
  (free : ¬ family.Uses id text.toList)

include built exist own free

/-- Evaluations of one text under two limits: the one that may open fewer expressions follows the
other. -/
theorem counted_held {most most' : Int} {room room' : Nat}
    (fewer : (Allowance.of most room).count ≤ (Allowance.of most' room').count)
    (now now' : Int) (s s' : Session) :
    Ended (some (Allowance.of most room)) 0
      (family.counted id text tracing most room now (.start s))
      (family.counted id text tracing most' room' now' (.start s')) := by
  have wf := built_wellFormed built
  have compared := limited_compared wf exist tracing most most' now now'
  have near := limited_near wf exist most most' now now'
  have still := limited_untouched wf exist own free most' now'
  have start : Abreast (some (Allowance.of most room)) 0 (.start s) (.start s') :=
    ⟨rfl, rfl, rfl, fun _ _ => Nat.zero_le _⟩
  exact (Counting.evaluateAt_held compared fewer room room' 0 (Nat.zero_add _) (Nat.zero_add _)
    near still).ended start

/-- With as much room as the limit allows, more room makes no difference. -/
theorem counted_room {most : Int} {room room' : Nat} (enough : most ≤ room)
    (enough' : most ≤ room') (now now' : Int) (s s' : Session) :
    outcomeOf (family.counted id text tracing most room now (.start s)) =
      outcomeOf (family.counted id text tracing most room' now' (.start s')) := by
  have wf := built_wellFormed built
  have compared := limited_compared wf exist tracing most most now now'
  have near := limited_near wf exist most most now now'
  have still := limited_untouched wf exist own free most now'
  have start : Abreast none 0 (.start s) (.start s') := ⟨rfl, rfl, rfl, nofun⟩
  refine ((Counting.evaluateAt_follows compared ?_ room room' 0 ?_ near still).ended start).outcome
  · rintro _ _ ⟨rfl, rfl⟩
    rfl
  · right
    rintro _ _ ⟨rfl, rfl⟩
    simpa using ⟨enough, enough'⟩

/-- An evaluation that does not fail because of its limit opens an expression at least. -/
theorem counted_opens {most : Int} {room : Nat} {now : Int} {s : Session}
    (fine : ¬ Deep (outcomeOf (family.counted id text tracing most room now (.start s)))) :
    1 ≤ (countOf (family.counted id text tracing most room now (.start s))).peak := by
  have limit : ((family.limited id 0).scope now id).options.maxDepth = 0 :=
    congrArg Options.maxDepth (limited_options exist 0)
  have none_open : family.counted id text tracing 0 0 now (.start s) =
      .error (.tooDeep (.limit 0)) (.start s) :=
    Counting.evaluateAt_refused 0 limit rfl (Nat.le_refl _)
  have fewer : (Allowance.of 0 0).count ≤ (Allowance.of most room).count := Nat.zero_le _
  rcases (counted_held built exist own free fewer now now s s).cases_limit fine with
    ⟨same, -⟩ | ⟨-, more⟩
  · rw [none_open] at same
    rw [← same] at fine
    exact absurd ⟨_, rfl, rfl⟩ fine
  · exact more

/-- An evaluation ends as one that does not fail because of its limit, or fails because of its
own. -/
theorem counted_threshold {most₀ : Int} {room₀ : Nat} {now₀ : Int} {s₀ : Session}
    (fine : ¬ Deep (outcomeOf (family.counted id text tracing most₀ room₀ now₀ (.start s₀))))
    (most : Int) (room : Nat) (now : Int) (s : Session) :
    let q₀ := family.counted id text tracing most₀ room₀ now₀ (.start s₀)
    let q := family.counted id text tracing most room now (.start s)
    (outcomeOf q = outcomeOf q₀ ∧ (countOf q).peak = (countOf q₀).peak ∧
      (countOf q₀).peak ≤ (Allowance.of most room).count) ∨
    (outcomeOf q = .error (.tooDeep (Allowance.of most room).problem) ∧
      (Allowance.of most room).count < (countOf q₀).peak) := by
  rcases Nat.le_total (Allowance.of most room).count (Allowance.of most₀ room₀).count with
    fewer | more
  · exact (counted_held built exist own free fewer now now₀ s s₀).cases_limit fine
  · obtain ⟨same, peak, le⟩ := (counted_held built exist own free more now₀ now s₀ s).of_fine fine
    exact .inl ⟨same, peak, Nat.le_trans le more⟩

end

/-- What a text comes to in an environment where no more than `most` expressions may be open, with
room for `room`. -/
def limitedResult (family : Family) (id : EnvId) (text : String) (tracing : Bool) (most : Int)
    (room : Nat) (now : Int) (s : Session) : Except Failure Decimal :=
  result (Evaluation.evaluateAt ⟨now, tracing⟩ room 0 (family.limited id most) id text.toList s)

/-- A text that uses neither the time nor random numbers is evaluated in an environment whose user
functions are bound to it, if at all. The evaluation needs no more room than the limit on open
expressions. Either it fails because of too many open expressions whatever the limit, or there is a
threshold: the largest number `N` of expressions open at once. Where at least `N` may be open, the
limit makes no difference; where fewer may be, the evaluation fails because of it. However an
evaluation ends, the count of open expressions is what it was at the beginning. -/
theorem nesting_threshold (built : family.Built) (exist : id < family.members.size)
    (own : family.Own id) (free : ¬ family.Uses id text.toList) (tracing : Bool) :
    (∀ (most : Int) (room : Nat) (now : Int) (c : Count), Kept c
      (Evaluation.evaluateAt ⟨now, tracing⟩ room c.level (family.limited id most) id text.toList
        c.session)
      (family.counted id text tracing most room now c)) ∧
    (∀ (most : Int) (room : Nat), most ≤ room → ∀ now now' s s',
      family.limitedResult id text tracing most room now s =
        family.limitedResult id text tracing most most.toNat now' s') ∧
    ((∀ most room now s, Deep (family.limitedResult id text tracing most room now s)) ∨
      ∃ (N : Nat) (outcome : Except Failure Decimal), 1 ≤ N ∧ ¬ Deep outcome ∧
        ∀ (most : Int) (room : Nat) (now : Int) (s : Session),
          (N ≤ most → N ≤ room →
            family.limitedResult id text tracing most room now s = outcome ∧
            (countOf (family.counted id text tracing most room now (.start s))).peak = N) ∧
          (most < N → most ≤ room →
            family.limitedResult id text tracing most room now s = .error (.tooDeep (.limit most))) ∧
          (room < N → room < most →
            family.limitedResult id text tracing most room now s = .error (.tooDeep .stack))) := by
  have outcomes (most : Int) (room : Nat) (now : Int) (s : Session) :
      family.limitedResult id text tracing most room now s =
        outcomeOf (family.counted id text tracing most room now (.start s)) :=
    (counted_kept built exist most room now (.start s)).outcome.symm
  refine ⟨counted_kept built exist, fun most room enough now now' s s' => ?_, ?_⟩
  · rw [outcomes, outcomes]
    exact counted_room built exist own free enough (Int.self_le_toNat most) now now' s s'
  by_cases never : ∀ most room now s, Deep (family.limitedResult id text tracing most room now s)
  · exact .inl never
  · simp only [not_forall, outcomes] at never
    obtain ⟨most₀, room₀, now₀, s₀, fine⟩ := never
    refine .inr ⟨_, _, counted_opens built exist own free fine, fine, fun most room now s => ?_⟩
    have opens := counted_opens built exist own free fine
    have ends := counted_threshold built exist own free fine most room now s
    rw [outcomes]
    dsimp only at ends
    generalize (countOf (family.counted id text tracing most₀ room₀ now₀ (.start s₀))).peak = N
      at opens ends ⊢
    refine ⟨fun enough enough' => ?_, fun few fits => ?_, fun few less => ?_⟩
    · have le : N ≤ (Allowance.of most room).count := by
        unfold Allowance.of
        split
        · dsimp only
          omega
        · exact enough'
      rcases ends with ⟨same, peak, -⟩ | ⟨-, more⟩
      · exact ⟨same, peak⟩
      · omega
    · have allowed : Allowance.of most room = ⟨most.toNat, .limit most⟩ := if_pos fits
      rw [allowed] at ends
      rcases ends with ⟨-, -, le⟩ | ⟨deep, -⟩
      · dsimp only at le
        omega
      · exact deep
    · have allowed : Allowance.of most room = ⟨room, .stack⟩ := if_neg (by omega)
      rw [allowed] at ends
      rcases ends with ⟨-, -, le⟩ | ⟨deep, -⟩
      · exact absurd le (Nat.not_le.mpr few)
      · exact deep

end

/-! ## A function that calls itself -/

/-- A root with a function that calls itself until its argument is one. -/
def descending : Family :=
  Family.empty.addRoot.1.register 0 .functions "f"
    (some (.user ⟨"f", ["x"], "f(1)", some ⟨"x", "1"⟩, some 0⟩))

theorem descending_built : descending.Built := by
  have set : Family.empty.addRoot.1.setFunction 0 (some "f")
      (.given (.user ⟨"f", ["x"], "f(1)", some ⟨"x", "1"⟩, some 0⟩)) = .ok descending := by
    have named : validateName .functionName (some "f") = .ok "f" := rfl
    simp [Family.setFunction, named, descending]
  refine .setFunction (.addRoot .empty) set fun u scope same bound => ?_
  cases same
  cases bound
  decide

theorem descending_own : descending.Own 0 := by
  intro name f found
  obtain ⟨place, env, member, mem⟩ := lookupIn_mem found
  cases place with
  | succ place => cases member
  | zero =>
    cases member
    cases List.mem_singleton.mp mem
    exact .inr rfl

/-- The texts that a call of the function with zero leads to. -/
def descendingTexts : List (EnvId × List Char) :=
  ["f(0)", "f(1)", "x", "0", "1"].map fun text => (0, text.toList)

theorem descending_unused : ¬ descending.Uses 0 "f(0)".toList := by
  have closed : (descendingTexts.all fun text =>
      (operandsOf text.2).all (descending.harmless descendingTexts text.1)) = true := by
    decide +kernel
  simp only [List.all_eq_true] at closed
  exact not_uses_of_harmless closed List.mem_cons_self

/-- Three expressions are open at once when the function is called with zero. -/
theorem nesting_threshold_descending :
    descending.Built ∧ 0 < descending.members.size ∧ descending.Own 0 ∧
    ¬ descending.Uses 0 "f(0)".toList ∧
    ∀ (most : Int) (room : Nat) (now : Int) (s : Session),
      (3 ≤ most → 3 ≤ room → descending.limitedResult 0 "f(0)" false most room now s = .ok .one) ∧
      (most < 3 → most ≤ room → descending.limitedResult 0 "f(0)" false most room now s =
        .error (.tooDeep (.limit most))) := by
  have exist : 0 < descending.members.size := by decide
  refine ⟨descending_built, exist, descending_own, descending_unused, ?_⟩
  have three : descending.limitedResult 0 "f(0)" false 3 3 0 (.start 0) = .ok .one := by
    decide +kernel
  have two : descending.limitedResult 0 "f(0)" false 2 2 0 (.start 0) =
      .error (.tooDeep (.limit 2)) := by decide +kernel
  obtain ⟨-, -, never | ⟨N, outcome, -, fine, limits⟩⟩ :=
    nesting_threshold descending_built exist descending_own descending_unused false
  · obtain ⟨failure, failed, -⟩ := never 3 3 0 (.start 0)
    rw [three] at failed
    cases failed
  -- At three the call has its value, and at two it has none: three is the threshold.
  have le : N ≤ 3 := by
    by_contra more
    have failed := (limits 3 3 0 (.start 0)).2.1 (by omega) (by decide)
    rw [three] at failed
    cases failed
  have ge : 3 ≤ N := by
    by_contra fewer
    have same := ((limits 2 2 0 (.start 0)).1 (by omega) (by omega)).1
    rw [two] at same
    exact fine ⟨_, same.symm, rfl⟩
  obtain rfl := Nat.le_antisymm le ge
  obtain ⟨value, -⟩ := (limits 3 3 0 (.start 0)).1 (by decide) (by decide)
  rw [three] at value
  intro most room now s
  obtain ⟨enough, few, -⟩ := limits most room now s
  refine ⟨fun allowed fits => ?_, few⟩
  rw [value]
  exact (enough allowed fits).1

end Family
end Calculator
