import Calculator.Proofs.Visibility

/-!
# Calculator.Proofs.Removals

Removing a name. An environment that removes a name says so if the name would show through, and
otherwise just says nothing about it. Which of the two it does depends on what lies below, and that
is not touched by its own changes; so a removal leaves the same behind whatever the environment has
said about the name.

* `discard_register`: a removal makes up for any registration of the name before it.
* `Call`, `converse`: what users ask of a family, one call after another, and the answers.
* `removal_idempotent`: a second removal in a row is never noticed.
-/

namespace Calculator

/-! ## Tables -/

namespace Table

variable {α : Type} {key : String}

theorem set_set (first second : Entry α) (table : Table α) :
    (table.set key first).set key second = table.set key second := by
  induction table with
  | nil => simp [set]
  | cons e rest ih =>
    obtain ⟨other, old⟩ := e
    by_cases same : other = key
    · simp [set, same]
    · simp [set, same, ih]

theorem erase_set (entry : Entry α) (table : Table α) :
    (table.set key entry).erase key = table.erase key := by
  induction table with
  | nil => simp [set, erase]
  | cons e rest ih =>
    obtain ⟨other, old⟩ := e
    by_cases same : other = key
    · simp [set, erase, same]
    · simp [set, erase, same, ih]

theorem erase_erase (table : Table α) : (table.erase key).erase key = table.erase key := by
  induction table with
  | nil => rfl
  | cons e rest ih =>
    obtain ⟨other, old⟩ := e
    by_cases same : other = key
    · simp [erase, same, ih]
    · simp [erase, same, ih]

end Table

namespace Family

/-! ## Removing after registering -/

section

variable {family : Family} {id : EnvId} {kind : Kind} {key : String}

/-- Two changes of a table are one. -/
theorem modifyTable_modifyTable (first second : Table kind.Value → Table kind.Value) :
    (family.modifyTable id kind first).modifyTable id kind second =
      family.modifyTable id kind fun table => second (first table) := by
  have both (env : Environment) : (env.setTable kind (first (env.table kind))).setTable kind
      (second ((env.setTable kind (first (env.table kind))).table kind)) =
      env.setTable kind (second (first (env.table kind))) := by
    cases kind <;> rfl
  simp only [modifyTable, modifyEnvironment]
  refine congrArg (Family.mk · family.answers) (Array.toList_inj.mp ?_)
  rw [Array.toList_modify, Array.toList_modify, Array.toList_modify, List.modify_modify_eq]
  exact congrArg (family.members.toList.modify id ·) (funext both)

/-- Whether a name would show through an environment. -/
def ShowsThrough (family : Family) (id : EnvId) (kind : Kind) (key : String) : Prop :=
  (family.lookupIn kind key (family.environment id).lineage).isSome

instance (family : Family) (id : EnvId) (kind : Kind) (key : String) :
    Decidable (family.ShowsThrough id kind key) := inferInstanceAs (Decidable (_ = true))

theorem discard_shown (shown : family.ShowsThrough id kind key) :
    family.discard id kind key = family.modifyTable id kind (Table.set key .removed) :=
  if_pos shown

theorem discard_unseen (unseen : ¬ family.ShowsThrough id kind key) :
    family.discard id kind key = family.modifyTable id kind (Table.erase key) :=
  if_neg unseen

/-- What an environment says itself does not change what would show through it. -/
theorem showsThrough_modifyTable (wf : family.WellFormed) (exist : id < family.members.size)
    (change : Table kind.Value → Table kind.Value) :
    (family.modifyTable id kind change).ShowsThrough id kind key ↔
      family.ShowsThrough id kind key := by
  rw [ShowsThrough, modifyTable, modifyEnvironment_same _ exist, setTable_lineage,
    lookupIn_congr (lineage_kept wf exist _)]
  rfl

/-- A registration writes an entry, unless it removes a name that would not show through. -/
theorem register_table (family : Family) (id : EnvId) (kind : Kind) (key : String)
    (value : Option kind.Value) :
    ∃ change, family.register id kind key value = family.modifyTable id kind change ∧
      ((∃ entry, change = Table.set key entry) ∨
        change = Table.erase key ∧ ¬ family.ShowsThrough id kind key) := by
  cases value with
  | some v => exact ⟨_, rfl, .inl ⟨_, rfl⟩⟩
  | none =>
    by_cases shown : family.ShowsThrough id kind key
    · exact ⟨_, discard_shown shown, .inl ⟨_, rfl⟩⟩
    · exact ⟨_, discard_unseen shown, .inr ⟨rfl, shown⟩⟩

/-- A removal leaves behind what it would have left without the registration before it. -/
theorem discard_register (wf : family.WellFormed) (exist : id < family.members.size)
    (value : Option kind.Value) :
    (family.register id kind key value).discard id kind key = family.discard id kind key := by
  obtain ⟨change, changed, wrote⟩ := register_table family id kind key value
  have through := @showsThrough_modifyTable family id kind key wf exist change
  rw [changed]
  -- An erasure comes before an erasure only, since what lies below is the same for both.
  by_cases shown : family.ShowsThrough id kind key
  · have covered (table : Table kind.Value) :
        (change table).set key .removed = table.set key .removed := by
      obtain ⟨entry, rfl⟩ := wrote.resolve_right fun erased => erased.2 shown
      exact Table.set_set entry .removed table
    rw [discard_shown (through.mpr shown), discard_shown shown, modifyTable_modifyTable]
    exact congrArg _ (funext covered)
  · have covered (table : Table kind.Value) : (change table).erase key = table.erase key := by
      rcases wrote with ⟨entry, rfl⟩ | ⟨rfl, -⟩
      · exact Table.erase_set entry table
      · exact Table.erase_erase table
    rw [discard_unseen (mt through.mp shown), discard_unseen shown, modifyTable_modifyTable]
    exact congrArg _ (funext covered)

/-- What an environment says about a name that it has removed. -/
theorem find?_discard (exist : id < family.members.size) :
    (((family.discard id kind key).environment id).table kind).find? key =
      if family.ShowsThrough id kind key then some .removed else none := by
  by_cases shown : family.ShowsThrough id kind key
  · rw [discard_shown shown, if_pos shown, modifyTable, modifyEnvironment_same _ exist,
      setTable_table_same, Table.find?_set_same]
  · rw [discard_unseen shown, if_neg shown, modifyTable, modifyEnvironment_same _ exist,
      setTable_table_same, Table.find?_erase_same]

end

end Family

/-! ## Calls -/

/-- What is asked of a family: to change a member, to copy it in either way, or to tell what a name
stands for, which names there are, or which options are in force. -/
inductive Call where
  | change (id : EnvId) (change : Change)
  | overlay (id : EnvId)
  | snapshot (id : EnvId)
  | lookup (id : EnvId) (kind : Kind) (key : String)
  | names (id : EnvId) (kind : Kind)
  | options (id : EnvId)

inductive Answer where
  | done
  | refused (refusal : Refusal)
  | made (id : EnvId)
  | value (kind : Kind) (value : Option kind.Value)
  | names (names : List String)
  | options (options : Options)

namespace Family

/-- A call, with the family after it. A refusal changes nothing. -/
def call (family : Family) : Call → Family × Answer
  | .change id change =>
    match change.run family id with
    | .ok changed => (changed, .done)
    | .error refusal => (family, .refused refusal)
  | .overlay id => ((family.overlay id).1, .made (family.overlay id).2)
  | .snapshot id => ((family.snapshot id).1, .made (family.snapshot id).2)
  | .lookup id kind key => (family, .value kind (family.lookup id kind key))
  | .names id kind => (family, .names (family.names id kind))
  | .options id => (family, .options (family.options id))

/-- Calls one after another, with the family after all of them. -/
def converse (family : Family) : List Call → Family × List Answer
  | [] => (family, [])
  | call :: later =>
    (((family.call call).1.converse later).1,
      (family.call call).2 :: ((family.call call).1.converse later).2)

theorem call_change {family changed : Family} {id : EnvId} {change : Change}
    (run : change.run family id = .ok changed) :
    family.call (.change id change) = (changed, .done) := by
  rw [call, run]

theorem converse_cons {family changed : Family} {id : EnvId} {change : Change}
    (run : change.run family id = .ok changed) (later : List Call) :
    family.converse (.change id change :: later) =
      ((changed.converse later).1, .done :: (changed.converse later).2) := by
  rw [converse, call_change run]

/-- An environment of a built family that has removed a name, and removes it once more, is left as
it was: the name stands for nothing there, and the environment says so itself exactly if the name
would show through. No calls later on, of any members, have other answers for it. -/
theorem removal_idempotent {family : Family} {id : EnvId} {kind : Kind} {key : String}
    {first second : Change} (built : family.Built) (exist : id < family.members.size)
    (removes : first.Registers kind key none) (again : second.Registers kind key none) :
    ∃ removed, first.run family id = .ok removed ∧ second.run removed id = .ok removed ∧
      removed.lookup id kind key = none ∧
      ((removed.environment id).table kind).find? key =
        (if family.ShowsThrough id kind key then some .removed else none) ∧
      ∀ later, ∃ after answers,
        family.converse (.change id first :: later) = (after, .done :: answers) ∧
        family.converse (.change id first :: .change id second :: later) =
          (after, .done :: .done :: answers) := by
  have wf := built_wellFormed built
  have once : first.run family id = .ok (family.discard id kind key) := removes.run family id
  have twice : second.run (family.discard id kind key) id = .ok (family.discard id kind key) := by
    rw [again.run]
    exact congrArg Except.ok (discard_register wf exist none)
  refine ⟨_, once, twice, ?_, find?_discard exist,
    fun later => ⟨_, _, converse_cons once later, ?_⟩⟩
  · exact (lookup_register wf exist kind key none key).trans (if_pos rfl)
  · rw [converse_cons once, converse_cons twice]

/-- An overlay of the standard environment removes `pi` twice, the second time by a name with spaces
around it. Then the root changes it, and a copy of the overlay is asked for it. -/
theorem removal_idempotent_covered :
    covered.Built ∧ 1 < covered.members.size ∧
    Change.Registers (.setVariable (some "pi") .nothing) .vars "pi" none ∧
    Change.Registers (.setVariable (some " pi ") .nothing) .vars "pi" none ∧
    ∃ after answers,
      covered.converse [.change 1 (.setVariable (some "pi") .nothing),
        .change 0 (.setVariable (some "pi") (.number (.ofInt 3))), .snapshot 1,
        .lookup 2 .vars "pi"] = (after, .done :: answers) ∧
      covered.converse [.change 1 (.setVariable (some "pi") .nothing),
        .change 1 (.setVariable (some " pi ") .nothing),
        .change 0 (.setVariable (some "pi") (.number (.ofInt 3))), .snapshot 1,
        .lookup 2 .vars "pi"] = (after, .done :: .done :: answers) := by
  have exist : 1 < covered.members.size := by decide +kernel
  have removes (name : String) (named : validateName .variableName (some name) = .ok "pi") :
      Change.Registers (.setVariable (some name) .nothing) .vars "pi" none :=
    .setVariable named rfl
  have first := removes "pi" rfl
  have second := removes " pi " rfl
  obtain ⟨_, -, -, -, -, unnoticed⟩ := removal_idempotent covered_built exist first second
  exact ⟨covered_built, exist, first, second, unnoticed _⟩

end Family
end Calculator
