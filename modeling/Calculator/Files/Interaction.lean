import Calculator.Files.Tree

/-!
# Calculator.Files.Interaction

Computations that read and write files on their way. An interaction is a result, or a request
together with what follows once it is answered; who answers is left open. Here a file tree does.
-/

namespace Calculator

inductive Interaction (α : Type) where
  | done (a : α)
  | read (path : String) (resume : Except ReadProblem String → Interaction α)
  /-- Writes a file and says whether it could be written. -/
  | write (path : Path) (content : String) (resume : Bool → Interaction α)

namespace Interaction

variable {α β : Type}

def bind : Interaction α → (α → Interaction β) → Interaction β
  | done a, f => f a
  | read path resume, f => read path fun answer => bind (resume answer) f
  | write path content resume, f => write path content fun answer => bind (resume answer) f

instance : Monad Interaction where
  pure := done
  bind := bind

/-- Reads a file. -/
def readFile (path : String) : Interaction (Except ReadProblem String) := read path done

/-- Carries out an interaction on a file tree. -/
def run (tree : FileTree) : Interaction α → FileTree × α
  | done a => (tree, a)
  | read path resume => run tree (resume (tree.read path))
  | write path content resume =>
    let (tree, isWritten) := tree.write path content
    run tree (resume isWritten)

end Interaction
end Calculator
