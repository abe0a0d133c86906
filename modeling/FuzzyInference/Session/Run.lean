import FuzzyInference.Session.Domains
import FuzzyInference.Session.Rules
import FuzzyInference.Session.Sets

/-!
# Running a session

The answers to commands, one after the other. A command that fails puts nothing under a handle, and
the session goes on.
-/

namespace FuzzyInference.Session

/-- The answer to a command. -/
def Command.answer : Command → Request Answer
  | domain command => command.answer
  | set command => command.answer
  | rule command => command.answer

/-- The outcome of a command and the session after it. -/
def step (session : Session) (command : Command) : Except Failure Answer × Session :=
  command.answer session

/-- The outcomes of several commands. -/
def run (session : Session) : List Command → List (Except Failure Answer)
  | [] => []
  | command :: commands =>
    let (outcome, session) := session.step command
    outcome :: run session commands

end FuzzyInference.Session
