import PageAudit.Attempt.Error

/-!
# Launchers

What starts and ends browser processes. A launcher is given by what it will do: how long every start and every
kill takes and how it ends. Times are in milliseconds.
-/

namespace PageAudit

/-- How a start ends. -/
inductive LaunchEnding where
  | ready
  | failed (e : LaunchError)
  /-- The launcher breaks down. -/
  | broken (message : String)
  deriving DecidableEq, Repr

/-- A start: how long it takes and how it ends. -/
structure Launch where
  delay : Nat := 0
  ending : LaunchEnding := .ready
  deriving DecidableEq, Repr

/-- How a kill ends. -/
inductive KillEnding where
  | done
  | failed (cause : String)
  /-- The launcher breaks down. -/
  | broken (message : String)
  deriving DecidableEq, Repr

/-- The launcher breaks down at the end of a kill. -/
def KillEnding.isBroken : KillEnding → Bool
  | .broken _ => true
  | _ => false

/-- A kill: how long it takes and how it ends. -/
structure Kill where
  delay : Nat := 0
  ending : KillEnding := .done
  deriving DecidableEq, Repr

/-- The behaviour of a launcher. -/
structure Launcher where
  /-- The start for a job after a number of earlier starts for it. -/
  launch : String → Nat → Launch
  /-- The kill of a process after a number of earlier kills. -/
  kill : Nat → Nat → Kill
  /-- The process of a start that succeeds after a number of others. -/
  pid : Nat → Nat
  /-- The endpoint of a process. -/
  endpoint : Nat → String

/-- A launcher that breaks down in no kill. -/
def Launcher.Steady (l : Launcher) : Prop :=
  ∀ pid earlier, (l.kill pid earlier).ending.isBroken = false

end PageAudit
