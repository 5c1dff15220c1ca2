import XmipEssentials.Observe

/-!
# A scope's standing over the rounds it has run

A scope is judged round by round: it passes, warns or fails. It reads fine while it passes and has
never failed, stressed while it passes and has failed before or warns, and done the round it fails.
-/

namespace XmipEssentials

/-- How one round went for a scope. -/
inductive Mark where
  | pass
  | warn
  | fail
  deriving DecidableEq, Repr

/-- A scope's standing: how many rounds failed, how the last one went, and the line an operator
reads. -/
structure Standing where
  failures : Nat
  lastPass : Bool
  lastWarn : Bool
  line : Text
  deriving DecidableEq, Repr

namespace Standing

/-- A scope no round has judged. -/
def default : Standing := ⟨0, false, false, []⟩

/-- The standing with one round's mark and evidence. -/
def record (s : Standing) (mark : Mark) (line : Text) : Standing where
  failures := if mark = .fail then s.failures + 1 else s.failures
  lastPass := mark = .pass
  lastWarn := mark = .warn
  line := line

/-- The health record for the scope. -/
def health (s : Standing) (scope : Text) (now : Int) : HealthRecord :=
  let (health, severity) :=
    if s.lastPass ∧ s.failures = 0 then (Health.fine, 0)
    else if s.lastPass then (.stressed, 45)
    else if s.lastWarn then (.stressed, 40)
    else (.done, 90)
  ⟨scope, health, severity, s.line, now⟩

end Standing

end XmipEssentials
